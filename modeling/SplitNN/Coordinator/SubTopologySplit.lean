import Mathlib
import SplitNN.Coordinator.SubTopology

set_option autoImplicit false

namespace SplitNN.Coordinator

open Multigraph (unordered)

/-- The sub-topologies carry the topology: every node and every link once, at the right place. -/
structure IsSplit (nodes : List NodeName) (adjacencyList : AdjacencyList)
    (node2serverid : Dict NodeName Nat) (serverNum : Nat) (subgraphs : Dict Nat SubTopology)
    (vxlanId : NodeName → NodeName → Nat) : Prop where
  servers : ∀ serverId, serverId ∈ subgraphs.keys ↔ serverId < serverNum
  nodesOnce : ∀ serverId sub, subgraphs.get? serverId = some sub → ∀ node, sub.nodes.count node =
    if node2serverid.get? node = some serverId then 1 else 0
  internal : ∀ serverId sub, subgraphs.get? serverId = some sub → ∀ u v,
    (unordered sub.edges).count s(u, v) =
      if node2serverid.get? u = some serverId ∧ node2serverid.get? v = some serverId then
        multiplicity adjacencyList u v else 0
  dangling : ∀ serverId sub, subgraphs.get? serverId = some sub → ∀ u v peerServerId,
    node2serverid.get? u = some serverId → node2serverid.get? v = some peerServerId →
    serverId ≠ peerServerId →
    sub.dangling.count (u, danglingToken v peerServerId (vxlanId u v)) =
      multiplicity adjacencyList u v
  danglingOnly : ∀ serverId sub, subgraphs.get? serverId = some sub → ∀ entry ∈ sub.dangling,
    ∃ v peerServerId, node2serverid.get? entry.1 = some serverId ∧
      node2serverid.get? v = some peerServerId ∧ serverId ≠ peerServerId ∧
      v ∈ neighbours adjacencyList entry.1 ∧
      entry.2 = danglingToken v peerServerId (vxlanId entry.1 v)
  sameId : ∀ u v, vxlanId u v = vxlanId v u
  distinctIds : ∀ u ∈ nodes, ∀ v ∈ neighbours adjacencyList u, ∀ x ∈ nodes,
    ∀ y ∈ neighbours adjacencyList x,
    node2serverid.get? u ≠ node2serverid.get? v → node2serverid.get? x ≠ node2serverid.get? y →
    vxlanId u v = vxlanId x y → s(u, v) = s(x, y)
  consecutiveIds : ∃ next, ∀ id, (∃ u ∈ nodes, ∃ v ∈ neighbours adjacencyList u,
    node2serverid.get? u ≠ node2serverid.get? v ∧ vxlanId u v = id) ↔ 4097 ≤ id ∧ id < next

section Records

variable {node2serverid : Dict NodeName Nat}

theorem count_internal (links : List (NodeName × NodeName)) (serverId : Nat) (u v : NodeName) :
    (links.filter (internalOn node2serverid serverId)).count (u, v) =
      if node2serverid.get? u = some serverId ∧ node2serverid.get? v = some serverId then
        links.count (u, v) else 0 := by
  by_cases inside : internalOn node2serverid serverId (u, v) = true
  · rw [List.count_filter inside]
    simp_all [internalOn]
  · have absent : (u, v) ∉ links.filter (internalOn node2serverid serverId) :=
      fun member => inside (List.mem_filter.mp member).2
    rw [List.count_eq_zero.mpr absent]
    simp_all [internalOn]

theorem count_danglingAt {serverId peerServerId : Nat} {x y : NodeName}
    (xServer : node2serverid.get? x = some serverId)
    (yServer : node2serverid.get? y = some peerServerId) (different : serverId ≠ peerServerId)
    (id vxlanId : Nat) (u v : NodeName) :
    (danglingAt node2serverid serverId id u v).count (x, danglingToken y peerServerId vxlanId) =
      if (u, v) = (x, y) ∧ id = vxlanId then 1 else 0 := by
  by_cases same : (u, v) = (x, y)
  · obtain ⟨rfl, rfl⟩ := Prod.mk.inj same
    by_cases sameId : id = vxlanId
    · simp [danglingAt, xServer, yServer, Ne.symm different, sameId]
    · have differs : danglingToken v peerServerId id ≠ danglingToken v peerServerId vxlanId :=
        fun equal => sameId (danglingToken_inj equal).2.2
      simp [danglingAt, xServer, yServer, Ne.symm different, sameId, differs]
  · have absent : (x, danglingToken y peerServerId vxlanId) ∉
        danglingAt node2serverid serverId id u v := by
      intro member
      unfold danglingAt at member
      split at member
      · split_ifs at member with inside
        · obtain ⟨rfl, token⟩ := Prod.mk.inj (List.mem_singleton.mp member)
          exact same (by rw [(danglingToken_inj token).1])
        · simp at member
      · simp at member
    simp [List.count_eq_zero.mpr absent, same]

def vxlanIdOf (ids : NodeName × NodeName → Nat) (u v : NodeName) : Nat :=
  if u < v then ids (u, v) else ids (v, u)

theorem vxlanIdOf_comm (ids : NodeName × NodeName → Nat) (u v : NodeName) :
    vxlanIdOf ids u v = vxlanIdOf ids v u := by
  unfold vxlanIdOf
  rcases lt_trichotomy u v with less | rfl | greater
  · simp [less, lt_asymm less]
  · simp
  · simp [greater, lt_asymm greater]

theorem count_danglingOn {links : List (NodeName × NodeName)}
    (forward : ∀ link ∈ links, link.1 < link.2) {serverId peerServerId : Nat} {x y : NodeName}
    (xServer : node2serverid.get? x = some serverId)
    (yServer : node2serverid.get? y = some peerServerId) (different : serverId ≠ peerServerId)
    (ids : NodeName × NodeName → Nat) :
    (links.flatMap (danglingOn node2serverid ids serverId)).count
        (x, danglingToken y peerServerId (vxlanIdOf ids x y)) =
      links.count (x, y) + links.count (y, x) := by
  induction links with
  | nil => simp
  | cons link rest ih =>
    obtain ⟨u, v⟩ := link
    have less : u < v := forward (u, v) (by simp)
    have first : ((u, v) = (x, y) ∧ ids (u, v) = vxlanIdOf ids x y) ↔ (u, v) = (x, y) := by
      refine and_iff_left_of_imp ?_
      intro same
      obtain ⟨rfl, rfl⟩ := Prod.mk.inj same
      simp [vxlanIdOf, less]
    have second : ((v, u) = (x, y) ∧ ids (u, v) = vxlanIdOf ids x y) ↔ (u, v) = (y, x) := by
      constructor
      · intro given
        rcases given with ⟨same, -⟩
        obtain ⟨rfl, rfl⟩ := Prod.mk.inj same
        rfl
      · intro same
        obtain ⟨rfl, rfl⟩ := Prod.mk.inj same
        simp [vxlanIdOf, lt_asymm less]
    rw [List.flatMap_cons, List.count_append, ih fun link member =>
      forward link (List.mem_cons_of_mem _ member), danglingOn, List.count_append,
      count_danglingAt xServer yServer different, count_danglingAt xServer yServer different]
    simp only [first, second, List.count_cons, beq_iff_eq]
    omega

theorem mem_danglingAt {serverId vxlanId : Nat} {u v : NodeName} {entry : NodeName × String}
    (member : entry ∈ danglingAt node2serverid serverId vxlanId u v) :
    ∃ peerServerId, node2serverid.get? u = some serverId ∧
      node2serverid.get? v = some peerServerId ∧ serverId ≠ peerServerId ∧
      entry = (u, danglingToken v peerServerId vxlanId) := by
  unfold danglingAt at member
  split at member
  · rename_i uServerId vServerId uServer vServer
    split_ifs at member with inside
    · obtain ⟨rfl, different⟩ := inside
      exact ⟨vServerId, uServer, vServer, different.symm, List.mem_singleton.mp member⟩
    · simp at member
  · simp at member

theorem count_edges {nodes : List NodeName} {adjacencyList : AdjacencyList}
    (topology : IsTopology nodes adjacencyList)
    (loopFree : Multigraph.LoopFree (neighbours adjacencyList) nodes)
    (assigns : Assigns node2serverid nodes) (ids : NodeName × NodeName → Nat) (serverId : Nat)
    (u v : NodeName) :
    (unordered (subTopologyOf node2serverid ids (forwardLinks nodes adjacencyList)
        serverId).edges).count s(u, v) =
      if node2serverid.get? u = some serverId ∧ node2serverid.get? v = some serverId then
        multiplicity adjacencyList u v else 0 := by
  by_cases loop : u = v
  · subst loop
    rw [Multigraph.count_unordered_self, subTopologyOf, count_internal]
    by_cases inside : node2serverid.get? u = some serverId
    · have missing : multiplicity adjacencyList u u = 0 :=
        List.count_eq_zero.mpr (loopFree u (assigns.member inside))
      rw [forwardLinks, Multigraph.count_oriented _ _ topology.undirected.distinct]
      simp [missing]
    · simp [inside]
  · rw [Multigraph.count_unordered _ loop, subTopologyOf, count_internal, count_internal]
    by_cases inside : node2serverid.get? u = some serverId ∧ node2serverid.get? v = some serverId
    · rw [if_pos inside, if_pos inside.symm, if_pos inside,
        count_forwardLinks topology (assigns.member inside.1) loop]
    · rw [if_neg inside, if_neg fun both => inside both.symm, if_neg inside]

theorem mem_dangling {nodes : List NodeName} {adjacencyList : AdjacencyList}
    (topology : IsTopology nodes adjacencyList) {ids : NodeName × NodeName → Nat} {serverId : Nat}
    {entry : NodeName × String} (member : entry ∈ (subTopologyOf node2serverid ids
      (forwardLinks nodes adjacencyList) serverId).dangling) :
    ∃ v peerServerId, node2serverid.get? entry.1 = some serverId ∧
      node2serverid.get? v = some peerServerId ∧ serverId ≠ peerServerId ∧
      v ∈ neighbours adjacencyList entry.1 ∧
      entry.2 = danglingToken v peerServerId (vxlanIdOf ids entry.1 v) := by
  obtain ⟨⟨u, v⟩, visited, records⟩ := List.mem_flatMap.mp member
  obtain ⟨left, listed, less⟩ := mem_forwardLinks.mp visited
  rcases List.mem_append.mp records with atU | atV
  · obtain ⟨peerServerId, uServer, vServer, different, rfl⟩ := mem_danglingAt atU
    exact ⟨v, peerServerId, uServer, vServer, different, listed, by simp [vxlanIdOf, less]⟩
  · obtain ⟨peerServerId, vServer, uServer, different, rfl⟩ := mem_danglingAt atV
    exact ⟨u, peerServerId, vServer, uServer, different, topology.neighbours_symm left listed,
      by simp [vxlanIdOf, lt_asymm less]⟩

theorem exists_visit {nodes : List NodeName} {adjacencyList : AdjacencyList}
    (topology : IsTopology nodes adjacencyList) (ids : NodeName × NodeName → Nat)
    {u v : NodeName} (left : u ∈ nodes) (listed : v ∈ neighbours adjacencyList u)
    (different : u ≠ v) :
    ∃ link ∈ forwardLinks nodes adjacencyList, s(link.1, link.2) = s(u, v) ∧
      ids link = vxlanIdOf ids u v := by
  have right := topology.undirected.closed u left v listed
  rcases lt_or_gt_of_ne different with less | greater
  · exact ⟨(u, v), mem_forwardLinks.mpr ⟨left, listed, less⟩, rfl, by simp [vxlanIdOf, less]⟩
  · have back := topology.neighbours_symm left listed
    exact ⟨(v, u), mem_forwardLinks.mpr ⟨right, back, greater⟩, Sym2.eq_swap,
      by simp [vxlanIdOf, lt_asymm greater]⟩

theorem cut_of_ends {link : NodeName × NodeName} {u v : NodeName}
    (same : s(link.1, link.2) = s(u, v))
    (cut : node2serverid.get? u ≠ node2serverid.get? v) : Cut node2serverid link := by
  rcases Sym2.eq_iff.mp same with ⟨first, second⟩ | ⟨first, second⟩
  · simpa [Cut, first, second] using cut
  · simpa [Cut, first, second] using cut.symm

theorem ne_of_cut {u v : NodeName} (cut : node2serverid.get? u ≠ node2serverid.get? v) : u ≠ v :=
  fun same => cut (congrArg node2serverid.get? same)

theorem vxlanIdOf_lt {nodes : List NodeName} {adjacencyList : AdjacencyList}
    (topology : IsTopology nodes adjacencyList) {ids : NodeName × NodeName → Nat}
    (numbered : VxlanIds node2serverid ids (forwardLinks nodes adjacencyList)) {u v : NodeName}
    (left : u ∈ nodes) (listed : v ∈ neighbours adjacencyList u)
    (cut : node2serverid.get? u ≠ node2serverid.get? v) :
    vxlanIdOf ids u v < 4097 + (forwardLinks nodes adjacencyList).length := by
  obtain ⟨next, consecutive⟩ := numbered.consecutive
  obtain ⟨link, member, ends, same⟩ := exists_visit topology ids left listed (ne_of_cut cut)
  have issued := (consecutive _).mp ⟨link, member, cut_of_ends ends cut, same⟩
  have all : Finset.Ico 4097 next ⊆ ((forwardLinks nodes adjacencyList).map ids).toFinset := by
    intro id range
    obtain ⟨other, found, -, rfl⟩ := (consecutive id).mpr (Finset.mem_Ico.mp range)
    exact List.mem_toFinset.mpr (List.mem_map_of_mem found)
  have bound := (Finset.card_le_card all).trans (List.toFinset_card_le _)
  rw [Nat.card_Ico, List.length_map] at bound
  omega

end Records

/-- Splitting a topology into sub-topologies loses and duplicates nothing. -/
theorem writeSubtoposToFile_splits {nodes : List NodeName} {adjacencyList : AdjacencyList}
    {node2serverid : Dict NodeName Nat} {serverNum : Nat}
    (topology : IsTopology nodes adjacencyList)
    (loopFree : Multigraph.LoopFree (neighbours adjacencyList) nodes)
    (assigns : Assigns node2serverid nodes)
    (inRange : ∀ node serverId, node2serverid.get? node = some serverId → serverId < serverNum) :
    ∃ subgraphs vxlanId,
      collectSubtopos nodes adjacencyList node2serverid serverNum = some subgraphs ∧
      IsSplit nodes adjacencyList node2serverid serverNum subgraphs vxlanId := by
  obtain ⟨subgraphs, ids, run, values, injective, next, consecutive⟩ :=
    collectSubtopos_spec node2serverid topology assigns inRange
  have form {serverId : Nat} {sub : SubTopology} (found : subgraphs.get? serverId = some sub) :
      sub = subTopologyOf node2serverid ids (forwardLinks nodes adjacencyList) serverId := by
    rw [values] at found
    split_ifs at found
    exact (Option.some.inj found).symm
  refine ⟨subgraphs, vxlanIdOf ids, run, ?_⟩
  constructor
  case servers =>
    intro serverId
    rw [← Dict.get?_isSome, values]
    split_ifs <;> simp_all
  case nodesOnce =>
    intro serverId sub found node
    rw [form found]
    exact node2serverid.count_keysWith serverId node
  case internal =>
    intro serverId sub found u v
    rw [form found]
    exact count_edges topology loopFree assigns ids serverId u v
  case dangling =>
    intro serverId sub found u v peerServerId uServer vServer different
    have apart : u ≠ v := by
      intro same
      subst same
      exact different (Option.some.inj (uServer.symm.trans vServer))
    rw [form found, subTopologyOf, count_danglingOn
      (fun link member => (forwardLinks_closed topology member).2.2) uServer vServer different,
      count_forwardLinks topology (assigns.member uServer) apart]
  case danglingOnly =>
    intro serverId sub found entry member
    rw [form found] at member
    exact mem_dangling topology member
  case sameId => exact vxlanIdOf_comm ids
  case distinctIds =>
    intro u left v listed x left' y listed' cut cut' same
    obtain ⟨link, member, ends, id⟩ := exists_visit topology ids left listed (ne_of_cut cut)
    obtain ⟨link', member', ends', id'⟩ :=
      exists_visit topology ids left' listed' (ne_of_cut cut')
    have equal := injective link member link' member' (cut_of_ends ends cut)
      (cut_of_ends ends' cut') (by rw [id, id', same])
    rw [← ends, ← ends', equal]
  case consecutiveIds =>
    refine ⟨next, fun id => ?_⟩
    rw [← consecutive]
    constructor
    · intro given
      rcases given with ⟨u, left, v, listed, cut, rfl⟩
      obtain ⟨link, member, ends, same⟩ := exists_visit topology ids left listed (ne_of_cut cut)
      exact ⟨link, member, cut_of_ends ends cut, same⟩
    · intro given
      rcases given with ⟨⟨u, v⟩, member, cut, rfl⟩
      obtain ⟨left, listed, less⟩ := mem_forwardLinks.mp member
      exact ⟨u, left, v, listed, cut, by simp [vxlanIdOf, less]⟩

theorem writeSubtoposToFile_splits_sample :
    ∃ subgraphs vxlanId,
      collectSubtopos sampleNodes sampleAdjacency sampleServers 2 = some subgraphs ∧
      IsSplit sampleNodes sampleAdjacency sampleServers 2 subgraphs vxlanId :=
  writeSubtoposToFile_splits sample_isTopology sample_loopFree sample_assigns sample_inRange

end SplitNN.Coordinator
