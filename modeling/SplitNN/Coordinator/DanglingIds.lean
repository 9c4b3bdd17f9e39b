import Mathlib
import SplitNN.Coordinator.SubTopologySplit

set_option autoImplicit false

namespace SplitNN.Coordinator

-- The text of the id in a dangling record, as the agent finds it: behind the last underscore.
def recordVxlanId (entry : NodeName × String) : Option (List Char) :=
  (entry.2.toList.splitOn '_').getLast?

def DistinctVxlanIds (subgraphs : Dict Nat SubTopology) : Prop :=
  ∀ serverId sub, subgraphs.get? serverId = some sub → (sub.dangling.map recordVxlanId).Nodup

/-- At most one link joins any two nodes that are on different servers. -/
def SinglyCut (nodes : List NodeName) (adjacencyList : AdjacencyList)
    (node2serverid : Dict NodeName Nat) : Prop :=
  ∀ u ∈ nodes, ∀ v ∈ nodes, node2serverid.get? u ≠ node2serverid.get? v →
    multiplicity adjacencyList u v ≤ 1

section Records

variable {node2serverid : Dict NodeName Nat}

theorem recordVxlanId_danglingToken (u v : NodeName) (serverId vxlanId : Nat) :
    recordVxlanId (u, danglingToken v serverId vxlanId) = some (toString vxlanId).toList := by
  have digits : '_' ∉ (toString vxlanId).toList := by simp
  have token : (danglingToken v serverId vxlanId).toList =
      (v.toList ++ "_external_".toList ++ (toString serverId).toList) ++
        '_' :: (toString vxlanId).toList := by
    simp [danglingToken]
  rw [recordVxlanId, token, List.splitOn_append_cons_self, List.getLast?_append,
    List.splitOn_eq_singleton digits]
  rfl

-- Whether exactly one end of the link is on the server.
def cutAt (node2serverid : Dict NodeName Nat) (serverId : Nat) (link : NodeName × NodeName) :
    Bool :=
  decide (node2serverid.get? link.1 = some serverId) !=
    decide (node2serverid.get? link.2 = some serverId)

theorem danglingOn_ids (ids : NodeName × NodeName → Nat) (serverId : Nat)
    {link : NodeName × NodeName} {uServerId vServerId : Nat}
    (uServer : node2serverid.get? link.1 = some uServerId)
    (vServer : node2serverid.get? link.2 = some vServerId) :
    (danglingOn node2serverid ids serverId link).map recordVxlanId =
      if cutAt node2serverid serverId link then [some (toString (ids link)).toList] else [] := by
  simp only [danglingOn, danglingAt, cutAt, uServer, vServer, Option.some.injEq]
  by_cases atU : uServerId = serverId
  next =>
    by_cases atV : vServerId = serverId
    next => simp [atU, atV]
    next => simp [atU, atV, recordVxlanId_danglingToken]
  next =>
    by_cases atV : vServerId = serverId
    next => simp [atU, atV, recordVxlanId_danglingToken]
    next => simp [atU, atV]

theorem dangling_ids (ids : NodeName × NodeName → Nat) (serverId : Nat)
    {links : List (NodeName × NodeName)}
    (assigned : ∀ link ∈ links, ∃ uServerId vServerId,
      node2serverid.get? link.1 = some uServerId ∧ node2serverid.get? link.2 = some vServerId) :
    (subTopologyOf node2serverid ids links serverId).dangling.map recordVxlanId =
      (links.filter (cutAt node2serverid serverId)).map
        fun link => some (toString (ids link)).toList := by
  simp only [subTopologyOf]
  induction links with
  | nil => rfl
  | cons link rest ih =>
    obtain ⟨_, _, uServer, vServer⟩ := assigned link (by simp)
    have later := ih fun link member => assigned link (List.mem_cons_of_mem _ member)
    rw [List.flatMap_cons, List.map_append, later, danglingOn_ids ids serverId uServer vServer]
    by_cases cut : cutAt node2serverid serverId link = true <;> simp [cut]

theorem cut_of_cutAt {serverId : Nat} {link : NodeName × NodeName}
    (cut : cutAt node2serverid serverId link = true) : Cut node2serverid link := by
  intro same
  simp [cutAt, same] at cut

theorem cutAt_of_cut {serverId : Nat} {u v : NodeName}
    (uServer : node2serverid.get? u = some serverId)
    (cut : node2serverid.get? u ≠ node2serverid.get? v) :
    cutAt node2serverid serverId (u, v) = true ∧ cutAt node2serverid serverId (v, u) = true := by
  rw [uServer] at cut
  simp [cutAt, uServer, Ne.symm cut]

end Records

section Split

variable {nodes : List NodeName} {adjacencyList : AdjacencyList}
  {node2serverid : Dict NodeName Nat} {serverNum : Nat}

theorem collectSubtopos_ids (topology : IsTopology nodes adjacencyList)
    (assigns : Assigns node2serverid nodes)
    (inRange : ∀ node serverId, node2serverid.get? node = some serverId → serverId < serverNum) :
    ∃ subgraphs ids,
      collectSubtopos nodes adjacencyList node2serverid serverNum = some subgraphs ∧
      VxlanIds node2serverid ids (forwardLinks nodes adjacencyList) ∧
      (∀ serverId, serverId ∈ subgraphs.keys ↔ serverId < serverNum) ∧
      ∀ serverId sub, subgraphs.get? serverId = some sub → sub.dangling.map recordVxlanId =
        ((forwardLinks nodes adjacencyList).filter (cutAt node2serverid serverId)).map
          fun link => some (toString (ids link)).toList := by
  have ⟨subgraphs, ids, run, values, numbered⟩ :=
    collectSubtopos_spec node2serverid topology assigns inRange
  refine ⟨subgraphs, ids, run, numbered, ?_, ?_⟩
  · intro serverId
    rw [← Dict.get?_isSome, values]
    by_cases inside : serverId < serverNum <;> simp [inside]
  · intro serverId sub found
    rw [values] at found
    split at found
    next =>
      cases found
      apply dangling_ids
      intro link member
      have closed := forwardLinks_closed topology member
      have ⟨uServerId, uServer⟩ := assigns.found closed.1
      have ⟨vServerId, vServer⟩ := assigns.found closed.2.1
      exact ⟨uServerId, vServerId, uServer, vServer⟩
    next => cases found

theorem count_forward_le (topology : IsTopology nodes adjacencyList) {u v : NodeName}
    (left : u ∈ nodes) (different : u ≠ v) :
    (forwardLinks nodes adjacencyList).count (u, v) ≤ multiplicity adjacencyList u v := by
  have total := count_forwardLinks topology left different
  omega

theorem distinctVxlanIds_of_singlyCut (topology : IsTopology nodes adjacencyList)
    (assigns : Assigns node2serverid nodes)
    (inRange : ∀ node serverId, node2serverid.get? node = some serverId → serverId < serverNum)
    (single : SinglyCut nodes adjacencyList node2serverid) :
    ∃ subgraphs,
      collectSubtopos nodes adjacencyList node2serverid serverNum = some subgraphs ∧
      DistinctVxlanIds subgraphs := by
  have ⟨subgraphs, ids, run, numbered, _, listed⟩ := collectSubtopos_ids topology assigns inRange
  refine ⟨subgraphs, run, ?_⟩
  intro serverId sub found
  rw [listed serverId sub found]
  have once : ((forwardLinks nodes adjacencyList).filter (cutAt node2serverid serverId)).Nodup := by
    rw [List.nodup_iff_count_le_one]
    intro link
    by_cases member :
        link ∈ (forwardLinks nodes adjacencyList).filter (cutAt node2serverid serverId)
    next =>
      have ⟨visited, cut⟩ := List.mem_filter.mp member
      have ⟨left, right, less⟩ := forwardLinks_closed topology visited
      rw [List.count_filter cut]
      exact le_trans (count_forward_le topology left (ne_of_lt less))
        (single link.1 left link.2 right (cut_of_cutAt cut))
    next => simp [List.count_eq_zero.mpr member]
  refine List.Nodup.map_on ?_ once
  intro link member link' member' same
  have ⟨visited, cut⟩ := List.mem_filter.mp member
  have ⟨visited', cut'⟩ := List.mem_filter.mp member'
  have sameId : ids link = ids link' :=
    Nat.repr_inj.mp (String.toList_inj.mp (Option.some.inj same))
  exact numbered.injective link visited link' visited' (cut_of_cutAt cut) (cut_of_cutAt cut') sameId

theorem not_distinctVxlanIds_of_doubled (topology : IsTopology nodes adjacencyList)
    (assigns : Assigns node2serverid nodes)
    (inRange : ∀ node serverId, node2serverid.get? node = some serverId → serverId < serverNum)
    {u v : NodeName} (left : u ∈ nodes)
    (cut : node2serverid.get? u ≠ node2serverid.get? v)
    (doubled : 1 < multiplicity adjacencyList u v) {subgraphs : Dict Nat SubTopology}
    (run : collectSubtopos nodes adjacencyList node2serverid serverNum = some subgraphs) :
    ¬ DistinctVxlanIds subgraphs := by
  intro distinct
  have ⟨made, ids, madeRun, _, keys, listed⟩ := collectSubtopos_ids topology assigns inRange
  cases Option.some.inj (madeRun.symm.trans run)
  have ⟨serverId, uServer⟩ := assigns.found left
  have ⟨sub, found⟩ := subgraphs.exists_get? ((keys serverId).mpr (inRange u serverId uServer))
  have once := distinct serverId sub found
  rw [listed serverId sub found] at once
  have single := List.nodup_iff_count_le_one.mp (List.Nodup.of_map _ once)
  have ⟨forward, backward⟩ := cutAt_of_cut uServer cut
  have different : u ≠ v := fun same => cut (same ▸ rfl)
  have total := count_forwardLinks topology left different
  have first := single (u, v)
  have second := single (v, u)
  rw [List.count_filter forward] at first
  rw [List.count_filter backward] at second
  -- A link is visited from its smaller end only, so one of the two counts is the multiplicity.
  rcases lt_or_gt_of_ne different with less | greater
  next =>
    have absent : (v, u) ∉ forwardLinks nodes adjacencyList := fun member =>
      lt_asymm less (mem_forwardLinks.mp member).2.2
    rw [List.count_eq_zero.mpr absent] at total
    omega
  next =>
    have absent : (u, v) ∉ forwardLinks nodes adjacencyList := fun member =>
      lt_asymm greater (mem_forwardLinks.mp member).2.2
    rw [List.count_eq_zero.mpr absent] at total
    omega

end Split

/-- No id occurs twice in a sub-topology exactly when no doubled link is cut. -/
theorem writeSubtoposToFile_distinctVxlanIds_iff {nodes : List NodeName}
    {adjacencyList : AdjacencyList} {node2serverid : Dict NodeName Nat} {serverNum : Nat}
    (topology : IsTopology nodes adjacencyList) (assigns : Assigns node2serverid nodes)
    (inRange : ∀ node serverId, node2serverid.get? node = some serverId → serverId < serverNum) :
    (∃ subgraphs,
      collectSubtopos nodes adjacencyList node2serverid serverNum = some subgraphs ∧
      DistinctVxlanIds subgraphs) ↔ SinglyCut nodes adjacencyList node2serverid := by
  constructor
  · intro given u left v _ cut
    have ⟨subgraphs, run, distinct⟩ := given
    by_contra doubled
    exact not_distinctVxlanIds_of_doubled topology assigns inRange left cut (not_le.mp doubled) run
      distinct
  · exact distinctVxlanIds_of_singlyCut topology assigns inRange

theorem writeSubtoposToFile_distinctVxlanIds_iff_sample :
    (∃ subgraphs, collectSubtopos sampleNodes sampleAdjacency sampleServers 2 = some subgraphs ∧
      DistinctVxlanIds subgraphs) ↔ SinglyCut sampleNodes sampleAdjacency sampleServers :=
  writeSubtoposToFile_distinctVxlanIds_iff sample_isTopology sample_assigns sample_inRange

-- The doubled link between the first two nodes is cut.
def apartServers : Dict NodeName Nat := ⟨[("1", 0), ("2", 1), ("3", 1)], by decide⟩

theorem sample_sharedVxlanId :
    ¬ ∃ subgraphs, collectSubtopos sampleNodes sampleAdjacency apartServers 2 = some subgraphs ∧
      DistinctVxlanIds subgraphs := by
  intro given
  have ⟨subgraphs, run, distinct⟩ := given
  have built : collectSubtopos sampleNodes sampleAdjacency apartServers 2 = some
      ⟨[(0, ⟨["1"], [], [("1", danglingToken "2" 1 4097), ("1", danglingToken "2" 1 4097)]⟩),
        (1, ⟨["2", "3"], [("2", "3")],
          [("2", danglingToken "1" 0 4097), ("2", danglingToken "1" 0 4097)]⟩)],
        by decide⟩ := by decide +kernel
  cases Option.some.inj (built.symm.trans run)
  have once := distinct 0 _ rfl
  simp at once

end SplitNN.Coordinator
