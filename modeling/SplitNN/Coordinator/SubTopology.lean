import Mathlib
import SplitNN.Coordinator.Topology
import SplitNN.Shared.Text

set_option autoImplicit false

namespace SplitNN.Coordinator

structure SubTopology where
  nodes : List NodeName
  edges : List (NodeName × NodeName)
  dangling : List (NodeName × String)
  deriving DecidableEq

-- The peer column of a dangling record, `f"{v}_external_{v_server_id}_{cur_vxlan_id}"`.
def danglingToken (v : NodeName) (serverId vxlanId : Nat) : String :=
  v ++ "_external_" ++ toString serverId ++ "_" ++ toString vxlanId

structure SplitState where
  subgraphs : Dict Nat SubTopology
  edge2id : Dict (NodeName × NodeName) Nat
  toAllocVxlanId : Nat

def groupNodes (node2serverid : Dict NodeName Nat) (subgraphs : Dict Nat SubTopology) :
    Option (Dict Nat SubTopology) :=
  node2serverid.entries.foldlM (fun subgraphs entry =>
    subgraphs.modify? entry.2 fun sub => { sub with nodes := sub.nodes ++ [entry.1] }) subgraphs

-- The id of a cut link: the memo table's, or a new one that it then remembers.
def allocVxlanId (state : SplitState) (edge : NodeName × NodeName) : Nat × SplitState :=
  match state.edge2id.get? edge with
  | some curVxlanId => (curVxlanId, state)
  | none =>
    (state.toAllocVxlanId,
      { state with
        edge2id := state.edge2id.set edge state.toAllocVxlanId
        toAllocVxlanId := state.toAllocVxlanId + 1 })

def addDangling (entry : NodeName × String) (sub : SubTopology) : SubTopology :=
  { sub with dangling := sub.dangling ++ [entry] }

def groupLink (node2serverid : Dict NodeName Nat) (state : SplitState) (u v : NodeName) :
    Option SplitState := do
  let uServerId ← node2serverid.get? u
  let vServerId ← node2serverid.get? v
  if uServerId = vServerId then
    let subgraphs ← state.subgraphs.modify? uServerId fun sub =>
      { sub with edges := sub.edges ++ [(u, v)] }
    return { state with subgraphs := subgraphs }
  else
    let (curVxlanId, state) := allocVxlanId state (u, v)
    let subgraphs ← state.subgraphs.modify? uServerId
      (addDangling (u, danglingToken v vServerId curVxlanId))
    let subgraphs ← subgraphs.modify? vServerId
      (addDangling (v, danglingToken u uServerId curVxlanId))
    return { state with subgraphs := subgraphs }

-- The grouping half of `write_subtopos_to_file`; `none` is a `KeyError`.
def collectSubtopos (nodes : List NodeName) (adjacencyList : AdjacencyList)
    (node2serverid : Dict NodeName Nat) (serverNum : Nat) : Option (Dict Nat SubTopology) := do
  let subgraphs ← groupNodes node2serverid
    (Dict.ofKeys (List.range serverNum) fun _ => ⟨[], [], []⟩)
  let state ← forEachNeighbor adjacencyList
    (fun state u v => if u ≥ v then some state else groupLink node2serverid state u v)
    nodes ⟨subgraphs, Dict.empty, 4097⟩
  return state.subgraphs

theorem danglingToken_inj {v v' : NodeName} {serverId serverId' vxlanId vxlanId' : Nat}
    (same : danglingToken v serverId vxlanId = danglingToken v' serverId' vxlanId') :
    v = v' ∧ serverId = serverId' ∧ vxlanId = vxlanId' := by
  have digits (n : Nat) : '_' ∉ (toString n).toList := by
    simp
  have decimal {m n : Nat} (equal : (toString m).toList = (toString n).toList) : m = n :=
    Nat.repr_inj.mp (String.toList_inj.mp equal)
  have listed : (v.toList ++ "_external_".toList ++ (toString serverId).toList) ++
        '_' :: (toString vxlanId).toList =
      (v'.toList ++ "_external_".toList ++ (toString serverId').toList) ++
        '_' :: (toString vxlanId').toList := by
    simpa [danglingToken] using congrArg String.toList same
  obtain ⟨rest, ids⟩ := Text.append_separated_inj (digits vxlanId) (digits vxlanId') listed
  have marked : (v.toList ++ "_external".toList) ++ '_' :: (toString serverId).toList =
      (v'.toList ++ "_external".toList) ++ '_' :: (toString serverId').toList := by
    simpa using rest
  obtain ⟨names, servers⟩ := Text.append_separated_inj (digits serverId) (digits serverId') marked
  exact ⟨String.toList_inj.mp (List.append_cancel_right names), decimal servers, decimal ids⟩

section Grouping

variable (node2serverid : Dict NodeName Nat)

def internalOn (serverId : Nat) (link : NodeName × NodeName) : Bool :=
  decide (node2serverid.get? link.1 = some serverId) &&
    decide (node2serverid.get? link.2 = some serverId)

def danglingAt (serverId vxlanId : Nat) (u v : NodeName) : List (NodeName × String) :=
  match node2serverid.get? u, node2serverid.get? v with
  | some uServerId, some vServerId =>
    if uServerId = serverId ∧ vServerId ≠ serverId then
      [(u, danglingToken v vServerId vxlanId)] else []
  | _, _ => []

def danglingOn (ids : NodeName × NodeName → Nat) (serverId : Nat) (link : NodeName × NodeName) :
    List (NodeName × String) :=
  danglingAt node2serverid serverId (ids link) link.1 link.2 ++
    danglingAt node2serverid serverId (ids link) link.2 link.1

def extend (ids : NodeName × NodeName → Nat) (links : List (NodeName × NodeName))
    (serverId : Nat) (sub : SubTopology) : SubTopology :=
  { sub with
    edges := sub.edges ++ links.filter (internalOn node2serverid serverId)
    dangling := sub.dangling ++ links.flatMap (danglingOn node2serverid ids serverId) }

@[simp] theorem extend_nil (ids : NodeName × NodeName → Nat) (serverId : Nat)
    (sub : SubTopology) : extend node2serverid ids [] serverId sub = sub := by
  simp [extend]

theorem extend_append (ids : NodeName × NodeName → Nat)
    (links links' : List (NodeName × NodeName)) (serverId : Nat) (sub : SubTopology) :
    extend node2serverid ids (links ++ links') serverId sub =
      extend node2serverid ids links' serverId (extend node2serverid ids links serverId sub) := by
  simp [extend]

def Cut (link : NodeName × NodeName) : Prop :=
  node2serverid.get? link.1 ≠ node2serverid.get? link.2

structure Grouped (links : List (NodeName × NodeName)) (state state' : SplitState) : Prop where
  keys : state'.subgraphs.keys = state.subgraphs.keys
  subgraphs : ∀ ids, (∀ link id, state'.edge2id.get? link = some id → ids link = id) →
    ∀ serverId, state'.subgraphs.get? serverId =
      (state.subgraphs.get? serverId).map (extend node2serverid ids links serverId)
  kept : ∀ link id, state.edge2id.get? link = some id → state'.edge2id.get? link = some id
  memo : ∀ link, link ∈ state'.edge2id.keys ↔
    link ∈ state.edge2id.keys ∨ link ∈ links ∧ Cut node2serverid link
  numbered : ∀ base, state.edge2id.Numbered base state.toAllocVxlanId →
    state'.edge2id.Numbered base state'.toAllocVxlanId

theorem Grouped.refl (state : SplitState) : Grouped node2serverid [] state state where
  keys := rfl
  subgraphs := by
    intro ids _ serverId
    cases state.subgraphs.get? serverId <;> simp
  kept := fun _ _ found => found
  memo := by simp
  numbered := fun _ numbered => numbered

variable {node2serverid}

theorem Grouped.trans {links links' : List (NodeName × NodeName)} {first middle last : SplitState}
    (before : Grouped node2serverid links first middle)
    (after : Grouped node2serverid links' middle last) :
    Grouped node2serverid (links ++ links') first last where
  keys := after.keys.trans before.keys
  subgraphs := by
    intro ids agree serverId
    have early := before.subgraphs ids
      (fun link id found => agree link id (after.kept link id found)) serverId
    rw [after.subgraphs ids agree serverId, early, Option.map_map]
    congr 1
    funext sub
    exact (extend_append node2serverid ids links links' serverId sub).symm
  kept := fun link id found => after.kept link id (before.kept link id found)
  memo := by
    intro link
    rw [after.memo, before.memo, List.mem_append]
    tauto
  numbered := fun base numbered => after.numbered base (before.numbered base numbered)

theorem allocVxlanId_subgraphs (state : SplitState) (edge : NodeName × NodeName) :
    (allocVxlanId state edge).2.subgraphs = state.subgraphs := by
  cases found : state.edge2id.get? edge <;> simp [allocVxlanId, found]

theorem allocVxlanId_found (state : SplitState) (edge : NodeName × NodeName) :
    (allocVxlanId state edge).2.edge2id.get? edge = some (allocVxlanId state edge).1 := by
  cases found : state.edge2id.get? edge <;> simp [allocVxlanId, found]

theorem allocVxlanId_kept (state : SplitState) (edge link : NodeName × NodeName) (id : Nat)
    (stored : state.edge2id.get? link = some id) :
    (allocVxlanId state edge).2.edge2id.get? link = some id := by
  cases found : state.edge2id.get? edge with
  | some old => simpa [allocVxlanId, found] using stored
  | none =>
    have different : link ≠ edge := by
      intro same
      subst same
      simp [found] at stored
    simpa [allocVxlanId, found, Dict.get?_set_other _ _ different] using stored

theorem allocVxlanId_memo (state : SplitState) (edge link : NodeName × NodeName) :
    link ∈ (allocVxlanId state edge).2.edge2id.keys ↔ link ∈ state.edge2id.keys ∨ link = edge := by
  cases found : state.edge2id.get? edge with
  | some old =>
    have present := Dict.mem_keys_of_get? found
    simp only [allocVxlanId, found]
    constructor
    · exact Or.inl
    · intro given
      rcases given with member | rfl <;> assumption
  | none =>
    have absent := (state.edge2id.get?_eq_none edge).mp found
    simp [allocVxlanId, found, Dict.keys_set, absent]

theorem allocVxlanId_numbered (state : SplitState) (edge : NodeName × NodeName) (base : Nat)
    (numbered : state.edge2id.Numbered base state.toAllocVxlanId) :
    (allocVxlanId state edge).2.edge2id.Numbered base
      (allocVxlanId state edge).2.toAllocVxlanId := by
  cases found : state.edge2id.get? edge with
  | some old => simpa [allocVxlanId, found] using numbered
  | none => simpa [allocVxlanId, found] using numbered.set found

theorem groupLink_internal {state : SplitState} {u v : NodeName} {serverId : Nat}
    (uServer : node2serverid.get? u = some serverId)
    (vServer : node2serverid.get? v = some serverId)
    (known : serverId ∈ state.subgraphs.keys) :
    ∃ state', groupLink node2serverid state u v = some state' ∧
      Grouped node2serverid [(u, v)] state state' := by
  obtain ⟨subgraphs, modified, keys, values⟩ := Dict.modify?_found known
    fun sub => { sub with edges := sub.edges ++ [(u, v)] }
  refine ⟨{ state with subgraphs := subgraphs }, ?_, keys, ?_, fun _ _ found => found, ?_,
    fun _ numbered => numbered⟩
  · simp [groupLink, uServer, vServer, modified]
  · intro ids _ other
    rw [values]
    congr 1
    funext sub
    by_cases same : other = serverId
    · simp [extend, internalOn, danglingOn, danglingAt, uServer, vServer, same]
    · simp [extend, internalOn, danglingOn, danglingAt, uServer, vServer, same, Ne.symm same]
  · simp [Cut, uServer, vServer]

theorem groupLink_cut {state : SplitState} {u v : NodeName} {uServerId vServerId : Nat}
    (uServer : node2serverid.get? u = some uServerId)
    (vServer : node2serverid.get? v = some vServerId) (different : uServerId ≠ vServerId)
    (uKnown : uServerId ∈ state.subgraphs.keys) (vKnown : vServerId ∈ state.subgraphs.keys) :
    ∃ state', groupLink node2serverid state u v = some state' ∧
      Grouped node2serverid [(u, v)] state state' := by
  let id := (allocVxlanId state (u, v)).1
  obtain ⟨first, firstModified, firstKeys, firstValues⟩ := Dict.modify?_found uKnown
    (addDangling (u, danglingToken v vServerId id))
  obtain ⟨second, secondModified, secondKeys, secondValues⟩ := Dict.modify?_found
    (firstKeys ▸ vKnown) (addDangling (v, danglingToken u uServerId id))
  refine ⟨{ (allocVxlanId state (u, v)).2 with subgraphs := second }, ?_,
    secondKeys.trans firstKeys, ?_, allocVxlanId_kept state (u, v), ?_,
    allocVxlanId_numbered state (u, v)⟩
  · simp [groupLink, uServer, vServer, different, allocVxlanId_subgraphs, firstModified,
      secondModified, id]
  · intro ids agree other
    have named : ids (u, v) = id := agree (u, v) id (allocVxlanId_found state (u, v))
    rw [secondValues, firstValues, Option.map_map]
    congr 1
    funext sub
    by_cases atU : other = uServerId
    · subst atU
      simp [extend, internalOn, danglingOn, danglingAt, addDangling, uServer, vServer, named,
        different, Ne.symm different]
    · by_cases atV : other = vServerId
      · subst atV
        simp [extend, internalOn, danglingOn, danglingAt, addDangling, uServer, vServer, named,
          different, Ne.symm different]
      · simp [extend, internalOn, danglingOn, danglingAt, uServer, vServer, atU, atV,
          Ne.symm atU, Ne.symm atV]
  · intro link
    rw [allocVxlanId_memo]
    have cut : Cut node2serverid (u, v) := by simpa [Cut, uServer, vServer] using different
    constructor
    · intro given
      rcases given with old | rfl
      · exact Or.inl old
      · exact Or.inr ⟨by simp, cut⟩
    · intro given
      rcases given with old | ⟨new, -⟩
      · exact Or.inl old
      · exact Or.inr (by simpa using new)

theorem groupLinks_grouped (links : List (NodeName × NodeName)) (state : SplitState)
    (known : ∀ link ∈ links, ∀ node, node = link.1 ∨ node = link.2 →
      ∃ serverId, node2serverid.get? node = some serverId ∧ serverId ∈ state.subgraphs.keys) :
    ∃ state', links.foldlM (fun state link => groupLink node2serverid state link.1 link.2) state =
        some state' ∧ Grouped node2serverid links state state' := by
  induction links generalizing state with
  | nil => exact ⟨state, rfl, Grouped.refl node2serverid state⟩
  | cons link rest ih =>
    obtain ⟨uServerId, uServer, uKnown⟩ := known link (by simp) link.1 (Or.inl rfl)
    obtain ⟨vServerId, vServer, vKnown⟩ := known link (by simp) link.2 (Or.inr rfl)
    have step : ∃ state', groupLink node2serverid state link.1 link.2 = some state' ∧
        Grouped node2serverid [link] state state' := by
      by_cases same : uServerId = vServerId
      · exact groupLink_internal uServer (same ▸ vServer) uKnown
      · exact groupLink_cut uServer vServer same uKnown vKnown
    obtain ⟨middle, stepped, grown⟩ := step
    obtain ⟨last, run, later⟩ := ih middle (by
      rw [grown.keys]
      exact fun link member => known link (List.mem_cons_of_mem _ member))
    refine ⟨last, ?_, grown.trans later⟩
    rw [List.foldlM_cons, stepped]
    exact run

theorem groupNodes_spec (node2serverid : Dict NodeName Nat) (subgraphs : Dict Nat SubTopology)
    (known : ∀ entry ∈ node2serverid.entries, entry.2 ∈ subgraphs.keys) :
    ∃ subgraphs', groupNodes node2serverid subgraphs = some subgraphs' ∧
      subgraphs'.keys = subgraphs.keys ∧ ∀ serverId, subgraphs'.get? serverId =
        (subgraphs.get? serverId).map fun sub =>
          { sub with nodes := sub.nodes ++ node2serverid.keysWith serverId } := by
  obtain ⟨subgraphs', run, keys, values⟩ := Dict.foldlM_modify?
    (fun node (sub : SubTopology) => { sub with nodes := sub.nodes ++ [node] })
    node2serverid.entries subgraphs known
  have appended (entries : List (NodeName × Nat)) (sub : SubTopology) :
      entries.foldl (fun sub entry => { sub with nodes := sub.nodes ++ [entry.1] }) sub =
        { sub with nodes := sub.nodes ++ entries.map Prod.fst } := by
    induction entries generalizing sub with
    | nil => simp
    | cons entry rest ih =>
      rw [List.foldl_cons, ih]
      simp
  refine ⟨subgraphs', run, keys, fun serverId => ?_⟩
  rw [values]
  congr 1
  funext sub
  exact appended _ sub

variable (node2serverid)

def subTopologyOf (ids : NodeName × NodeName → Nat) (links : List (NodeName × NodeName))
    (serverId : Nat) : SubTopology where
  nodes := node2serverid.keysWith serverId
  edges := links.filter (internalOn node2serverid serverId)
  dangling := links.flatMap (danglingOn node2serverid ids serverId)

/-- The memo table numbers the cut links from 4097 on. -/
structure VxlanIds (ids : NodeName × NodeName → Nat) (links : List (NodeName × NodeName)) :
    Prop where
  injective : ∀ link ∈ links, ∀ link' ∈ links, Cut node2serverid link → Cut node2serverid link' →
    ids link = ids link' → link = link'
  consecutive : ∃ next, ∀ id, (∃ link ∈ links, Cut node2serverid link ∧ ids link = id) ↔
    4097 ≤ id ∧ id < next

theorem collectSubtopos_spec {nodes : List NodeName} {adjacencyList : AdjacencyList}
    {serverNum : Nat} (topology : IsTopology nodes adjacencyList)
    (assigns : Assigns node2serverid nodes)
    (inRange : ∀ node serverId, node2serverid.get? node = some serverId → serverId < serverNum) :
    ∃ subgraphs ids, collectSubtopos nodes adjacencyList node2serverid serverNum = some subgraphs ∧
      (∀ serverId, subgraphs.get? serverId = if serverId < serverNum then
        some (subTopologyOf node2serverid ids (forwardLinks nodes adjacencyList) serverId)
      else none) ∧
      VxlanIds node2serverid ids (forwardLinks nodes adjacencyList) := by
  let initial : Dict Nat SubTopology := Dict.ofKeys (List.range serverNum) fun _ => ⟨[], [], []⟩
  have initialKeys : initial.keys = List.range serverNum := Dict.keys_ofKeys List.nodup_range _
  obtain ⟨placed, placedRun, placedKeys, placedValues⟩ :=
    groupNodes_spec node2serverid initial (by
      intro entry member
      rcases entry with ⟨node, serverId⟩
      have found := (node2serverid.get?_eq_some node serverId).mpr member
      simpa [initialKeys] using inRange node serverId found)
  obtain ⟨last, run, grouped⟩ := groupLinks_grouped
    (forwardLinks nodes adjacencyList) ⟨placed, Dict.empty, 4097⟩ (by
      intro link member node ends
      have closed := forwardLinks_closed topology member
      have inside : node ∈ nodes := by
        rcases ends with rfl | rfl
        · exact closed.1
        · exact closed.2.1
      obtain ⟨serverId, found⟩ := assigns.found inside
      exact ⟨serverId, found, by
        simpa [placedKeys, initialKeys] using inRange node serverId found⟩)
  let ids := fun link => last.edge2id.getD link 0
  have agree : ∀ link id, last.edge2id.get? link = some id → ids link = id := by
    intro link id found
    simp [ids, Dict.getD, found]
  have memo : ∀ link, link ∈ last.edge2id.keys ↔
      link ∈ forwardLinks nodes adjacencyList ∧ Cut node2serverid link := by
    simpa using grouped.memo
  have stored : ∀ link ∈ forwardLinks nodes adjacencyList, Cut node2serverid link →
      last.edge2id.get? link = some (ids link) := by
    intro link member cut
    obtain ⟨id, found⟩ := last.edge2id.exists_get? ((memo link).mpr ⟨member, cut⟩)
    rw [agree link id found, found]
  have numbered := grouped.numbered 4097 (Dict.numbered_empty 4097)
  refine ⟨last.subgraphs, ids, ?_, ?_, ?_, last.toAllocVxlanId, ?_⟩
  · simp only [collectSubtopos]
    rw [placedRun]
    simp only [Option.bind_eq_bind, Option.bind_some,
      forEachNeighbor_forward topology.listed (groupLink node2serverid), run]
    rfl
  · intro serverId
    rw [grouped.subgraphs ids agree, placedValues, Dict.get?_ofKeys]
    by_cases inside : serverId < serverNum <;>
      simp [inside, extend, subTopologyOf]
  · intro link member link' member' cut cut' same
    exact numbered.injective link link' (ids link) (stored link member cut)
      (same ▸ stored link' member' cut')
  · intro id
    rw [← numbered.issued]
    constructor
    · intro given
      rcases given with ⟨link, member, cut, rfl⟩
      exact ⟨link, stored link member cut⟩
    · intro given
      rcases given with ⟨link, found⟩
      obtain ⟨member, cut⟩ := (memo link).mp (Dict.mem_keys_of_get? found)
      exact ⟨link, member, cut, agree link id found⟩

end Grouping

end SplitNN.Coordinator
