import Mathlib
import SplitNN.Coordinator.FmtConvert

set_option autoImplicit false

namespace SplitNN.Coordinator

def defaultCrossMachineBw : ℚ := 10000

def vlinkBw : Nat := 10

-- The table of bandwidths, indexed by the smaller and the greater machine.
abbrev BandwidthTable := Dict (Nat × Nat) ℚ

def crossMachineBw : BandwidthTable :=
  ⟨[((0, 1), 10000), ((0, 2), 10000), ((0, 3), 10000), ((0, 4), 10000), ((0, 5), 10000),
    ((1, 2), 10000), ((1, 3), 10000), ((1, 4), 10000), ((1, 5), 10000), ((2, 3), 10000),
    ((2, 4), 10000), ((2, 5), 10000), ((3, 4), 10000), ((3, 5), 10000), ((4, 5), 10000)],
    by decide⟩

-- `assert not pm_id_0 == pm_id_1`
def getCrossMachineBw (bwTable : BandwidthTable) (pmId0 pmId1 : Nat) : Option ℚ :=
  if pmId0 = pmId1 then none
  else
    let key := if pmId0 > pmId1 then (pmId1, pmId0) else (pmId0, pmId1)
    some (bwTable.getD key defaultCrossMachineBw)

section Load

variable (node2serverId : Dict NodeName Nat) (serverid2pmid : Dict Nat Nat)

def pmIdOf (node : NodeName) : Option Nat := do
  let serverId ← node2serverId.get? node
  serverid2pmid.get? serverId

def addCrossMachineLoad (crossMachineLoad : Dict (Nat × Nat) Nat) (pmIds : Nat × Nat) :
    Dict (Nat × Nat) Nat :=
  let (pmId, neighborPmId) := pmIds
  if pmId < neighborPmId then
    let key := (min pmId neighborPmId, max pmId neighborPmId)
    let known :=
      if key ∈ crossMachineLoad.keys then crossMachineLoad else crossMachineLoad.set key 0
    known.adjust key (· + vlinkBw)
  else crossMachineLoad

def loadNeighbor (pmId : Nat) (crossMachineLoad : Dict (Nat × Nat) Nat) (neighbor : NodeName) :
    Option (Dict (Nat × Nat) Nat) := do
  let neighborPmId ← pmIdOf node2serverId serverid2pmid neighbor
  return addCrossMachineLoad crossMachineLoad (pmId, neighborPmId)

def loadNode (adjacencyList : AdjacencyList) (crossMachineLoad : Dict (Nat × Nat) Nat)
    (node : NodeName) : Option (Dict (Nat × Nat) Nat) := do
  let pmId ← pmIdOf node2serverId serverid2pmid node
  let listed ← adjacencyList.get? node
  listed.foldlM (loadNeighbor node2serverId serverid2pmid pmId) crossMachineLoad

end Load

-- `float('inf')` where the bandwidth is not positive.
def relativeLoad (load : Nat) (bw : ℚ) : WithTop ℚ :=
  if 0 < bw then ((load / bw : ℚ) : WithTop ℚ) else ⊤

def computeTdf (bwTable : BandwidthTable) (nodes : List NodeName)
    (adjacencyList : AdjacencyList) (node2serverId : Dict NodeName Nat)
    (serverid2pmid : Dict Nat Nat) : Option (WithTop ℚ) := do
  let crossMachineLoad ←
    nodes.foldlM (loadNode node2serverId serverid2pmid adjacencyList) Dict.empty
  let crossMachineRelativeLoad ← crossMachineLoad.entries.foldlM (fun relative entry => do
    let bw ← getCrossMachineBw bwTable entry.1.1 entry.1.2
    return relative.set entry.1 (relativeLoad entry.2 bw))
    (Dict.empty : Dict (Nat × Nat) (WithTop ℚ))
  return crossMachineRelativeLoad.values.max?.getD 0

section Counting

theorem addCrossMachineLoad_forward {pmIds : Nat × Nat} (forward : pmIds.1 < pmIds.2)
    (crossMachineLoad : Dict (Nat × Nat) Nat) : ∃ known : Dict (Nat × Nat) Nat,
    addCrossMachineLoad crossMachineLoad pmIds = known.adjust pmIds (· + vlinkBw) ∧
      (∀ key, known.getD key 0 = crossMachineLoad.getD key 0) ∧
      ∀ key, key ∈ known.keys ↔ key ∈ crossMachineLoad.keys ∨ key = pmIds := by
  have ordered : (min pmIds.1 pmIds.2, max pmIds.1 pmIds.2) = pmIds := by
    rw [min_eq_left forward.le, max_eq_right forward.le]
  refine ⟨if pmIds ∈ crossMachineLoad.keys then crossMachineLoad else crossMachineLoad.set pmIds 0,
    ?_, fun key => Dict.getD_ensure crossMachineLoad pmIds key 0, fun _ => Dict.mem_keys_ensure⟩
  simp only [addCrossMachineLoad, forward, if_true, ordered]

theorem addCrossMachineLoad_spec (crossMachineLoad : Dict (Nat × Nat) Nat)
    (pmIds key : Nat × Nat) :
    (addCrossMachineLoad crossMachineLoad pmIds).getD key 0 = crossMachineLoad.getD key 0 +
        (if pmIds.1 < pmIds.2 ∧ pmIds = key then vlinkBw else 0) ∧
      (key ∈ (addCrossMachineLoad crossMachineLoad pmIds).keys ↔
        key ∈ crossMachineLoad.keys ∨ (pmIds.1 < pmIds.2 ∧ pmIds = key)) := by
  by_cases forward : pmIds.1 < pmIds.2
  next =>
    have ⟨known, run, values, keys⟩ := addCrossMachineLoad_forward forward crossMachineLoad
    have listed : pmIds ∈ known.keys := (keys pmIds).mpr (.inr rfl)
    rw [run, Dict.getD_adjust _ listed, Dict.keys_adjust, keys, values, values]
    constructor
    · by_cases same : pmIds = key
      · subst same
        simp [forward]
      · simp [same, Ne.symm same]
    · simp [forward, eq_comm]
  next => simp [addCrossMachineLoad, forward]

theorem addCrossMachineLoads_spec (visits : List (Nat × Nat)) (key : Nat × Nat) :
    (visits.foldl addCrossMachineLoad Dict.empty).getD key 0 =
        (if key.1 < key.2 then vlinkBw * visits.count key else 0) ∧
      (key ∈ (visits.foldl addCrossMachineLoad Dict.empty).keys ↔
        key.1 < key.2 ∧ key ∈ visits) := by
  induction visits using List.reverseRecOn with
  | nil => simp [Dict.getD]
  | append_singleton visits pmIds ih =>
    obtain ⟨value, member⟩ := ih
    obtain ⟨added, grown⟩ := addCrossMachineLoad_spec (visits.foldl addCrossMachineLoad Dict.empty)
      pmIds key
    rw [List.foldl_append, List.foldl_cons, List.foldl_nil, added, grown, value, member]
    constructor
    · rw [List.count_append, List.count_singleton]
      by_cases same : pmIds = key
      · subst same
        by_cases forward : pmIds.1 < pmIds.2 <;> simp [forward, Nat.mul_add]
      · simp [same]
    · rw [List.mem_append, List.mem_singleton]
      grind

end Counting

section Visits

variable {nodes : List NodeName} {adjacencyList : AdjacencyList}
  {node2serverId : Dict NodeName Nat} {serverid2pmid : Dict Nat Nat}

/-- Every node has a server and every server a machine. -/
structure Placed (nodes : List NodeName) (node2serverId : Dict NodeName Nat)
    (serverid2pmid : Dict Nat Nat) : Prop where
  servers : ∀ node ∈ nodes, node ∈ node2serverId.keys
  machines : ∀ node serverId, node2serverId.get? node = some serverId →
    serverId ∈ serverid2pmid.keys

def machineOf (node2serverId : Dict NodeName Nat) (serverid2pmid : Dict Nat Nat)
    (node : NodeName) : Nat :=
  serverid2pmid.getD (node2serverId.getD node 0) 0

theorem Placed.pmIdOf (placed : Placed nodes node2serverId serverid2pmid) {node : NodeName}
    (member : node ∈ nodes) : pmIdOf node2serverId serverid2pmid node =
      some (machineOf node2serverId serverid2pmid node) := by
  have ⟨serverId, server⟩ := node2serverId.exists_get? (placed.servers node member)
  have ⟨pmId, machine⟩ := serverid2pmid.exists_get? (placed.machines node serverId server)
  simp [Coordinator.pmIdOf, machineOf, Dict.getD, server, machine]

-- The machines at the two ends of each entry of the adjacency list.
def machineVisits (nodes : List NodeName) (adjacencyList : AdjacencyList)
    (machine : NodeName → Nat) : List (Nat × Nat) :=
  (listedLinks nodes adjacencyList).map fun link => (machine link.1, machine link.2)

theorem loadNodes_ok (topology : IsTopology nodes adjacencyList)
    (placed : Placed nodes node2serverId serverid2pmid) :
    nodes.foldlM (loadNode node2serverId serverid2pmid adjacencyList) Dict.empty =
      some ((machineVisits nodes adjacencyList
        (machineOf node2serverId serverid2pmid)).foldl addCrossMachineLoad Dict.empty) := by
  have inner (pmId : Nat) (listed : List NodeName) (closed : ∀ v ∈ listed, v ∈ nodes)
      (load : Dict (Nat × Nat) Nat) :
      listed.foldlM (loadNeighbor node2serverId serverid2pmid pmId) load =
        some ((listed.map fun v => (pmId, machineOf node2serverId serverid2pmid v)).foldl
          addCrossMachineLoad load) := by
    induction listed generalizing load with
    | nil => rfl
    | cons v rest ih =>
      have later := ih fun w member => closed w (List.mem_cons_of_mem v member)
      simp [List.foldlM_cons, loadNeighbor, placed.pmIdOf (closed v (by simp)), later]
  have outer (visited : List NodeName) (within : ∀ u ∈ visited, u ∈ nodes)
      (load : Dict (Nat × Nat) Nat) :
      visited.foldlM (loadNode node2serverId serverid2pmid adjacencyList) load =
        some ((machineVisits visited adjacencyList
          (machineOf node2serverId serverid2pmid)).foldl addCrossMachineLoad load) := by
    induction visited generalizing load with
    | nil => rfl
    | cons u rest ih =>
      have member := within u (by simp)
      have later := ih fun v inRest => within v (List.mem_cons_of_mem u inRest)
      have listed := neighbours_found (topology.listed u member)
      have neighbors := inner (machineOf node2serverId serverid2pmid u) _
        (topology.undirected.closed u member) load
      simp only [List.foldlM_cons, loadNode, placed.pmIdOf member, listed, Option.bind_eq_bind,
        Option.bind_some, neighbors, later]
      simp [machineVisits, listedLinks, Function.comp_def]
  exact outer nodes (fun u member => member) Dict.empty

def crossLinks (nodes : List NodeName) (adjacencyList : AdjacencyList) (machine : NodeName → Nat)
    (a b : Nat) : Nat :=
  ∑ u ∈ nodes.toFinset, ∑ v ∈ nodes.toFinset,
    if machine u = a ∧ machine v = b then multiplicity adjacencyList u v else 0

theorem count_machineVisits (topology : IsTopology nodes adjacencyList) (machine : NodeName → Nat)
    (a b : Nat) : (machineVisits nodes adjacencyList machine).count (a, b) =
      crossLinks nodes adjacencyList machine a b := by
  rw [machineVisits, listedLinks, List.count, List.countP_map, List.countP_flatMap, crossLinks,
    List.sum_toFinset _ topology.undirected.distinct]
  congr 1
  refine List.map_congr_left fun u member => ?_
  simp only [Function.comp_apply, List.countP_map]
  rw [Multigraph.countP_eq_sum _ _ (topology.undirected.closed u member)]
  simp [multiplicity]

theorem crossLinks_comm (topology : IsTopology nodes adjacencyList) (machine : NodeName → Nat)
    (a b : Nat) : crossLinks nodes adjacencyList machine a b =
      crossLinks nodes adjacencyList machine b a := by
  rw [crossLinks, Finset.sum_comm, crossLinks]
  refine Finset.sum_congr rfl fun v right => Finset.sum_congr rfl fun u left => ?_
  have same := topology.undirected.symmetric u (List.mem_toFinset.mp left) v
    (List.mem_toFinset.mp right)
  simp only [multiplicity, same, and_comm]

end Visits

section Maximum

def bandwidth (bwTable : BandwidthTable) (a b : Nat) : ℚ :=
  bwTable.getD (min a b, max a b) defaultCrossMachineBw

/-- The greatest relative load of two machines, and 0 where no link crosses. -/
structure MostLoaded (links : Nat → Nat → Nat) (bw : Nat → Nat → ℚ) (tdf : ℚ) : Prop where
  bound : ∀ a b, a ≠ b → vlinkBw * links a b / bw a b ≤ tdf
  reached : (∃ a b, a ≠ b ∧ 0 < links a b ∧ tdf = vlinkBw * links a b / bw a b) ∨
    (∀ a b, a ≠ b → links a b = 0) ∧ tdf = 0

theorem MostLoaded.unique {links : Nat → Nat → Nat} {bw : Nat → Nat → ℚ} {tdf tdf' : ℚ}
    (first : MostLoaded links bw tdf) (second : MostLoaded links bw tdf') : tdf = tdf' := by
  have le {tdf tdf' : ℚ} (first : MostLoaded links bw tdf) (second : MostLoaded links bw tdf')
      (crossing : ∃ a b, a ≠ b ∧ 0 < links a b) : tdf ≤ tdf' := by
    have ⟨a, b, different, some_link⟩ := crossing
    rcases first.reached with ⟨a, b, different, _, same⟩ | ⟨none, _⟩
    · exact same ▸ second.bound a b different
    · exact absurd (none a b different) some_link.ne'
  by_cases crossing : ∃ a b, a ≠ b ∧ 0 < links a b
  next => exact le_antisymm (le first second crossing) (le second first crossing)
  next =>
    have zero {tdf : ℚ} (most : MostLoaded links bw tdf) : tdf = 0 := by
      rcases most.reached with ⟨a, b, different, some_link, _⟩ | ⟨_, zero⟩
      · exact absurd ⟨a, b, different, some_link⟩ crossing
      · exact zero
    rw [zero first, zero second]

variable {bwTable : BandwidthTable}

theorem bandwidth_positive
    (positive : ∀ pmIds bw, bwTable.get? pmIds = some bw → 0 < bw) (a b : Nat) :
    0 < bandwidth bwTable a b := by
  rw [bandwidth, Dict.getD]
  cases found : bwTable.get? (min a b, max a b) with
  | none =>
    rw [Option.getD_none, defaultCrossMachineBw]
    norm_num
  | some bw => exact positive _ bw found

theorem bandwidth_comm (a b : Nat) :
    bandwidth bwTable a b = bandwidth bwTable b a := by
  rw [bandwidth, bandwidth, min_comm, max_comm]

theorem getCrossMachineBw_bandwidth {a b : Nat} (different : a ≠ b) :
    getCrossMachineBw bwTable a b = some (bandwidth bwTable a b) := by
  rw [getCrossMachineBw, if_neg different, bandwidth]
  rcases lt_or_gt_of_ne different with less | greater
  · rw [if_neg (not_lt.mpr less.le), min_eq_left less.le, max_eq_right less.le]
  · rw [if_pos greater, min_eq_right (le_of_lt greater), max_eq_left (le_of_lt greater)]

theorem relativeLoads_ok {entries : List ((Nat × Nat) × Nat)}
    (ordered : ∀ entry ∈ entries, entry.1.1 < entry.1.2)
    (relative : Dict (Nat × Nat) (WithTop ℚ)) :
    entries.foldlM (fun relative entry => do
      let bw ← getCrossMachineBw bwTable entry.1.1 entry.1.2
      return relative.set entry.1 (relativeLoad entry.2 bw)) relative =
    some ((entries.map fun entry =>
      (entry.1, relativeLoad entry.2 (bandwidth bwTable entry.1.1 entry.1.2))).foldl
        (fun relative entry => relative.set entry.1 entry.2) relative) := by
  induction entries generalizing relative with
  | nil => rfl
  | cons entry rest ih =>
    have later := ih fun other member => ordered other (List.mem_cons_of_mem entry member)
    rw [List.foldlM_cons, getCrossMachineBw_bandwidth (ordered entry (by simp)).ne]
    exact later _

variable {nodes : List NodeName} {adjacencyList : AdjacencyList}
  {node2serverId : Dict NodeName Nat} {serverid2pmid : Dict Nat Nat}

theorem computeTdf_values (topology : IsTopology nodes adjacencyList)
    (placed : Placed nodes node2serverId serverid2pmid)
    (positive : ∀ pmIds bw, bwTable.get? pmIds = some bw → 0 < bw) :
    ∃ pairs : List (Nat × Nat),
      (∀ a b, (a, b) ∈ pairs ↔ a < b ∧
        0 < crossLinks nodes adjacencyList (machineOf node2serverId serverid2pmid) a b) ∧
      computeTdf bwTable nodes adjacencyList node2serverId serverid2pmid =
        some (((pairs.map fun pair => ((vlinkBw *
          crossLinks nodes adjacencyList (machineOf node2serverId serverid2pmid) pair.1 pair.2 /
            bandwidth bwTable pair.1 pair.2 : ℚ) : WithTop ℚ)).max?).getD 0) := by
  let machine := machineOf node2serverId serverid2pmid
  let load := (machineVisits nodes adjacencyList machine).foldl addCrossMachineLoad Dict.empty
  have keys (a b : Nat) : (a, b) ∈ load.keys ↔
      a < b ∧ 0 < crossLinks nodes adjacencyList machine a b := by
    rw [(addCrossMachineLoads_spec _ _).2, ← count_machineVisits topology, List.count_pos_iff]
  have ordered : ∀ entry ∈ load.entries, entry.1.1 < entry.1.2 := fun entry listed =>
    ((keys _ _).mp (List.mem_map_of_mem listed)).1
  refine ⟨load.keys, keys, ?_⟩
  have relative := @relativeLoads_ok bwTable load.entries ordered Dict.empty
  have distinct : ((load.entries.map fun entry => (entry.1,
      relativeLoad entry.2 (bandwidth bwTable entry.1.1 entry.1.2))).map Prod.fst).Nodup := by
    rw [List.map_map]
    exact load.keys_nodup
  have values := congrArg (List.map Prod.snd) (Dict.entries_ofEntries distinct)
  have ratios (key : Nat × Nat) (member : key ∈ load.keys) :
      relativeLoad (load.getD key 0) (bandwidth bwTable key.1 key.2) =
        ((vlinkBw * crossLinks nodes adjacencyList machine key.1 key.2 /
          bandwidth bwTable key.1 key.2 : ℚ) : WithTop ℚ) := by
    have less := ((keys key.1 key.2).mp member).1
    rw [relativeLoad, if_pos (bandwidth_positive positive _ _), (addCrossMachineLoads_spec _ _).1,
      if_pos less, count_machineVisits topology, Nat.cast_mul]
  have listed : load.entries.map (fun entry =>
        relativeLoad entry.2 (bandwidth bwTable entry.1.1 entry.1.2)) =
      load.keys.map fun key => ((vlinkBw * crossLinks nodes adjacencyList machine key.1 key.2 /
        bandwidth bwTable key.1 key.2 : ℚ) : WithTop ℚ) := by
    rw [Dict.entries_eq_keys_map load 0, List.map_map]
    exact List.map_congr_left ratios
  rw [List.map_map] at values
  rw [computeTdf, loadNodes_ok topology placed, Option.bind_eq_bind, Option.bind_some, relative,
    Option.bind_eq_bind, Option.bind_some]
  exact congrArg (fun loads => some ((List.max? loads).getD 0)) (values.trans listed)

theorem computeTdf_run (topology : IsTopology nodes adjacencyList)
    (placed : Placed nodes node2serverId serverid2pmid)
    (positive : ∀ pmIds bw, bwTable.get? pmIds = some bw → 0 < bw) :
    ∃ tdf : ℚ, computeTdf bwTable nodes adjacencyList node2serverId serverid2pmid =
        some (tdf : WithTop ℚ) ∧
      MostLoaded (crossLinks nodes adjacencyList (machineOf node2serverId serverid2pmid))
        (bandwidth bwTable) tdf := by
  have ⟨pairs, crossing, run⟩ := computeTdf_values topology placed positive
  let links := crossLinks nodes adjacencyList (machineOf node2serverId serverid2pmid)
  let ratio (a b : Nat) : ℚ := vlinkBw * links a b / bandwidth bwTable a b
  have symmetric (a b : Nat) : links a b = links b a := crossLinks_comm topology _ a b
  have turned (a b : Nat) : ratio a b = ratio b a := by
    simp only [ratio, symmetric a b, bandwidth_comm a b]
  have nonneg (a b : Nat) : 0 ≤ ratio a b :=
    div_nonneg (by positivity) (bandwidth_positive positive a b).le
  have zero {a b : Nat} (none : links a b = 0) : ratio a b = 0 := by
    simp only [ratio, none, Nat.cast_zero, mul_zero, zero_div]
  cases maximum : (pairs.map fun pair => ((ratio pair.1 pair.2 : ℚ) : WithTop ℚ)).max? with
  | none =>
    have noPairs : pairs = [] := by simpa using List.max?_eq_none_iff.mp maximum
    have none (a b : Nat) (different : a ≠ b) : links a b = 0 := by
      by_contra some_link
      have positive := Nat.pos_of_ne_zero some_link
      rcases lt_or_gt_of_ne different with less | greater
      · have listed := (crossing a b).mpr ⟨less, positive⟩
        simp [noPairs] at listed
      · rw [symmetric a b] at positive
        have listed := (crossing b a).mpr ⟨greater, positive⟩
        simp [noPairs] at listed
    refine ⟨0, ?_, fun a b different => (zero (none a b different)).le, .inr ⟨none, rfl⟩⟩
    exact run.trans (congrArg (fun answer => some (answer.getD 0)) maximum)
  | some greatest =>
    have ⟨listed, bound⟩ := List.max?_eq_some_iff.mp maximum
    have ⟨⟨a, b⟩, member, same⟩ := List.mem_map.mp listed
    have ⟨less, some_link⟩ := (crossing a b).mp member
    have below (c d : Nat) (paired : (c, d) ∈ pairs) : ratio c d ≤ ratio a b := by
      have le := bound _ (List.mem_map_of_mem paired)
      rw [← same] at le
      exact WithTop.coe_le_coe.mp le
    refine ⟨ratio a b, ?_, fun c d different => ?_, .inl ⟨a, b, less.ne, some_link, rfl⟩⟩
    · rw [run]
      exact congrArg some ((congrArg (fun answer => answer.getD 0) maximum).trans same.symm)
    · change ratio c d ≤ ratio a b
      by_cases none : links c d = 0
      next => exact (zero none).trans_le (nonneg a b)
      next =>
        have positive := Nat.pos_of_ne_zero none
        rcases lt_or_gt_of_ne different with less | greater
        · exact below c d ((crossing c d).mpr ⟨less, positive⟩)
        · rw [symmetric c d] at positive
          rw [turned c d]
          exact below d c ((crossing d c).mpr ⟨greater, positive⟩)

/-- The same nodes and the same neighbours, each in any order. -/
structure Reordered (nodes nodes' : List NodeName) (adjacencyList adjacencyList' : AdjacencyList) :
    Prop where
  sameNodes : nodes.Perm nodes'
  listed : ∀ node ∈ nodes, node ∈ adjacencyList'.keys
  neighbors : ∀ node ∈ nodes,
    (neighbours adjacencyList node).Perm (neighbours adjacencyList' node)

theorem Reordered.topology {nodes' : List NodeName} {adjacencyList' : AdjacencyList}
    (reordered : Reordered nodes nodes' adjacencyList adjacencyList')
    (topology : IsTopology nodes adjacencyList) : IsTopology nodes' adjacencyList' := by
  have back {node : NodeName} (member : node ∈ nodes') : node ∈ nodes :=
    reordered.sameNodes.mem_iff.mpr member
  constructor
  case listed => exact fun node member => reordered.listed node (back member)
  case undirected =>
    constructor
    case distinct => exact reordered.sameNodes.nodup_iff.mp topology.undirected.distinct
    case closed =>
      intro u left v neighbor
      rw [← (reordered.neighbors u (back left)).mem_iff] at neighbor
      exact reordered.sameNodes.mem_iff.mp (topology.undirected.closed u (back left) v neighbor)
    case symmetric =>
      intro u left v right
      rw [← (reordered.neighbors u (back left)).count_eq,
        ← (reordered.neighbors v (back right)).count_eq]
      exact topology.undirected.symmetric u (back left) v (back right)

theorem Reordered.crossLinks {nodes' : List NodeName} {adjacencyList' : AdjacencyList}
    (reordered : Reordered nodes nodes' adjacencyList adjacencyList') (machine : NodeName → Nat) :
    crossLinks nodes' adjacencyList' machine = crossLinks nodes adjacencyList machine := by
  funext a b
  rw [Coordinator.crossLinks, Coordinator.crossLinks,
    ← List.toFinset_eq_of_perm _ _ reordered.sameNodes]
  refine Finset.sum_congr rfl fun u member => Finset.sum_congr rfl fun v _ => ?_
  rw [multiplicity, multiplicity,
    (reordered.neighbors u (List.mem_toFinset.mp member)).count_eq]

/-- The factor is the load of the most loaded pair of machines, in whatever order. -/
theorem computeTdf_mostLoaded (topology : IsTopology nodes adjacencyList)
    (placed : Placed nodes node2serverId serverid2pmid)
    (positive : ∀ pmIds bw, bwTable.get? pmIds = some bw → 0 < bw) :
    ∃ tdf : ℚ, computeTdf bwTable nodes adjacencyList node2serverId serverid2pmid =
        some (tdf : WithTop ℚ) ∧
      MostLoaded (crossLinks nodes adjacencyList (machineOf node2serverId serverid2pmid))
        (bandwidth bwTable) tdf ∧
      ∀ nodes' adjacencyList', Reordered nodes nodes' adjacencyList adjacencyList' →
        computeTdf bwTable nodes' adjacencyList' node2serverId serverid2pmid =
          some (tdf : WithTop ℚ) := by
  have ⟨tdf, run, most⟩ := computeTdf_run topology placed positive
  refine ⟨tdf, run, most, fun nodes' adjacencyList' reordered => ?_⟩
  have placed' : Placed nodes' node2serverId serverid2pmid :=
    ⟨fun node member => placed.servers node (reordered.sameNodes.mem_iff.mpr member),
      placed.machines⟩
  have ⟨tdf', run', most'⟩ := computeTdf_run (reordered.topology topology) placed' positive
  rw [reordered.crossLinks] at most'
  rw [run', most'.unique most]

theorem crossMachineBw_positive (pmIds : Nat × Nat) (bw : ℚ)
    (found : crossMachineBw.get? pmIds = some bw) : 0 < bw := by
  have each : ∀ entry ∈ crossMachineBw.entries, 0 < entry.2 := by decide
  exact each _ ((crossMachineBw.get?_eq_some pmIds bw).mp found)

def sampleMachines : Dict Nat Nat := ⟨[(0, 1), (1, 0)], by decide⟩

theorem sample_placed : Placed sampleNodes sampleServers sampleMachines := by
  refine ⟨by decide, fun node serverId found => ?_⟩
  have each : ∀ entry ∈ sampleServers.entries, entry.2 ∈ sampleMachines.keys := by decide
  exact each _ ((sampleServers.get?_eq_some node serverId).mp found)

theorem computeTdf_mostLoaded_sample :
    ∃ tdf : ℚ, computeTdf crossMachineBw sampleNodes sampleAdjacency sampleServers sampleMachines =
        some (tdf : WithTop ℚ) ∧
      MostLoaded (crossLinks sampleNodes sampleAdjacency (machineOf sampleServers sampleMachines))
        (bandwidth crossMachineBw) tdf ∧
      ∀ nodes' adjacencyList', Reordered sampleNodes nodes' sampleAdjacency adjacencyList' →
        computeTdf crossMachineBw nodes' adjacencyList' sampleServers sampleMachines =
          some (tdf : WithTop ℚ) :=
  computeTdf_mostLoaded sample_isTopology sample_placed crossMachineBw_positive

end Maximum

end SplitNN.Coordinator
