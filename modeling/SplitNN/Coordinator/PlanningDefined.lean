import Mathlib
import SplitNN.Coordinator.PlanningErrors

set_option autoImplicit false

namespace SplitNN.Coordinator

open Monadic (mapM_some_each foldlM_some_each foldlM_some_keeps foldlM_ne_error bind_ne_error
  bind_eq_ok bind_eq_error foldlM_raises toOption_eq_some)

/-- No division by zero and no maximum of nothing. -/
def Defined {α : Type} (result : Except PlanningError α) : Prop :=
  result ≠ .error .zeroDivision ∧ result ≠ .error .emptyMax

section EdgeCounts

variable {partGraph : PartGraph} {nodes : List NodeName} {adjacencyList : AdjacencyList}

theorem getPartitionStats_nonEmpty {node2serverid : Dict NodeName Nat}
    {partitionStats : Dict Nat PartitionStats} (nonEmpty : nodes ≠ [])
    (run : getPartitionStats nodes adjacencyList node2serverid = some partitionStats) :
    partitionStats.keys ≠ [] := by
  have ⟨counted, nodesRun, linksRun⟩ := Option.bind_eq_some_iff.mp run
  have nodeStep (before after : Dict Nat PartitionStats) (node : NodeName)
      (step : countNode node2serverid before node = some after) : after.keys ≠ [] := by
    have ⟨serverId, _, stored⟩ := Option.bind_eq_some_iff.mp step
    split at stored
    next => exact List.ne_nil_of_mem (Dict.mem_keys_modify? stored)
    next =>
      cases stored
      exact List.ne_nil_of_mem (Dict.mem_keys_set.mpr (.inr rfl))
  have linkStep (before after : Dict Nat PartitionStats) (u v : NodeName)
      (step : countLink node2serverid before u v = some after) : after.keys ≠ [] := by
    have ⟨uServerId, _, uStored⟩ := Option.bind_eq_some_iff.mp step
    have ⟨vServerId, _, vStored⟩ := Option.bind_eq_some_iff.mp uStored
    split at vStored
    next => exact List.ne_nil_of_mem (Dict.mem_keys_modify? vStored)
    next =>
      have ⟨_, _, second⟩ := Option.bind_eq_some_iff.mp vStored
      have ⟨_, _, third⟩ := Option.bind_eq_some_iff.mp second
      have ⟨_, _, last⟩ := Option.bind_eq_some_iff.mp third
      exact List.ne_nil_of_mem (Dict.mem_keys_modify? last)
  have afterNodes : counted.keys ≠ [] := by
    cases nodes with
    | nil => exact absurd rfl nonEmpty
    | cons node rest =>
      rw [List.foldlM_cons, Option.bind_eq_bind, Option.bind_eq_some_iff] at nodesRun
      have ⟨first, firstRun, restRun⟩ := nodesRun
      exact foldlM_some_keeps (P := fun stats => stats.keys ≠ [])
        (fun before node after _ step => nodeStep before after node step)
        (nodeStep _ first node firstRun) restRun
  refine foldlM_some_keeps (P := fun stats => stats.keys ≠ []) ?_ afterNodes linksRun
  intro before u after filled step
  have ⟨listed, _, inner⟩ := Option.bind_eq_some_iff.mp step
  refine foldlM_some_keeps (P := fun stats => stats.keys ≠ []) ?_ filled inner
  intro before v after filled step
  dsimp only at step
  split at step
  next => exact Option.some.inj step ▸ filled
  next => exact linkStep before after u v step

theorem getEMaxDataForPmTopo_defined (partGraph : PartGraph) (adjacencyList : AdjacencyList)
    (nonEmpty : nodes ≠ []) (pmCoreNum : Nat) :
    Defined (Raising.getEMaxDataForPmTopo partGraph nodes adjacencyList pmCoreNum) := by
  have keyError {α : Type} {raised : PlanningError} (other : raised ≠ .keyError)
      (value : Option α) : orRaise .keyError value ≠ .error raised := by
    simp [orRaise_eq_error, other.symm]
  have raises {raised : PlanningError} (other : raised ≠ .keyError) :
      Raising.getEMaxDataForPmTopo partGraph nodes adjacencyList pmCoreNum ≠ .error raised := by
    apply foldlM_ne_error
    intro eMaxData n _
    apply bind_ne_error (keyError other _)
    intro node2serverid
    cases counted : getPartitionStats nodes adjacencyList node2serverid with
    | none => simpa [orRaise, bind, Except.bind] using other.symm
    | some partitionStats =>
      have filled := getPartitionStats_nonEmpty nonEmpty counted
      obtain ⟨max, found⟩ : ∃ max, maxEdgeCount partitionStats = some max := by
        rw [← Option.isSome_iff_exists, maxEdgeCount, List.isSome_max?_iff]
        simpa [Dict.keys, Dict.values] using filled
      simp [orRaise, found, bind, Except.bind, pure, Except.pure]
  exact ⟨raises (by simp), raises (by simp)⟩

theorem getEMaxDataForPmTopo_noNode {pmCoreNum : Nat} (cores : 1 ≤ pmCoreNum) :
    Raising.getEMaxDataForPmTopo partGraph [] adjacencyList pmCoreNum = .error .emptyMax := by
  obtain ⟨rest, same⟩ := Nat.exists_eq_add_of_le' cores
  subst same
  rw [Raising.getEMaxDataForPmTopo, List.range'_succ, List.foldlM_cons]
  rfl

theorem isGraph_of_partitioned (metis : partGraph.Valid) {numPartitions : Nat}
    (several : 2 ≤ numPartitions) {node2serverid : Dict NodeName Nat}
    (run : partitionGraphAcrossVm partGraph nodes adjacencyList numPartitions 0 =
      some node2serverid) : IsGraph nodes adjacencyList := by
  rw [partitionGraphAcrossVm, if_neg (by omega)] at run
  obtain ⟨parted, metisRun, _⟩ := Option.bind_eq_some_iff.mp run
  rw [partitionMetis, if_neg (by omega)] at metisRun
  obtain ⟨⟨_, nodeToIndex, indexToNode⟩, created, partsRun⟩ :=
    Option.bind_eq_some_iff.mp metisRun
  obtain ⟨metisAdjacency, converted, same⟩ := Option.bind_eq_some_iff.mp created
  simp only [Option.pure_def, Option.some.injEq, Prod.mk.injEq] at same
  obtain ⟨sameAdjacency, sameNodes, sameIndices⟩ := same
  subst sameAdjacency
  rw [sameNodes] at converted sameIndices
  have indexed {node : NodeName} {idx : Nat} (found : nodeToIndex.get? node = some idx) :
      nodes[idx]? = some node := by
    rw [← sameNodes] at found
    have member := List.mem_zipIdx_iff_getElem?.mp (Dict.mem_of_get?_ofEntries found)
    exact member
  have row (node : NodeName) (member : node ∈ nodes) : ∃ listed,
      adjacencyList.get? node = some listed ∧ ∀ v ∈ listed, v ∈ nodes := by
    obtain ⟨indices, _, visited⟩ := mapM_some_each converted member
    obtain ⟨listed, found, mapped⟩ := Option.bind_eq_some_iff.mp visited
    refine ⟨listed, found, fun v inListed => ?_⟩
    obtain ⟨idx, _, isIdx⟩ := mapM_some_each mapped inListed
    exact List.mem_of_getElem? (indexed isIdx)
  -- Each index is asked for once, so each belongs to a name of its own.
  have own (idx : Nat) (bound : idx < nodes.length) :
      ∃ node, nodeToIndex.get? node = some idx := by
    have long : idx < (partGraph metisAdjacency numPartitions).length := by
      have rows : nodes.length = metisAdjacency.length := by
        simpa using congrArg List.length (Monadic.mapM_eq_some.mp converted)
      rw [metis.length _ _ (by omega), ← rows]
      exact bound
    have listed : ((partGraph metisAdjacency numPartitions)[idx], idx) ∈
        (partGraph metisAdjacency numPartitions).zipIdx :=
      List.mem_zipIdx_iff_getElem?.mpr (by simp [long])
    obtain ⟨_, _, step⟩ := foldlM_some_each partsRun listed
    obtain ⟨node, found, _⟩ := Option.bind_eq_some_iff.mp step
    rw [← sameIndices] at found
    obtain ⟨entry, member, swapped⟩ := List.mem_map.mp (Dict.mem_of_get?_ofEntries found)
    cases swapped
    exact ⟨entry.1, (nodeToIndex.get?_eq_some entry.1 entry.2).mpr member⟩
  have distinct : nodes.Nodup := by
    rw [List.nodup_iff_injective_getElem]
    intro i j equal
    obtain ⟨u, uFound⟩ := own i i.isLt
    obtain ⟨v, vFound⟩ := own j j.isLt
    have uName := indexed uFound
    have vName := indexed vFound
    rw [List.getElem?_eq_getElem i.isLt, Option.some.injEq] at uName
    rw [List.getElem?_eq_getElem j.isLt, Option.some.injEq] at vName
    have sameName : u = v := by rw [← uName, ← vName]; exact equal
    rw [sameName] at uFound
    exact Fin.ext (Option.some.inj (uFound.symm.trans vFound))
  exact .of_rows distinct row

theorem maxEdgeCount_unsplit (topology : IsTopology nodes adjacencyList)
    {partitionStats : Dict Nat PartitionStats} {max : Nat}
    (run : getPartitionStats nodes adjacencyList (Dict.ofKeys nodes fun _ => 0) =
      some partitionStats) (found : maxEdgeCount partitionStats = some max) :
    max = (forwardLinks nodes adjacencyList).length := by
  let unsplit : Dict NodeName Nat := Dict.ofKeys nodes fun _ => 0
  have assigns : Assigns unsplit nodes := by
    intro node
    rw [Dict.keys_ofKeys topology.isGraph.distinct]
  have zero {node : NodeName} {serverId : Nat} (stored : unsplit.get? node = some serverId) :
      serverId = 0 := by
    rw [Dict.get?_ofKeys] at stored
    split at stored
    next => exact (Option.some.inj stored).symm
    next => cases stored
  have ⟨made, madeRun, values⟩ := getPartitionStats_spec topology assigns
  cases Option.some.inj (madeRun.symm.trans run)
  have ⟨stats, listed, same⟩ := List.mem_map.mp (List.max?_mem found)
  have ⟨serverId, stored⟩ := (partitionStats.mem_values stats).mp listed
  rw [values] at stored
  split at stored
  next owner =>
    have ⟨node, owned⟩ := (unsplit.mem_values serverId).mp owner
    cases zero owned
    have servers (link : NodeName × NodeName) (member : link ∈ forwardLinks nodes adjacencyList) :
        serverOf unsplit link.1 = 0 ∧ serverOf unsplit link.2 = 0 :=
      have ends := forwardLinks_servers topology assigns member
      ⟨zero ends.1, zero ends.2⟩
    have whole : (forwardLinks nodes adjacencyList).countP (inside unsplit 0) =
        (forwardLinks nodes adjacencyList).length := by
      rw [List.countP_eq_length]
      intro link member
      simp [inside, servers link member]
    have none : (forwardLinks nodes adjacencyList).countP (leaves unsplit 0) = 0 := by
      rw [List.countP_eq_zero]
      intro link member
      simp [leaves, servers link member]
    have counted := congrArg PartitionStats.edgeCount (Option.some.inj stored)
    simp only [whole, none] at counted
    omega
  next => cases stored

theorem getEMaxDataForPmTopo_found (metis : partGraph.Valid)
    (topology : IsTopology nodes adjacencyList) (nonEmpty : nodes ≠ []) (pmCoreNum : Nat) :
    ∃ eMaxData,
      Raising.getEMaxDataForPmTopo partGraph nodes adjacencyList pmCoreNum = .ok eMaxData ∧
      (∀ n, 1 ≤ n → n ≤ pmCoreNum → ∃ max, eMaxData.get? n = some max) ∧
      (1 ≤ pmCoreNum →
        eMaxData.get? 1 = some (forwardLinks nodes adjacencyList).length) := by
  have ⟨eMaxData, run, largest⟩ := getEMaxDataForPmTopo_spec metis topology nonEmpty pmCoreNum
  rw [← getEMaxDataForPmTopo_toOption, toOption_eq_some] at run
  refine ⟨eMaxData, run, ?_, ?_⟩
  · intro n positive most
    have ⟨_, partitionStats, _, partitioned, counted, _, found, _⟩ := largest n positive most
    have ⟨_, made, assigns, _⟩ := partitionGraphAcrossVm_spec metis topology.isGraph positive 0
    cases Option.some.inj (made.symm.trans partitioned)
    have ⟨max, stored⟩ := maxEdgeCount_found topology assigns nonEmpty counted
    exact ⟨max, found.trans stored⟩
  · intro cores
    have ⟨_, partitionStats, _, partitioned, counted, _, found, _⟩ := largest 1 (le_refl 1) cores
    rw [partitionGraphAcrossVm, if_pos rfl] at partitioned
    cases partitioned
    have assigns : Assigns (Dict.ofKeys nodes fun _ => 0) nodes := by
      intro node
      rw [Dict.keys_ofKeys topology.isGraph.distinct]
    have ⟨max, stored⟩ := maxEdgeCount_found topology assigns nonEmpty counted
    rw [found, stored, maxEdgeCount_unsplit topology counted stored]

end EdgeCounts

section Search

variable {planning : VmPlanning PyNumber} {pair : Nat × Int}

/-- The search comes to the pair, and no gain up to it raises anything but a division by 0. -/
def Reaches (planning : VmPlanning PyNumber) (pair : Nat × Int) : Prop :=
  ∃ before after, planning.pairs = before ++ pair :: after ∧ planning.InWindow .python pair ∧
    ∀ earlier ∈ before ++ [pair], ∀ raised, planning.Raises .python earlier raised →
      raised = .zeroDivision

theorem Reaches.mem (reaches : Reaches planning pair) : pair ∈ planning.pairs := by
  obtain ⟨before, after, whole, _⟩ := reaches
  simp [whole]

theorem Reaches.only (reaches : Reaches planning pair) {raised : PlanningError}
    (raises : planning.gain .python pair.1 pair.2 = .error raised) : raised = .zeroDivision := by
  obtain ⟨before, after, -, inWindow, quiet⟩ := reaches
  exact quiet pair (by simp) raised ⟨inWindow, raises⟩

theorem mMvs_one (keyed : (8 : Int) ∈ planning.pmConfig.parameters.thetaMTable.keys) :
    ∃ mExtraOpt, mMvs .python 1 8 planning.theta = .ok mExtraOpt := by
  obtain ⟨thetaM, stored⟩ := Dict.exists_get? _ keyed
  obtain ⟨mExtraOpt, product⟩ : ∃ mExtraOpt, PyNumber.mul (.int 1) thetaM = some mExtraOpt := by
    cases thetaM with
    | int i => exact ⟨_, rfl⟩
    | float f =>
      have one : ∃ x, PyNumber.toFloat? (.int 1) = some x :=
        Option.isSome_iff_exists.mp (by decide +kernel)
      obtain ⟨x, converted⟩ := one
      refine ⟨.float (x * f), ?_⟩
      change PyNumber.onFloats (· * ·) (.int 1) (.float f) = some (.float (x * f))
      rw [PyNumber.onFloats, converted]
      rfl
  exact ⟨mExtraOpt, bind_eq_ok.mpr ⟨thetaM, orRaise_eq_ok.mpr stored, orRaise_eq_ok.mpr product⟩⟩

theorem mMvs_one_missing (missing : (8 : Int) ∉ planning.pmConfig.parameters.thetaMTable.keys) :
    mMvs .python 1 8 planning.theta = .error .keyError := by
  have none := (planning.pmConfig.parameters.thetaMTable.get?_eq_none 8).mpr missing
  rw [mMvs, VmPlanning.theta, none]
  rfl

theorem searchAllocation_zeroDivision :
    planning.getOptimalVmAllocationForPm .python = .error .zeroDivision ↔
      (8 : Int) ∈ planning.pmConfig.parameters.thetaMTable.keys ∧
      ∃ pair, Reaches planning pair ∧
        planning.gain .python pair.1 pair.2 = .error .zeroDivision := by
  unfold VmPlanning.getOptimalVmAllocationForPm
  simp only [VmPlanning.searchPairs_eq]
  by_cases keyed : (8 : Int) ∈ planning.pmConfig.parameters.thetaMTable.keys
  next =>
    obtain ⟨mExtraOpt, start⟩ := mMvs_one keyed
    rw [start]
    change (planning.pairs.foldlM (planning.visitPair .python) ⟨[], 1, 8, mExtraOpt, .int (-1)⟩ >>=
      _) = _ ↔ _
    simp only [keyed, true_and]
    constructor
    · intro raised
      have searched := (bind_eq_error.mp raised).resolve_right (by
        rintro ⟨search, _, answered⟩
        cases answered)
      obtain ⟨before, pair, after, whole, quiet, raises⟩ :=
        VmPlanning.foldlM_visitPair_error.mp searched
      refine ⟨pair, ⟨before, after, whole, raises.1, ?_⟩, raises.2⟩
      intro earlier member other raised
      rcases List.mem_append.mp member with early | own
      · exact absurd raised (quiet earlier early other)
      · cases List.mem_singleton.mp own
        exact Except.error.inj (raised.2.symm.trans raises.2)
    · intro ⟨pair, ⟨before, after, whole, inWindow, only⟩, raises⟩
      have searched : (before ++ pair :: after).foldlM (planning.visitPair .python)
          ⟨[], 1, 8, mExtraOpt, .int (-1)⟩ = .error .zeroDivision :=
        foldlM_raises (fun _ _ _ => VmPlanning.visitPair_error)
          (fun earlier member => only earlier (List.mem_append_left _ member))
          ⟨inWindow, raises⟩ _
      rw [whole]
      exact bind_eq_error.mpr (.inl searched)
  next => simp [mMvs_one_missing keyed, keyed, bind, Except.bind]

theorem searchAllocation_ne_emptyMax :
    planning.getOptimalVmAllocationForPm .python ≠ .error .emptyMax := by
  refine bind_ne_error (mMvs_ne_error (by decide) (by decide)) fun mExtraOpt => ?_
  refine bind_ne_error ?_ fun search => by simp [pure, Except.pure]
  rw [VmPlanning.searchPairs_eq]
  intro raised
  obtain ⟨before, pair, after, whole, -, raises⟩ := VmPlanning.foldlM_visitPair_error.mp raised
  have listed : pair ∈ planning.pairs := by simp [whole]
  exact gain_ne_emptyMax (VmPlanning.mem_pairs.mp listed).1.1 raises.2

end Search

section Machine

variable {partGraph : PartGraph} {nodes : List NodeName} {adjacencyList : AdjacencyList}
  {pmConfig : PmConfig PyNumber} {expConfig : ExpConfig PyNumber} {fixed : FixedOptions}
  {planning : VmPlanning PyNumber}

theorem IsGraph.isTopology (graph : IsGraph nodes adjacencyList)
    (symmetric : Symmetric adjacencyList) : IsTopology nodes adjacencyList :=
  ⟨graph.listed, graph.distinct, graph.closed, fun u _ v _ => symmetric u v⟩

def planning? (partGraph : PartGraph) (nodes : List NodeName) (adjacencyList : AdjacencyList)
    (pmConfig : PmConfig PyNumber) (expConfig : ExpConfig PyNumber) (fixed : FixedOptions) :
    Option (VmPlanning PyNumber) := do
  let eMaxData ← getEMaxDataForPmTopo partGraph nodes adjacencyList pmConfig.coreNum
  return ⟨nodes, castData .python eMaxData, pmConfig, expConfig, fixed⟩

theorem isGraph_of_counted (metis : partGraph.Valid) {pmCoreNum : Nat} (several : 2 ≤ pmCoreNum)
    {eMaxData : Dict Nat Nat}
    (run : getEMaxDataForPmTopo partGraph nodes adjacencyList pmCoreNum = some eMaxData) :
    IsGraph nodes adjacencyList := by
  have ⟨_, _, step⟩ := foldlM_some_each run (List.mem_range'_1.mpr ⟨by omega, by omega⟩ :
    2 ∈ List.range' 1 pmCoreNum)
  have ⟨_, partitioned, _⟩ := Option.bind_eq_some_iff.mp step
  exact isGraph_of_partitioned metis (le_refl 2) partitioned

theorem reached_zeroDivision (metis : partGraph.Valid) (symmetric : Symmetric adjacencyList)
    (nonEmpty : nodes ≠ []) (positive : PositiveConfig pmConfig expConfig)
    (started : planning? partGraph nodes adjacencyList pmConfig expConfig fixed = some planning)
    {pair : Nat × Int} (reaches : Reaches planning pair) :
    planning.gain .python pair.1 pair.2 = .error .zeroDivision ↔
      forwardLinks nodes adjacencyList = [] ∧ LinkCostFinite planning ∨
        ShareVanishes planning pair := by
  obtain ⟨eMaxData, counted, same⟩ := Option.bind_eq_some_iff.mp started
  cases same
  obtain ⟨⟨low, below⟩, _⟩ := VmPlanning.mem_pairs.mp reaches.mem
  have cores : pair.1 < pmConfig.coreNum := below
  have graph := isGraph_of_counted metis (by omega) counted
  obtain ⟨made, madeRun, _, first⟩ := getEMaxDataForPmTopo_found metis
    (graph.isTopology symmetric) nonEmpty pmConfig.coreNum
  rw [← toOption_eq_some, getEMaxDataForPmTopo_toOption, counted] at madeRun
  cases madeRun
  rw [← List.length_eq_zero_iff]
  refine gain_zeroDivision positive (orRaise_eq_ok.mpr ?_) low fun raised raises =>
    reaches.only raises
  rw [get?_castData, first (by omega)]
  rfl

theorem getOptimalVmAllocationForPm_defined (metis : partGraph.Valid)
    (symmetric : Symmetric adjacencyList) (positive : PositiveConfig pmConfig expConfig) :
    Defined (getOptimalVmAllocationForPm .python partGraph nodes adjacencyList pmConfig
      expConfig fixed) ↔
    pmConfig.coreNum = 0 ∨ nodes ≠ [] ∧
      ((8 : Int) ∈ pmConfig.parameters.thetaMTable.keys → ∀ planning,
        planning? partGraph nodes adjacencyList pmConfig expConfig fixed = some planning →
        ∀ pair, Reaches planning pair →
          (forwardLinks nodes adjacencyList ≠ [] ∨ ¬ LinkCostFinite planning) ∧
            ¬ ShareVanishes planning pair) := by
  have started {eMaxData : Dict Nat Nat} (run : Raising.getEMaxDataForPmTopo partGraph nodes
      adjacencyList pmConfig.coreNum = .ok eMaxData) :
      planning? partGraph nodes adjacencyList pmConfig expConfig fixed =
        some ⟨nodes, castData .python eMaxData, pmConfig, expConfig, fixed⟩ := by
    rw [← toOption_eq_some, getEMaxDataForPmTopo_toOption] at run
    rw [planning?, run]
    rfl
  unfold getOptimalVmAllocationForPm
  constructor
  · intro defined
    by_cases cores : pmConfig.coreNum = 0
    next => exact .inl cores
    next =>
      have nonEmpty : nodes ≠ [] := by
        intro noNode
        subst noNode
        rw [getEMaxDataForPmTopo_noNode (by omega)] at defined
        exact defined.2 rfl
      refine .inr ⟨nonEmpty, fun keyed planning begun pair reaches => ?_⟩
      obtain ⟨eMaxData, counted, same⟩ := Option.bind_eq_some_iff.mp begun
      rw [← getEMaxDataForPmTopo_toOption, toOption_eq_some] at counted
      cases same
      rw [counted] at defined
      have unraised :=
        (reached_zeroDivision metis symmetric nonEmpty positive begun reaches).not.mp fun raises =>
          defined.1 (searchAllocation_zeroDivision.mpr ⟨keyed, pair, reaches, raises⟩)
      rw [not_or, not_and_or] at unraised
      exact unraised
  · intro condition
    cases run : Raising.getEMaxDataForPmTopo partGraph nodes adjacencyList pmConfig.coreNum with
    | error raised =>
      rcases condition with noCore | ⟨nonEmpty, _⟩
      · rw [noCore] at run
        cases run
      · have counting := getEMaxDataForPmTopo_defined partGraph adjacencyList nonEmpty
          pmConfig.coreNum
        rw [run] at counting
        simpa [Defined, bind, Except.bind] using counting
    | ok eMaxData =>
      refine ⟨fun raised => ?_, searchAllocation_ne_emptyMax⟩
      obtain ⟨keyed, pair, reaches, raises⟩ := searchAllocation_zeroDivision.mp raised
      rcases condition with noCore | ⟨nonEmpty, spared⟩
      · have below : pair.1 < pmConfig.coreNum := (VmPlanning.mem_pairs.mp reaches.mem).1.2
        omega
      · obtain ⟨linked, share⟩ := spared keyed _ (started run) pair reaches
        rcases (reached_zeroDivision metis symmetric nonEmpty positive (started run)
          reaches).mp raises with ⟨unlinked, finite⟩ | vanishes
        · rcases linked with some | infinite
          · exact some unlinked
          · exact infinite finite
        · exact share vanishes

end Machine

section Parts

variable {nodes : List NodeName} {adjacencyList : AdjacencyList} {node2pmid : Dict NodeName Nat}
  {pmNum pmId : Nat} {result : PmPartition}

def Populated (node2pmid : Dict NodeName Nat) (pmId : Nat) : Prop :=
  ∃ node, node2pmid.get? node = some pmId

def LinkedInside (adjacencyList : AdjacencyList) (node2pmid : Dict NodeName Nat) (pmId : Nat) :
    Prop :=
  ∃ u v, node2pmid.get? u = some pmId ∧ node2pmid.get? v = some pmId ∧ u ≠ v ∧
    v ∈ neighbours adjacencyList u

theorem Symmetric.mem_neighbours (symmetric : Symmetric adjacencyList) {u v : NodeName} :
    v ∈ neighbours adjacencyList u ↔ u ∈ neighbours adjacencyList v := by
  rw [← List.count_pos_iff, ← List.count_pos_iff]
  exact iff_of_eq (congrArg (0 < ·) (symmetric u v))

theorem forwardLinks_ne_nil (graph : IsGraph nodes adjacencyList)
    (symmetric : Symmetric adjacencyList) : forwardLinks nodes adjacencyList ≠ [] ↔
      ∃ u v, u ∈ nodes ∧ v ∈ nodes ∧ u ≠ v ∧ v ∈ neighbours adjacencyList u := by
  constructor
  · intro linked
    have ⟨⟨u, v⟩, member⟩ := List.exists_mem_of_ne_nil _ linked
    have ⟨left, listed, less⟩ := mem_forwardLinks.mp member
    exact ⟨u, v, left, graph.closed u left v listed, less.ne, listed⟩
  · intro ⟨u, v, left, right, different, listed⟩
    rcases lt_or_gt_of_ne different with less | greater
    · exact List.ne_nil_of_mem (mem_forwardLinks.mpr ⟨left, listed, less⟩)
    · have back := symmetric.mem_neighbours.mp listed
      exact List.ne_nil_of_mem (mem_forwardLinks.mpr ⟨right, back, greater⟩)

structure PartOf (nodes : List NodeName) (adjacencyList : AdjacencyList)
    (node2pmid : Dict NodeName Nat) (pmNum pmId : Nat) (pmNodes : List NodeName)
    (pmAdjacency : AdjacencyList) : Prop where
  symmetric : Symmetric pmAdjacency
  mem : ∀ node, node ∈ pmNodes ↔ node2pmid.get? node = some pmId
  isGraph : IsGraph pmNodes pmAdjacency ↔ (pmNum = 1 → IsGraph nodes adjacencyList)
  linked : ∀ u ∈ pmNodes, ∀ v ∈ pmNodes,
    (v ∈ neighbours pmAdjacency u ↔ v ∈ neighbours adjacencyList u)

-- The loop over the assignment looks the machine of every neighbour up.
theorem isGraph_of_split (several : pmNum ≠ 1)
    (run : partitionGraphAcrossPm node2pmid nodes adjacencyList pmNum = some result) :
    IsGraph node2pmid.keys adjacencyList := by
  rw [partitionGraphAcrossPm, if_neg several] at run
  obtain ⟨pmid2nodes, _, rest⟩ := Option.bind_eq_some_iff.mp run
  obtain ⟨pmid2adjacencylist, linksRun, _⟩ := Option.bind_eq_some_iff.mp rest
  refine .of_rows node2pmid.keys_nodup fun node member => ?_
  obtain ⟨pmId, found⟩ := node2pmid.exists_get? member
  obtain ⟨_, _, step⟩ := foldlM_some_each linksRun ((node2pmid.get?_eq_some node pmId).mp found)
  obtain ⟨listed, stored, inner⟩ := Option.bind_eq_some_iff.mp step
  refine ⟨listed, stored, fun v inListed => ?_⟩
  obtain ⟨_, _, visited⟩ := foldlM_some_each inner inListed
  obtain ⟨_, neighborPm, _⟩ := Option.bind_eq_some_iff.mp visited
  exact Dict.mem_keys_of_get? neighborPm

theorem partitionGraphAcrossPm_part (symmetric : Symmetric adjacencyList)
    (assigns : Assigns node2pmid nodes)
    (inRange : ∀ node pmId, node2pmid.get? node = some pmId → pmId < pmNum)
    (run : partitionGraphAcrossPm node2pmid nodes adjacencyList pmNum = some result)
    (bound : pmId < pmNum) : ∃ pmNodes pmAdjacency, result.pmid2nodes.get? pmId = some pmNodes ∧
      result.pmid2adjacencylist.get? pmId = some pmAdjacency ∧
      PartOf nodes adjacencyList node2pmid pmNum pmId pmNodes pmAdjacency := by
  by_cases single : pmNum = 1
  next =>
    subst single
    rw [partitionGraphAcrossPm, if_pos rfl] at run
    cases run
    have zero : pmId = 0 := by omega
    subst zero
    refine ⟨nodes, adjacencyList, rfl, rfl, symmetric, fun node => ?_, by simp, fun _ _ _ _ => .rfl⟩
    constructor
    · intro member
      obtain ⟨owner, found⟩ := assigns.found member
      have only := inRange node owner found
      rw [found, show owner = 0 by omega]
    · exact assigns.member
  next =>
    have graph := isGraph_of_split single run
    have own : Assigns node2pmid node2pmid.keys := fun _ => .rfl
    have same : partitionGraphAcrossPm node2pmid node2pmid.keys adjacencyList pmNum =
        some result := by
      rw [← run, partitionGraphAcrossPm, partitionGraphAcrossPm, if_neg single, if_neg single]
    obtain ⟨made, madeRun, _, parts⟩ := partitionGraphAcrossPm_spec graph own inRange single
    cases Option.some.inj (madeRun.symm.trans same)
    obtain ⟨split, splitRun, splits⟩ := partitionGraphAcrossPm_splits graph own inRange
    cases Option.some.inj (splitRun.symm.trans same)
    obtain ⟨foundNodes, pmAdjacency, found, keys, multiplicities⟩ := parts pmId bound
    obtain ⟨_, _, sameNodes, sameLinks, pmGraph, _⟩ := splits.parts pmId bound
    cases Option.some.inj (sameNodes.symm.trans foundNodes)
    cases Option.some.inj (sameLinks.symm.trans found)
    refine ⟨_, pmAdjacency, foundNodes, found, ?_, node2pmid.mem_keysWith pmId, ?_, ?_⟩
    · intro u v
      rw [multiplicities, multiplicities, Nat.add_comm]
      exact if_congr and_comm rfl rfl
    · exact ⟨fun _ only => absurd only single, fun _ => pmGraph⟩
    · intro u left v right
      have inside := And.intro ((node2pmid.mem_keysWith pmId u).mp left)
        ((node2pmid.mem_keysWith pmId v).mp right)
      have count := multiplicities u v
      rw [if_pos inside, symmetric v u] at count
      simp only [multiplicity] at count
      rw [← List.count_pos_iff, ← List.count_pos_iff]
      omega

theorem PartOf.populated {pmNodes : List NodeName} {pmAdjacency : AdjacencyList}
    (part : PartOf nodes adjacencyList node2pmid pmNum pmId pmNodes pmAdjacency) :
    pmNodes ≠ [] ↔ Populated node2pmid pmId := by
  rw [← List.isEmpty_eq_false_iff, List.isEmpty_eq_false_iff_exists_mem]
  exact exists_congr part.mem

theorem PartOf.linkedInside {pmNodes : List NodeName} {pmAdjacency : AdjacencyList}
    (part : PartOf nodes adjacencyList node2pmid pmNum pmId pmNodes pmAdjacency)
    (graph : IsGraph pmNodes pmAdjacency) :
    forwardLinks pmNodes pmAdjacency ≠ [] ↔ LinkedInside adjacencyList node2pmid pmId := by
  rw [forwardLinks_ne_nil graph part.symmetric]
  refine exists_congr fun u => exists_congr fun v => ?_
  rw [← part.mem, ← part.mem]
  constructor
  · intro ⟨left, right, different, listed⟩
    exact ⟨left, right, different, (part.linked u left v right).mp listed⟩
  · intro ⟨left, right, different, listed⟩
    exact ⟨left, right, different, (part.linked u left v right).mpr listed⟩

end Parts

/-- The planning of a machine is defined on the part that the machine was given. -/
def PlanningDefined (partGraph : PartGraph) (result : PmPartition) (pmId : Nat)
    (pmConfig : PmConfig PyNumber) (expConfig : ExpConfig PyNumber) (fixed : FixedOptions) : Prop :=
  ∃ pmNodes pmAdjacency, result.pmid2nodes.get? pmId = some pmNodes ∧
    result.pmid2adjacencylist.get? pmId = some pmAdjacency ∧
    Defined (getOptimalVmAllocationForPm .python partGraph pmNodes pmAdjacency pmConfig expConfig
      fixed)

/-- The pairs that the search of a machine reaches on its part of the topology. -/
def SearchReaches (partGraph : PartGraph) (result : PmPartition) (pmId : Nat)
    (pmConfig : PmConfig PyNumber) (expConfig : ExpConfig PyNumber) (fixed : FixedOptions)
    (planning : VmPlanning PyNumber) (pair : Nat × Int) : Prop :=
  ∃ pmNodes pmAdjacency, result.pmid2nodes.get? pmId = some pmNodes ∧
    result.pmid2adjacencylist.get? pmId = some pmAdjacency ∧
    planning? partGraph pmNodes pmAdjacency pmConfig expConfig fixed = some planning ∧
    Reaches planning pair

/-- A machine with cores can be planned exactly if it has a node and no pair that its search reaches
lacks a link between two nodes of the machine or a share of memory. -/
theorem planningDefined_iff {text : String} {nodes : List NodeName}
    {adjacencyList : AdjacencyList}
    (read : readGraphFromTopoFile text = some (nodes, adjacencyList))
    {node2pmid : Dict NodeName Nat} (assigns : Assigns node2pmid nodes) {pmNum : Nat}
    (inRange : ∀ node pmId, node2pmid.get? node = some pmId → pmId < pmNum)
    {result : PmPartition}
    (run : partitionGraphAcrossPm node2pmid nodes adjacencyList pmNum = some result)
    {pmId : Nat} (bound : pmId < pmNum) {partGraph : PartGraph} (metis : partGraph.Valid)
    {pmConfig : PmConfig PyNumber} {expConfig : ExpConfig PyNumber}
    (positive : PositiveConfig pmConfig expConfig) (fixed : FixedOptions) :
    PlanningDefined partGraph result pmId pmConfig expConfig fixed ↔
      pmConfig.coreNum = 0 ∨ Populated node2pmid pmId ∧
        ((8 : Int) ∈ pmConfig.parameters.thetaMTable.keys → ∀ planning pair,
          SearchReaches partGraph result pmId pmConfig expConfig fixed planning pair →
            (LinkedInside adjacencyList node2pmid pmId ∨ ¬ LinkCostFinite planning) ∧
              ¬ ShareVanishes planning pair) := by
  have ⟨pmNodes, pmAdjacency, foundNodes, foundLinks, part⟩ := partitionGraphAcrossPm_part
    (readGraphFromTopoFile_symmetric read) assigns inRange run bound
  have machine : PlanningDefined partGraph result pmId pmConfig expConfig fixed ↔
      Defined (getOptimalVmAllocationForPm .python partGraph pmNodes pmAdjacency pmConfig
        expConfig fixed) := by
    simp [PlanningDefined, foundNodes, foundLinks]
  have reached (planning : VmPlanning PyNumber) (pair : Nat × Int) :
      SearchReaches partGraph result pmId pmConfig expConfig fixed planning pair ↔
        planning? partGraph pmNodes pmAdjacency pmConfig expConfig fixed = some planning ∧
          Reaches planning pair := by
    simp [SearchReaches, foundNodes, foundLinks]
  rw [machine, getOptimalVmAllocationForPm_defined metis part.symmetric positive, part.populated]
  refine or_congr_right (and_congr_right fun _ => forall_congr' fun _ => ?_)
  refine forall_congr' fun planning => ?_
  rw [← forall_comm]
  refine forall_congr' fun pair => ?_
  rw [reached, and_imp]
  refine forall_congr' fun started => forall_congr' fun reaches => ?_
  obtain ⟨eMaxData, counted, same⟩ := Option.bind_eq_some_iff.mp started
  cases same
  have below : pair.1 < pmConfig.coreNum := (VmPlanning.mem_pairs.mp reaches.mem).1.2
  have low := (VmPlanning.mem_pairs.mp reaches.mem).1.1
  rw [part.linkedInside (isGraph_of_counted metis (by omega) counted)]

-- Two linked nodes on machines of their own, and a third machine without a node.
def pairNodes : List NodeName := ["1", "2"]

def pairAdjacency : AdjacencyList := ⟨[("1", ["2"]), ("2", ["1"])], by decide⟩

def pairServers : Dict NodeName Nat := ⟨[("1", 0), ("2", 1)], by decide⟩

def pairParts : PmPartition where
  node2pmid := pairServers
  pmid2nodes := ⟨[(0, ["1"]), (1, ["2"]), (2, [])], by decide⟩
  pmid2adjacencylist := ⟨[(0, ⟨[("1", [])], by decide⟩), (1, ⟨[("2", [])], by decide⟩),
    (2, Dict.empty)], by simp⟩

theorem pair_read : readGraphFromTopoFile "1 2\n1 2\n" = some (pairNodes, pairAdjacency) := by
  decide +kernel

theorem pair_assigns : Assigns pairServers pairNodes := by
  intro node
  simp [pairServers, pairNodes, Dict.keys]

theorem pair_inRange (node : NodeName) (pmId : Nat)
    (found : pairServers.get? node = some pmId) : pmId < 3 := by
  have member := (pairServers.get?_eq_some node pmId).mp found
  simp only [pairServers, List.mem_cons, Prod.mk.injEq, List.not_mem_nil, or_false] at member
  omega

theorem pair_parts :
    partitionGraphAcrossPm pairServers pairNodes pairAdjacency 3 = some pairParts := by
  rfl

def pairExpConfig : ExpConfig PyNumber := ⟨.int 16⟩

theorem pair_positiveConfig : PositiveConfig samplePmConfig pairExpConfig where
  X := PyNumber.positiveNumber_int one_pos
  Y := PyNumber.positiveNumber_int (by decide)
  Z := PyNumber.positiveNumber_int one_pos
  memoryReq := PyNumber.positiveNumber_int (by decide)

theorem planningDefined_iff_pair :
    PlanningDefined roundRobin pairParts 0 samplePmConfig pairExpConfig ⟨0, 0, 1⟩ ↔
      samplePmConfig.coreNum = 0 ∨ Populated pairServers 0 ∧
        ((8 : Int) ∈ samplePmConfig.parameters.thetaMTable.keys → ∀ planning pair,
          SearchReaches roundRobin pairParts 0 samplePmConfig pairExpConfig ⟨0, 0, 1⟩ planning
            pair →
            (LinkedInside pairAdjacency pairServers 0 ∨ ¬ LinkCostFinite planning) ∧
              ¬ ShareVanishes planning pair) :=
  planningDefined_iff pair_read pair_assigns pair_inRange pair_parts (by decide) roundRobin_valid
    pair_positiveConfig ⟨0, 0, 1⟩

-- The first machine divides by the cost 0 of its lone node, the last takes the maximum of nothing.
theorem pair_not_planningDefined :
    readGraphFromTopoFile "1 2\n1 2\n" = some (pairNodes, pairAdjacency) ∧
    Assigns pairServers pairNodes ∧
    partitionGraphAcrossPm pairServers pairNodes pairAdjacency 3 = some pairParts ∧
    roundRobin.Valid ∧ PositiveConfig samplePmConfig pairExpConfig ∧
    ¬ PlanningDefined roundRobin pairParts 0 samplePmConfig pairExpConfig ⟨0, 0, 1⟩ ∧
    ¬ PlanningDefined roundRobin pairParts 2 samplePmConfig pairExpConfig ⟨0, 0, 1⟩ := by
  refine ⟨pair_read, pair_assigns, pair_parts, roundRobin_valid, pair_positiveConfig, ?_, ?_⟩
  · rintro ⟨pmNodes, pmAdjacency, foundNodes, foundLinks, defined⟩
    cases Option.some.inj foundNodes
    cases Option.some.inj foundLinks
    have raised : getOptimalVmAllocationForPm .python roundRobin ["1"] ⟨[("1", [])], by decide⟩
        samplePmConfig pairExpConfig ⟨0, 0, 1⟩ = .error .zeroDivision := by
      decide +kernel
    exact defined.1 raised
  · rintro ⟨pmNodes, pmAdjacency, foundNodes, foundLinks, defined⟩
    cases Option.some.inj foundNodes
    cases Option.some.inj foundLinks
    have raised : getOptimalVmAllocationForPm .python roundRobin [] Dict.empty samplePmConfig
        pairExpConfig ⟨0, 0, 1⟩ = .error .emptyMax := by
      decide +kernel
    exact defined.2 raised

end SplitNN.Coordinator
