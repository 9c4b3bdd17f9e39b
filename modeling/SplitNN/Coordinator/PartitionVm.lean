import Mathlib
import SplitNN.Coordinator.PartitionPm
import SplitNN.Shared.Monadic

set_option autoImplicit false

namespace SplitNN.Coordinator

structure VmConfig where
  ipAddr : String
  physicalMachineId : Nat
deriving DecidableEq

-- One address list for each machine, as read back from its `vm_ips.txt`.
def alterVmForAllPms (vmIps : List (List String)) : List VmConfig :=
  vmIps.zipIdx.flatMap fun (ips, pmId) => ips.map fun vmIp => ⟨vmIp, pmId⟩

def createMetisAdjacencyList (nodes : List NodeName) (adjacencyList : AdjacencyList) :
    Option (List (List Nat) × Dict NodeName Nat × Dict Nat NodeName) := do
  let nodeToIndex : Dict NodeName Nat := Dict.ofEntries nodes.zipIdx
  let indexToNode : Dict Nat NodeName :=
    Dict.ofEntries (nodeToIndex.entries.map fun entry => (entry.2, entry.1))
  let metisAdjacencyList ← nodes.mapM fun node => do
    let listed ← adjacencyList.get? node
    listed.mapM nodeToIndex.get?
  return (metisAdjacencyList, nodeToIndex, indexToNode)

abbrev PartGraph := List (List Nat) → Nat → List Nat

/-- One part for each vertex, within the number of parts asked for. -/
structure PartGraph.Valid (partGraph : PartGraph) : Prop where
  length : ∀ adjacency nparts, 0 < nparts →
    (partGraph adjacency nparts).length = adjacency.length
  inRange : ∀ adjacency nparts, 0 < nparts → ∀ part ∈ partGraph adjacency nparts, part < nparts

def partitionMetis (partGraph : PartGraph) (nodes : List NodeName) (adjacencyList : AdjacencyList)
    (numPartitions : Nat) : Option (Dict NodeName Nat) :=
  if numPartitions = 1 then some (Dict.ofKeys nodes fun _ => 0)
  else do
    let (metisAdjacencyList, _, indexToNode) ← createMetisAdjacencyList nodes adjacencyList
    (partGraph metisAdjacencyList numPartitions).zipIdx.foldlM (fun node2serverid (part, idx) => do
      let node ← indexToNode.get? idx
      return node2serverid.set node part) Dict.empty

def partitionGraphAcrossVm (partGraph : PartGraph) (nodes : List NodeName)
    (adjacencyList : AdjacencyList) (numPartitions accServerNum : Nat) :
    Option (Dict NodeName Nat) :=
  if numPartitions = 1 then some (Dict.ofKeys nodes fun _ => accServerNum)
  else do
    let node2serverid ← partitionMetis partGraph nodes adjacencyList numPartitions
    node2serverid.keys.foldlM
      (fun shifted node => shifted.modify? node (· + accServerNum)) node2serverid

def countServer (pm2servernum : Dict Nat Nat) (server : VmConfig) : Dict Nat Nat :=
  let known :=
    if (pm2servernum.get? server.physicalMachineId).isNone then
      pm2servernum.set server.physicalMachineId 0
    else pm2servernum
  known.adjust server.physicalMachineId (· + 1)

def serverMachines (vmConfigList : List VmConfig) : Dict Nat Nat :=
  Dict.ofEntries (vmConfigList.zipIdx.map fun (server, i) => (i, server.physicalMachineId))

structure VmTask where
  pmId : Nat
  pmServerNum : Nat
  accServerNum : Nat
deriving DecidableEq

def submitTasks (pm2servernum : List (Nat × Nat)) : List VmTask × Nat :=
  pm2servernum.foldl (fun (futures, accServerNum) (pmId, pmServerNum) =>
    (futures ++ [⟨pmId, pmServerNum, accServerNum⟩], accServerNum + pmServerNum)) ([], 0)

def partitionVmTask (partGraph : PartGraph) (pmid2nodes : Dict Nat (List NodeName))
    (pmid2adjacencylist : Dict Nat AdjacencyList) (task : VmTask) : Option (Dict NodeName Nat) := do
  let nodes ← pmid2nodes.get? task.pmId
  let adjacencyList ← pmid2adjacencylist.get? task.pmId
  partitionGraphAcrossVm partGraph nodes adjacencyList task.pmServerNum task.accServerNum

structure VmPartition where
  node2serverid : Dict NodeName Nat
  serverid2pmid : Dict Nat Nat
  accServerNum : Nat

-- What is handed on to the sub-topology writer and the dilation factor.
def partitionTopoAcrossVmsForAllPms (partGraph : PartGraph)
    (asCompleted : List VmTask → List VmTask) (pmid2nodes : Dict Nat (List NodeName))
    (pmid2adjacencylist : Dict Nat AdjacencyList) (vmConfigList : List VmConfig) :
    Option VmPartition := do
  let pm2servernum := vmConfigList.foldl countServer Dict.empty
  let (futures, accServerNum) := submitTasks pm2servernum.entries
  let node2serverid ← (asCompleted futures).foldlM (fun node2serverid task => do
    let result ← partitionVmTask partGraph pmid2nodes pmid2adjacencylist task
    return node2serverid.update result) Dict.empty
  return ⟨node2serverid, serverMachines vmConfigList, accServerNum⟩

open Monadic (mapM_found)

section Metis

variable {partGraph : PartGraph} {nodes : List NodeName} {adjacencyList : AdjacencyList}

theorem createMetisAdjacencyList_spec (graph : IsGraph nodes adjacencyList) :
    ∃ metisAdjacencyList nodeToIndex indexToNode,
      createMetisAdjacencyList nodes adjacencyList =
        some (metisAdjacencyList, nodeToIndex, indexToNode) ∧
      metisAdjacencyList.length = nodes.length ∧
      ∀ idx node, nodes[idx]? = some node → indexToNode.get? idx = some node := by
  have names : (nodes.zipIdx.map Prod.fst).Nodup := by simpa using graph.distinct
  have indices : ((nodes.zipIdx.map fun entry => (entry.2, entry.1)).map Prod.fst).Nodup := by
    simp [Function.comp_def, List.nodup_range']
  let nodeToIndex : Dict NodeName Nat := Dict.ofEntries nodes.zipIdx
  let indexToNode : Dict Nat NodeName :=
    Dict.ofEntries (nodeToIndex.entries.map fun entry => (entry.2, entry.1))
  let convert (node : NodeName) : Option (List Nat) := do
    let listed ← adjacencyList.get? node
    listed.mapM nodeToIndex.get?
  have known (node : NodeName) (member : node ∈ nodes) :
      ∃ idx, nodeToIndex.get? node = some idx := by
    have ⟨idx, at_idx⟩ := List.mem_iff_getElem?.mp member
    exact ⟨idx, (Dict.get?_ofEntries names node idx).mpr (by simpa [List.mem_zipIdx_iff_getElem?])⟩
  have ⟨metisAdjacencyList, converted, length⟩ := mapM_found (f := convert) nodes (by
    intro node member
    have ⟨targets, run, _⟩ := mapM_found (neighbours adjacencyList node)
      fun target listed => known target (graph.closed node member target listed)
    exact ⟨targets, by simp [convert, neighbours_found (graph.listed node member), run]⟩)
  refine ⟨metisAdjacencyList, nodeToIndex, indexToNode, ?_, length, ?_⟩
  · rw [createMetisAdjacencyList]
    exact Option.bind_eq_some_iff.mpr ⟨metisAdjacencyList, converted, rfl⟩
  · intro idx node at_idx
    simp only [indexToNode, nodeToIndex, Dict.entries_ofEntries names]
    rw [Dict.get?_ofEntries indices]
    simpa [List.mem_zipIdx_iff_getElem?] using at_idx

theorem metisParts_run {indexToNode : Dict Nat NodeName} (parts : List Nat)
    (nodes : List NodeName) (first : Nat) (length : parts.length = nodes.length)
    (named : ∀ idx node, nodes[idx]? = some node → indexToNode.get? (first + idx) = some node)
    (node2serverid : Dict NodeName Nat) :
    (parts.zipIdx first).foldlM (fun node2serverid (part, idx) => do
        let node ← indexToNode.get? idx
        return node2serverid.set node part) node2serverid =
      some ((nodes.zip parts).foldl (fun node2serverid entry =>
        node2serverid.set entry.1 entry.2) node2serverid) := by
  induction parts generalizing nodes first node2serverid with
  | nil => simp
  | cons part parts ih =>
    cases nodes with
    | nil => simp at length
    | cons node nodes =>
      have here := named 0 node rfl
      have later := ih nodes (first + 1) (by simpa using length) (by
        intro idx other at_idx
        rw [Nat.add_assoc, Nat.add_comm 1]
        exact named (idx + 1) other (by simpa using at_idx)) (node2serverid.set node part)
      rw [Nat.add_zero] at here
      simpa [here] using later

theorem partitionMetis_spec (metis : partGraph.Valid) (graph : IsGraph nodes adjacencyList)
    {numPartitions : Nat} (positive : 0 < numPartitions) :
    ∃ node2serverid,
      partitionMetis partGraph nodes adjacencyList numPartitions = some node2serverid ∧
      Assigns node2serverid nodes ∧
      ∀ node serverId, node2serverid.get? node = some serverId → serverId < numPartitions := by
  by_cases single : numPartitions = 1
  next =>
    refine ⟨Dict.ofKeys nodes fun _ => 0, by rw [partitionMetis, if_pos single], ?_, ?_⟩
    · intro node
      rw [Dict.keys_ofKeys graph.distinct]
    · intro node serverId found
      rw [Dict.get?_ofKeys] at found
      split at found
      next => cases found; exact positive
      next => cases found
  next =>
    have ⟨metisAdjacencyList, nodeToIndex, indexToNode, created, length, named⟩ :=
      createMetisAdjacencyList_spec graph
    let parts := partGraph metisAdjacencyList numPartitions
    have sameLength : parts.length = nodes.length :=
      (metis.length _ _ positive).trans length
    have run := metisParts_run parts nodes 0 sameLength
      (by simpa using named) Dict.empty
    have keys : (nodes.zip parts).map Prod.fst = nodes :=
      List.map_fst_zip (le_of_eq sameLength.symm)
    have distinct : ((nodes.zip parts).map Prod.fst).Nodup := keys.symm ▸ graph.distinct
    refine ⟨Dict.ofEntries (nodes.zip parts), ?_, ?_, ?_⟩
    · rw [partitionMetis, if_neg single]
      exact Option.bind_eq_some_iff.mpr ⟨_, created, run⟩
    · intro node
      rw [Dict.keys, Dict.entries_ofEntries distinct, keys]
    · intro node serverId found
      rw [Dict.get?_ofEntries distinct] at found
      exact metis.inRange _ _ positive _ (List.of_mem_zip found).2

theorem partitionGraphAcrossVm_spec (metis : partGraph.Valid) (graph : IsGraph nodes adjacencyList)
    {numPartitions : Nat} (positive : 0 < numPartitions) (accServerNum : Nat) :
    ∃ node2serverid, partitionGraphAcrossVm partGraph nodes adjacencyList numPartitions
        accServerNum = some node2serverid ∧
      Assigns node2serverid nodes ∧
      ∀ node serverId, node2serverid.get? node = some serverId →
        accServerNum ≤ serverId ∧ serverId < accServerNum + numPartitions := by
  by_cases single : numPartitions = 1
  next =>
    refine ⟨Dict.ofKeys nodes fun _ => accServerNum,
      by rw [partitionGraphAcrossVm, if_pos single], ?_, ?_⟩
    · intro node
      rw [Dict.keys_ofKeys graph.distinct]
    · intro node serverId found
      rw [Dict.get?_ofKeys] at found
      split at found
      next => cases found; omega
      next => cases found
  next =>
    have ⟨parts, run, assigns, inRange⟩ := partitionMetis_spec metis graph positive
    have ⟨shifted, shiftRun, keys, values⟩ := Dict.foldlM_modify?_keys (· + accServerNum) parts
    refine ⟨shifted, ?_, ?_, ?_⟩
    · rw [partitionGraphAcrossVm, if_neg single]
      exact Option.bind_eq_some_iff.mpr ⟨parts, run, shiftRun⟩
    · intro node
      rw [keys, assigns node]
    · intro node serverId found
      rw [values, Option.map_eq_some_iff] at found
      have ⟨part, stored, sum⟩ := found
      have bound := inRange node part stored
      omega

end Metis

section Servers

theorem countServer_eq (pm2servernum : Dict Nat Nat) (server : VmConfig) :
    countServer pm2servernum server = pm2servernum.set server.physicalMachineId
      (pm2servernum.getD server.physicalMachineId 0 + 1) := by
  cases found : pm2servernum.get? server.physicalMachineId with
  | none => simp [countServer, Dict.adjust, Dict.modify?, Dict.getD, found, Dict.set_set]
  | some count => simp [countServer, Dict.adjust, Dict.modify?, Dict.getD, found]

theorem countServers_machine (ips : List String) (pmId : Nat) (pm2servernum : Dict Nat Nat)
    (nonEmpty : ips ≠ []) :
    (ips.map fun vmIp => VmConfig.mk vmIp pmId).foldl countServer pm2servernum =
      pm2servernum.set pmId (pm2servernum.getD pmId 0 + ips.length) := by
  induction ips generalizing pm2servernum with
  | nil => exact absurd rfl nonEmpty
  | cons vmIp rest ih =>
    rw [List.map_cons, List.foldl_cons, countServer_eq]
    by_cases last : rest = []
    next => simp [last]
    next =>
      rw [ih _ last, Dict.set_set, Dict.getD_set, if_pos rfl, List.length_cons, Nat.add_assoc,
        Nat.add_comm 1]

theorem alterVmForAllPms_append (vmIps : List (List String)) (ips : List String) :
    alterVmForAllPms (vmIps ++ [ips]) =
      alterVmForAllPms vmIps ++ ips.map fun vmIp => ⟨vmIp, vmIps.length⟩ := by
  simp [alterVmForAllPms, List.zipIdx_append]

theorem countServers_entries (vmIps : List (List String)) (nonEmpty : ∀ ips ∈ vmIps, ips ≠ []) :
    ((alterVmForAllPms vmIps).foldl countServer Dict.empty).entries =
      vmIps.zipIdx.map fun (ips, pmId) => (pmId, ips.length) := by
  induction vmIps using List.reverseRecOn with
  | nil => rfl
  | append_singleton vmIps ips ih =>
    have earlier := ih fun other member => nonEmpty other (List.mem_append_left _ member)
    have absent :
        vmIps.length ∉ ((alterVmForAllPms vmIps).foldl countServer Dict.empty).keys := by
      simp [Dict.keys, earlier, Function.comp_def]
    have none := (Dict.get?_eq_none _ _).mpr absent
    rw [alterVmForAllPms_append, List.foldl_append,
      countServers_machine _ _ _ (nonEmpty ips (by simp)), Dict.set_entries_absent _ absent,
      earlier, Dict.getD, none]
    simp [List.zipIdx_append]

theorem submitTasks_append (pm2servernum : List (Nat × Nat)) (pmId pmServerNum : Nat) :
    submitTasks (pm2servernum ++ [(pmId, pmServerNum)]) =
      ((submitTasks pm2servernum).1 ++ [⟨pmId, pmServerNum, (submitTasks pm2servernum).2⟩],
        (submitTasks pm2servernum).2 + pmServerNum) := by
  simp [submitTasks]

structure OneTaskPerMachine (vmConfigList : List VmConfig) (pmNum : Nat) (futures : List VmTask)
    (accServerNum : Nat) : Prop where
  total : accServerNum = vmConfigList.length
  machines : futures.map VmTask.pmId = List.range pmNum
  positive : ∀ task ∈ futures, 0 < task.pmServerNum
  own : ∀ task ∈ futures, ∀ serverId, task.accServerNum ≤ serverId →
    serverId < task.accServerNum + task.pmServerNum →
    ∃ server, vmConfigList[serverId]? = some server ∧ server.physicalMachineId = task.pmId

theorem submitTasks_oneTaskPerMachine (vmIps : List (List String))
    (nonEmpty : ∀ ips ∈ vmIps, ips ≠ []) :
    OneTaskPerMachine (alterVmForAllPms vmIps) vmIps.length
      (submitTasks (vmIps.zipIdx.map fun (ips, pmId) => (pmId, ips.length))).1
      (submitTasks (vmIps.zipIdx.map fun (ips, pmId) => (pmId, ips.length))).2 := by
  induction vmIps using List.reverseRecOn with
  | nil => exact ⟨rfl, rfl, by simp [submitTasks], by simp [submitTasks]⟩
  | append_singleton vmIps ips ih =>
    have earlier := ih fun other member => nonEmpty other (List.mem_append_left _ member)
    have positive := List.length_pos_iff.mpr (nonEmpty ips (by simp))
    simp only [List.zipIdx_append, List.map_append, List.zipIdx_singleton, List.map_singleton,
      Nat.zero_add, submitTasks_append, alterVmForAllPms_append]
    constructor
    · simp [earlier.total]
    · simp [earlier.machines, List.range_succ]
    · intro task member
      cases List.mem_append.mp member with
      | inl old => exact earlier.positive task old
      | inr new =>
        cases List.mem_singleton.mp new
        exact positive
    · intro task member serverId low high
      cases List.mem_append.mp member with
      | inl old =>
        have ⟨server, found, machine⟩ := earlier.own task old serverId low high
        have bound := (List.getElem?_eq_some_iff.mp found).1
        exact ⟨server, by rw [List.getElem?_append_left bound, found], machine⟩
      | inr new =>
        cases List.mem_singleton.mp new
        simp only [earlier.total] at low high
        have inside : serverId - (alterVmForAllPms vmIps).length < ips.length := by omega
        refine ⟨⟨ips[serverId - (alterVmForAllPms vmIps).length], vmIps.length⟩, ?_, rfl⟩
        rw [List.getElem?_append_right low]
        simp [inside]

theorem serverMachines_get? (vmConfigList : List VmConfig) (serverId : Nat) :
    (serverMachines vmConfigList).get? serverId =
      vmConfigList[serverId]?.map VmConfig.physicalMachineId := by
  have distinct : ((vmConfigList.zipIdx.map fun (server, i) =>
      (i, server.physicalMachineId)).map Prod.fst).Nodup := by
    simp [Function.comp_def, List.nodup_range']
  apply Option.ext
  intro pmId
  rw [serverMachines, Dict.get?_ofEntries distinct]
  simp [List.mem_zipIdx_iff_getElem?]

end Servers

section Completion

variable {partGraph : PartGraph} {pmid2nodes : Dict Nat (List NodeName)}
  {pmid2adjacencylist : Dict Nat AdjacencyList}

theorem mergeCompleted_run {located : VmTask → Dict NodeName Nat} (completed : List VmTask)
    (made : ∀ task ∈ completed, partitionVmTask partGraph pmid2nodes pmid2adjacencylist task =
      some (located task)) (node2serverid : Dict NodeName Nat) :
    completed.foldlM (fun node2serverid task => do
        let result ← partitionVmTask partGraph pmid2nodes pmid2adjacencylist task
        return node2serverid.update result) node2serverid =
      some ((completed.map located).foldl Dict.update node2serverid) := by
  induction completed generalizing node2serverid with
  | nil => rfl
  | cons task rest ih =>
    have first := made task (by simp)
    have later := ih fun other member => made other (List.mem_cons_of_mem task member)
    simp only [List.foldlM_cons, first, Option.bind_eq_bind, Option.bind_some, Option.pure_def,
      List.map_cons, List.foldl_cons]
    exact later _

/-- Every node is on one server, and that server runs on the node's own machine. -/
structure VmPartition.Serves (partition : VmPartition) (nodes : List NodeName)
    (node2pmid : Dict NodeName Nat) (vmConfigList : List VmConfig) : Prop where
  assigns : Assigns partition.node2serverid nodes
  inRange : ∀ node serverId, partition.node2serverid.get? node = some serverId →
    serverId < vmConfigList.length
  machine : ∀ node serverId, partition.node2serverid.get? node = some serverId →
    partition.serverid2pmid.get? serverId = node2pmid.get? node
  total : partition.accServerNum = vmConfigList.length

theorem partitionVmTask_spec (metis : partGraph.Valid) {result : PmPartition}
    {nodes : List NodeName} {pmNum : Nat} (splits : result.Splits nodes pmNum)
    {vmConfigList : List VmConfig} {futures : List VmTask} {accServerNum : Nat}
    (tasks : OneTaskPerMachine vmConfigList pmNum futures accServerNum) {task : VmTask}
    (member : task ∈ futures) :
    ∃ located, partitionVmTask partGraph result.pmid2nodes result.pmid2adjacencylist task =
        some located ∧
      (∀ node, node ∈ located.keys ↔ result.node2pmid.get? node = some task.pmId) ∧
      ∀ node serverId, located.get? node = some serverId → serverId < vmConfigList.length ∧
        (serverMachines vmConfigList).get? serverId = some task.pmId := by
  have bound : task.pmId < pmNum := by
    rw [← List.mem_range, ← tasks.machines]
    exact List.mem_map_of_mem member
  obtain ⟨pmNodes, pmAdjacency, foundNodes, foundAdjacency, graph, nodesOf⟩ :=
    splits.parts task.pmId bound
  obtain ⟨located, run, assigns, inRange⟩ := partitionGraphAcrossVm_spec metis graph
    (tasks.positive task member) task.accServerNum
  refine ⟨located, ?_, fun node => (assigns node).trans (nodesOf node), ?_⟩
  · simp [partitionVmTask, foundNodes, foundAdjacency, run]
  · intro node serverId stored
    obtain ⟨low, high⟩ := inRange node serverId stored
    obtain ⟨server, found, machine⟩ := tasks.own task member serverId low high
    exact ⟨(List.getElem?_eq_some_iff.mp found).1, by simp [serverMachines_get?, found, machine]⟩

theorem mergedParts_get? {located : VmTask → Dict NodeName Nat} {futures completed : List VmTask}
    {node2pmid : Dict NodeName Nat} (distinct : (futures.map VmTask.pmId).Nodup)
    (keys : ∀ task ∈ futures, ∀ node,
      node ∈ (located task).keys ↔ node2pmid.get? node = some task.pmId)
    (perm : completed.Perm futures) (node : NodeName) (serverId : Nat) :
    ((completed.map located).foldl Dict.update Dict.empty).get? node = some serverId ↔
      ∃ task ∈ futures, (located task).get? node = some serverId := by
  rw [Dict.get?_merged]
  · simp [perm.mem_iff]
  · intro d left e right node serverId serverId' found found'
    obtain ⟨task, member, isD⟩ := List.mem_map.mp left
    obtain ⟨task', member', isE⟩ := List.mem_map.mp right
    subst isD isE
    have inFutures := perm.mem_iff.mp member
    have inFutures' := perm.mem_iff.mp member'
    have machine := (keys task inFutures node).mp (Dict.mem_keys_of_get? found)
    have machine' := (keys task' inFutures' node).mp (Dict.mem_keys_of_get? found')
    have same : task = task' := List.inj_on_of_nodup_map distinct inFutures inFutures'
      (Option.some.inj (machine.symm.trans machine'))
    subst same
    exact Option.some.inj (found.symm.trans found')

/-- Every order of completion merges the parts to one assignment that respects the machines. -/
theorem partitionTopoAcrossVmsForAllPms_serves (metis : partGraph.Valid) {nodes : List NodeName}
    {adjacencyList : AdjacencyList} (graph : IsGraph nodes adjacencyList)
    {node2pmid : Dict NodeName Nat} (assigns : Assigns node2pmid nodes)
    {vmIps : List (List String)} (nonEmpty : ∀ ips ∈ vmIps, ips ≠ [])
    (inRange : ∀ node pmId, node2pmid.get? node = some pmId → pmId < vmIps.length) :
    ∃ result, partitionGraphAcrossPm node2pmid nodes adjacencyList vmIps.length = some result ∧
      ∃ assigned : NodeName → Option Nat, ∀ asCompleted : List VmTask → List VmTask,
        (∀ futures, (asCompleted futures).Perm futures) →
        ∃ partition, partitionTopoAcrossVmsForAllPms partGraph asCompleted result.pmid2nodes
            result.pmid2adjacencylist (alterVmForAllPms vmIps) = some partition ∧
          partition.Serves nodes result.node2pmid (alterVmForAllPms vmIps) ∧
          ∀ node, partition.node2serverid.get? node = assigned node := by
  obtain ⟨result, run, splits⟩ := partitionGraphAcrossPm_splits graph assigns inRange
  have tasks := submitTasks_oneTaskPerMachine vmIps nonEmpty
  let pm2servernum := vmIps.zipIdx.map fun (ips, pmId) => (pmId, ips.length)
  let futures := (submitTasks pm2servernum).1
  let located (task : VmTask) : Dict NodeName Nat :=
    (partitionVmTask partGraph result.pmid2nodes result.pmid2adjacencylist task).getD Dict.empty
  have spec (task : VmTask) (member : task ∈ futures) :
      partitionVmTask partGraph result.pmid2nodes result.pmid2adjacencylist task =
        some (located task) ∧
      (∀ node, node ∈ (located task).keys ↔ result.node2pmid.get? node = some task.pmId) ∧
      ∀ node serverId, (located task).get? node = some serverId →
        serverId < (alterVmForAllPms vmIps).length ∧
        (serverMachines (alterVmForAllPms vmIps)).get? serverId = some task.pmId := by
    obtain ⟨own, made, keys, values⟩ := partitionVmTask_spec metis splits tasks member
    have same : located task = own := by simp [located, made]
    exact same ▸ ⟨made, keys, values⟩
  have distinct : (futures.map VmTask.pmId).Nodup := tasks.machines.symm ▸ List.nodup_range
  refine ⟨result, run, ((futures.map located).foldl Dict.update Dict.empty).get?, ?_⟩
  intro asCompleted completes
  let merged := ((asCompleted futures).map located).foldl Dict.update Dict.empty
  have stored (node : NodeName) (serverId : Nat) : merged.get? node = some serverId ↔
      ∃ task ∈ futures, (located task).get? node = some serverId :=
    mergedParts_get? distinct (fun task member => (spec task member).2.1) (completes futures)
      node serverId
  refine ⟨⟨merged, serverMachines (alterVmForAllPms vmIps), (submitTasks pm2servernum).2⟩,
    ?_, ⟨?_, ?_, ?_, tasks.total⟩, ?_⟩
  · have mergeRun := mergeCompleted_run (asCompleted futures) (fun task member =>
      (spec task ((completes futures).mem_iff.mp member)).1) Dict.empty
    rw [partitionTopoAcrossVmsForAllPms, countServers_entries vmIps nonEmpty]
    exact Option.bind_eq_some_iff.mpr ⟨merged, mergeRun, rfl⟩
  · intro node
    rw [← Dict.get?_isSome, Option.isSome_iff_exists]
    simp only [stored]
    constructor
    · rintro ⟨serverId, task, member, found⟩
      exact splits.assigns.member (((spec task member).2.1 node).mp (Dict.mem_keys_of_get? found))
    · intro member
      obtain ⟨pmId, machine⟩ := splits.assigns.found member
      have owned : pmId ∈ futures.map VmTask.pmId := by
        rw [tasks.machines, List.mem_range]
        exact splits.inRange node pmId machine
      obtain ⟨task, isTask, same⟩ := List.mem_map.mp owned
      obtain ⟨serverId, found⟩ := (located task).exists_get?
        (((spec task isTask).2.1 node).mpr (by rw [machine, same]))
      exact ⟨serverId, task, isTask, found⟩
  · intro node serverId found
    obtain ⟨task, member, own⟩ := (stored node serverId).mp found
    exact ((spec task member).2.2 node serverId own).1
  · intro node serverId found
    obtain ⟨task, member, own⟩ := (stored node serverId).mp found
    rw [((spec task member).2.2 node serverId own).2,
      ((spec task member).2.1 node).mp (Dict.mem_keys_of_get? own)]
  · intro node
    apply Option.ext
    intro serverId
    rw [stored, mergedParts_get? distinct (fun task member => (spec task member).2.1)
      (List.Perm.refl futures)]

-- On the two linked vertices of the sample METIS also puts one into each part.
def roundRobin : PartGraph := fun adjacency nparts =>
  (List.range adjacency.length).map (· % nparts)

theorem roundRobin_valid : roundRobin.Valid := by
  constructor
  · intro adjacency nparts _
    simp [roundRobin]
  · intro adjacency nparts positive part member
    have ⟨vertex, _, value⟩ := List.mem_map.mp member
    exact value ▸ Nat.mod_lt vertex positive

def sampleVmIps : List (List String) := [["10.0.0.1", "10.0.0.2"], ["10.0.1.1"]]

theorem partitionTopoAcrossVmsForAllPms_serves_sample :
    ∃ result, partitionGraphAcrossPm sampleServers sampleNodes sampleAdjacency 2 = some result ∧
      ∃ assigned : NodeName → Option Nat, ∀ asCompleted : List VmTask → List VmTask,
        (∀ futures, (asCompleted futures).Perm futures) →
        ∃ partition, partitionTopoAcrossVmsForAllPms roundRobin asCompleted result.pmid2nodes
            result.pmid2adjacencylist (alterVmForAllPms sampleVmIps) = some partition ∧
          partition.Serves sampleNodes result.node2pmid (alterVmForAllPms sampleVmIps) ∧
          ∀ node, partition.node2serverid.get? node = assigned node :=
  have nonEmpty : ∀ ips ∈ sampleVmIps, ips ≠ [] := by decide
  partitionTopoAcrossVmsForAllPms_serves roundRobin_valid sample_isTopology.isGraph
    sample_assigns nonEmpty sample_inRange

end Completion

end SplitNN.Coordinator
