import Mathlib
import SplitNN.Agent.NetworkSetup
import SplitNN.Coordinator.BbnsNum

set_option autoImplicit false

namespace SplitNN.System

open SplitNN.Agent SplitNN.Coordinator

/-- No set-up of a plan with this number of namespaces divides by 0, whatever else fails in it. -/
def DivisionsDefined (backBoneNum : Nat) : Prop :=
  ∀ (fails : Failures) (g : Graph) (nodeOrder : List Int) (edgeOrder : List (List PlannedLink)),
    (edgeOrder.take nodeOrder.length).flatten.length ≤ g.getEdgeNum →
      networkSetup fails g nodeOrder edgeOrder backBoneNum ≠ .error .divideByZero

section Numbers

variable {nodes : List NodeName} {adjacencyList : AdjacencyList} {node2serverid : Dict NodeName Nat}
  {pmConfigList : List (PmConfig PyNumber)} {vmConfigList : List VmConfig}
  {readFile : String → Option String} {inputTopoFilepath localTopoDir : String}
  {topo : List String} {files : List (String × String)}

/-- Each agent gets a number to divide by exactly where each server has a node with a link and, with
no fixed number, the ratio under its root is positive and finite. -/
theorem getBbnsNumForAllVms_divides_iff (topology : IsTopology nodes adjacencyList)
    (assigns : Assigns node2serverid nodes) (names : OneLineNames nodes)
    (inRange : ∀ node serverId, node2serverid.get? node = some serverId →
      serverId < vmConfigList.length)
    (machines : PositiveMachines pmConfigList vmConfigList)
    (written : writeSubtoposToFile nodes adjacencyList node2serverid vmConfigList.length
      inputTopoFilepath = some files)
    (reads : ReadsWritten readFile localTopoDir topo files) (fixedBbnsNum : Nat) :
    (∃ serverid2bbnsnum, getBbnsNumForAllVms .python readFile localTopoDir topo pmConfigList
        vmConfigList fixedBbnsNum = some serverid2bbnsnum ∧
      ∀ serverId < vmConfigList.length, ∃ number, serverid2bbnsnum.get? serverId = some number ∧
        1 ≤ number ∧ DivisionsDefined number.toNat) ↔
      ∀ serverId < vmConfigList.length, OwnsLink nodes adjacencyList node2serverid serverId ∧
        (fixedBbnsNum = 0 → ServerFits pmConfigList vmConfigList
          (linkNum nodes adjacencyList node2serverid serverId) serverId) := by
  have server_iff {serverId : Nat} (server : serverId < vmConfigList.length) :=
    bbnsNumForVm_positive fixedBbnsNum topology assigns names inRange machines written reads server
  constructor
  · intro ⟨numbers, run, divides⟩ serverId server
    obtain ⟨number, stored, positive, _⟩ := divides serverId server
    refine (server_iff server).mp ⟨number, ?_, positive⟩
    rw [getBbnsNumForAllVms_eq_some run server, stored]
  · intro condition
    obtain ⟨numbers, run⟩ := getBbnsNumForAllVms_found fun serverId server =>
      have ⟨number, computed, _⟩ := (server_iff server).mpr (condition serverId server)
      ⟨number, computed⟩
    refine ⟨numbers, run, fun serverId server => ?_⟩
    obtain ⟨number, computed, positive⟩ := (server_iff server).mpr (condition serverId server)
    rw [getBbnsNumForAllVms_eq_some run server] at computed
    refine ⟨number, computed, positive, ?_⟩
    intro fails g nodeOrder edgeOrder bounded
    exact networkSetup_divides g (by omega) bounded

end Numbers

section Samples

-- Three virtual machines for three nodes, the last of which has none.
def sampleVmConfigList : List VmConfig := alterVmForAllPms sampleVmIps

def samplePmConfigList : List (PmConfig PyNumber) :=
  let parameters := ⟨.int 1, .int 1, .int 1, sampleTable⟩
  [⟨4, .int 64, 4, parameters⟩, ⟨4, .int 64, 4, parameters⟩]

def sampleFiles : List (String × String) :=
  [("topo/chain_3.sub0.txt", "1 2\n1 2\n1 2\n2 3_external_1_4097\n"),
    ("topo/chain_3.sub1.txt", "3\n3 2_external_0_4097\n"), ("topo/chain_3.sub2.txt", "\n")]

def sampleReadFile (path : String) : Option String := sampleFiles.lookup path

theorem sampleFiles_written : writeSubtoposToFile sampleNodes sampleAdjacency sampleServers
    sampleVmConfigList.length "topo/chain_3.txt" = some sampleFiles := by
  decide +kernel

theorem sampleFiles_read : ReadsWritten sampleReadFile "topo" ["chain", "3"] sampleFiles := by
  intro serverId path text found
  have ⟨small, same⟩ := List.getElem?_eq_some_iff.mp found
  simp only [sampleFiles, List.length_cons, List.length_nil] at small
  interval_cases serverId <;> cases same <;> decide +kernel

theorem sample_oneLineNames : OneLineNames sampleNodes := by
  unfold OneLineNames
  decide

theorem sample_positiveMachines : PositiveMachines samplePmConfigList sampleVmConfigList := by
  intro vmConfig member
  have machine : vmConfig.physicalMachineId < 2 := by
    revert vmConfig
    decide
  have one : (PyNumber.int 1).PositiveNumber := PyNumber.positiveNumber_int one_pos
  cases vmConfig with
  | mk ipAddr physicalMachineId => interval_cases physicalMachineId <;> exact ⟨_, rfl, one, one⟩

theorem sampleVms_inRange (node : NodeName) (serverId : Nat)
    (stored : sampleServers.get? node = some serverId) : serverId < sampleVmConfigList.length := by
  have listed := (sampleServers.get?_eq_some node serverId).mp stored
  have bound : ∀ entry ∈ sampleServers.entries, entry.2 < sampleVmConfigList.length := by decide
  exact bound _ listed

theorem getBbnsNumForAllVms_divides_iff_sample :
    (∃ serverid2bbnsnum, getBbnsNumForAllVms .python sampleReadFile "topo" ["chain", "3"]
        samplePmConfigList sampleVmConfigList 0 = some serverid2bbnsnum ∧
      ∀ serverId < sampleVmConfigList.length, ∃ number,
        serverid2bbnsnum.get? serverId = some number ∧ 1 ≤ number ∧
          DivisionsDefined number.toNat) ↔
      ∀ serverId < sampleVmConfigList.length,
        OwnsLink sampleNodes sampleAdjacency sampleServers serverId ∧
          (0 = 0 → ServerFits samplePmConfigList sampleVmConfigList
            (linkNum sampleNodes sampleAdjacency sampleServers serverId) serverId) :=
  getBbnsNumForAllVms_divides_iff sample_isTopology sample_assigns sample_oneLineNames
    sampleVms_inRange sample_positiveMachines sampleFiles_written sampleFiles_read 0

-- The third virtual machine is sent 0.
theorem sample_sent_zero :
    ¬ ∃ serverid2bbnsnum, getBbnsNumForAllVms .python sampleReadFile "topo" ["chain", "3"]
        samplePmConfigList sampleVmConfigList 0 = some serverid2bbnsnum ∧
      ∀ serverId < sampleVmConfigList.length, ∃ number,
        serverid2bbnsnum.get? serverId = some number ∧ 1 ≤ number ∧
          DivisionsDefined number.toNat := by
  intro ⟨found, run, divides⟩
  have third : bbnsNumForVm .python sampleReadFile "topo" ["chain", "3"] samplePmConfigList
      sampleVmConfigList 0 2 = some 0 := by
    decide +kernel
  obtain ⟨number, stored, positive, _⟩ := divides 2 (by decide)
  rw [← getBbnsNumForAllVms_eq_some run (by decide), third] at stored
  cases stored
  omega

end Samples

end SplitNN.System
