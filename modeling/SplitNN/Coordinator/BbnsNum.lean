import Mathlib
import SplitNN.Coordinator.PartitionStats
import SplitNN.Coordinator.SubTopologySplit
import SplitNN.Coordinator.TopoFilename
import SplitNN.Coordinator.VmAllocation

set_option autoImplicit false

namespace SplitNN.Coordinator

open Monadic (mapM_eq_some foldlM_some_each bind_eq_ok toOption_eq_some)

section Model

variable {K : Type} (A : Arithmetic K)

-- The ceiling of a whole number is that number.
def bbnsNum (X Y : K) (fixedBbnsNum : Nat) (linkNum : Int) : Option Int :=
  if fixedBbnsNum = 0 then do
    let numerator ← A.mul (A.ofInt linkNum) Y
    let denominator ← A.mul (A.ofInt 2) X
    let ratio ← (divide A numerator denominator).toOption
    let kOpt ← (squareRoot A ratio).toOption
    A.ceil kOpt
  else some (min linkNum fixedBbnsNum)

variable (readFile : String → Option String) (localTopoDir : String) (topo : List String)
  (pmConfigList : List (PmConfig K)) (vmConfigList : List VmConfig) (fixedBbnsNum : Nat)

-- One pass through the body of the loop.
def bbnsNumForVm (serverId : Nat) : Option Int := do
  let vmConfig ← vmConfigList[serverId]?
  let pmConfig ← pmConfigList[vmConfig.physicalMachineId]?
  let subTopoFilename := getSubTopoFilename topo serverId
  let text ← readFile (osPathJoin localTopoDir subTopoFilename)
  let lineNum := countLinesIslice text 1024
  bbnsNum A pmConfig.parameters.X pmConfig.parameters.Y fixedBbnsNum ((lineNum : Int) - 1)

def getBbnsNumForAllVms : Option (Dict Nat Int) :=
  (List.range vmConfigList.length).foldlM (fun serverid2bbnsnum serverId => do
    let number ← bbnsNumForVm A readFile localTopoDir topo pmConfigList vmConfigList fixedBbnsNum
      serverId
    return serverid2bbnsnum.set serverId number) Dict.empty

end Model

section Number

open PyNumber

variable {X Y : PyNumber} {linkNum : Nat}

/-- The ratio under the root neither overflows nor is rounded to 0. -/
def RatioFits (X Y : PyNumber) (linkNum : Nat) : Prop :=
  ∃ numerator denominator ratio, mul (.int linkNum) Y = some numerator ∧
    mul (.int 2) X = some denominator ∧ quotient numerator denominator = some ratio ∧
    PositiveNumber ratio

theorem linkNum_pos_of_ratioFits (positiveX : PositiveNumber X) (positiveY : PositiveNumber Y)
    (fits : RatioFits X Y linkNum) : 0 < linkNum := by
  obtain ⟨numerator, denominator, ratio, first, second, division, above, _⟩ := fits
  by_contra unlinked
  cases Nat.eq_zero_of_not_pos unlinked
  have zero : numerator.IsZero := zero_mul_finite (isZero_int.mpr rfl) positiveY.2 first
  have divisor : denominator.Positive := whole_mul_positive one_le_two positiveX.1 second
  exact above.not_isZero (zero_quotient_positive zero divisor division)

theorem bbnsNum_eq_some {fixedBbnsNum : Nat} {number : Int} (unfixed : fixedBbnsNum = 0) :
    bbnsNum .python X Y fixedBbnsNum linkNum = some number ↔
      ∃ numerator, mul (.int linkNum) Y = some numerator ∧
      ∃ denominator, mul (.int 2) X = some denominator ∧
      ∃ ratio, divide .python numerator denominator = .ok ratio ∧
      ∃ kOpt, squareRoot .python ratio = .ok kOpt ∧ ceil kOpt = some number := by
  rw [bbnsNum, if_pos unfixed]
  simp only [Option.bind_eq_bind, Option.bind_eq_some_iff, toOption_eq_some]
  rfl

/-- A server is sent 1 or more exactly if its file has a link line and the ratio fits. -/
theorem bbnsNum_positive (positiveX : PositiveNumber X) (positiveY : PositiveNumber Y)
    (fixedBbnsNum : Nat) :
    (∃ number, bbnsNum .python X Y fixedBbnsNum linkNum = some number ∧ 1 ≤ number) ↔
      0 < linkNum ∧ (fixedBbnsNum = 0 → RatioFits X Y linkNum) := by
  by_cases unfixed : fixedBbnsNum = 0
  next =>
    simp only [unfixed, forall_const]
    constructor
    · rintro ⟨number, computed, large⟩
      obtain ⟨numerator, first, denominator, second, ratio, division, kOpt, root, rounded⟩ :=
        (bbnsNum_eq_some rfl).mp computed
      have divided := (divide_eq_ok.mp division).2
      obtain ⟨notBelow, rooted⟩ := squareRoot_eq_ok.mp root
      obtain ⟨f, rfl⟩ := quotient_float divided
      cases rooted
      have fits : RatioFits X Y linkNum := ⟨numerator, denominator, .float f, first, second,
        divided, (ceil_sqrt notBelow).mp ⟨number, rounded, large⟩⟩
      exact ⟨linkNum_pos_of_ratioFits positiveX positiveY fits, fits⟩
    · rintro ⟨-, numerator, denominator, ratio, first, second, divided, fits⟩
      have divisor : denominator.Positive := whole_mul_positive one_le_two positiveX.1 second
      obtain ⟨f, rfl⟩ := quotient_float divided
      have notBelow := fits.1.nonneg.not_below
      obtain ⟨number, rounded, large⟩ := (ceil_sqrt notBelow).mpr fits
      exact ⟨number, (bbnsNum_eq_some rfl).mpr ⟨numerator, first, denominator, second, .float f,
        divide_eq_ok.mpr ⟨divisor.not_isZero, divided⟩, .float f.sqrt,
        squareRoot_eq_ok.mpr ⟨notBelow, rfl⟩, rounded⟩, large⟩
  next =>
    rw [bbnsNum, if_neg unfixed]
    simp only [Option.some.injEq, exists_eq_left', unfixed, false_imp_iff, and_true]
    omega

end Number

section Links

variable {nodes : List NodeName} {adjacencyList : AdjacencyList} {node2serverid : Dict NodeName Nat}

def OwnsLink (nodes : List NodeName) (adjacencyList : AdjacencyList)
    (node2serverid : Dict NodeName Nat) (serverId : Nat) : Prop :=
  ∃ node ∈ nodes, node2serverid.get? node = some serverId ∧
    ∃ v ∈ neighbours adjacencyList node, v ≠ node

theorem countP_touches_pos (topology : IsTopology nodes adjacencyList)
    (assigns : Assigns node2serverid nodes) (serverId : Nat) :
    0 < (forwardLinks nodes adjacencyList).countP (touches node2serverid serverId) ↔
      OwnsLink nodes adjacencyList node2serverid serverId := by
  rw [List.countP_pos_iff]
  constructor
  · intro ⟨⟨u, v⟩, visited, touched⟩
    have ⟨left, listed, less⟩ := mem_forwardLinks.mp visited
    have right := topology.undirected.closed u left v listed
    have servers := forwardLinks_servers topology assigns visited
    rcases of_decide_eq_true touched with atU | atV
    · exact ⟨u, left, atU ▸ servers.1, v, listed, ne_of_gt less⟩
    · exact ⟨v, right, atV ▸ servers.2, u, topology.neighbours_symm left listed, ne_of_lt less⟩
  · intro ⟨node, member, owner, v, listed, different⟩
    have server : serverOf node2serverid node = serverId := by simp [serverOf, Dict.getD, owner]
    rcases lt_or_gt_of_ne different with less | greater
    · refine ⟨(v, node), mem_forwardLinks.mpr ⟨topology.undirected.closed node member v listed,
        topology.neighbours_symm member listed, less⟩, ?_⟩
      simp [touches, server]
    · exact ⟨(node, v), mem_forwardLinks.mpr ⟨member, listed, greater⟩, by simp [touches, server]⟩

/-- Names that a topology file can hold: the reader has split its lines into words. -/
def OneLineNames (nodes : List NodeName) : Prop :=
  ∀ node ∈ nodes, '\n' ∉ node.toList ∧ '\r' ∉ node.toList

theorem not_mem_danglingToken {v : NodeName} {c : Char} (absent : c ∉ v.toList)
    (digit : c.isDigit = false) (separator : c ∉ "_external_".toList) (serverId vxlanId : Nat) :
    c ∉ (danglingToken v serverId vxlanId).toList := by
  have number (n : Nat) : c ∉ Nat.toDigits 10 n := Text.not_mem_toDigits digit n
  have underscore : c ≠ '_' := fun same => separator (by simp [same])
  simp only [danglingToken, String.toList_append, List.mem_append, not_or]
  exact ⟨⟨⟨⟨absent, separator⟩, by simpa using number serverId⟩, by simpa using underscore⟩,
    by simpa using number vxlanId⟩

theorem fileLinesOf_clean (topology : IsTopology nodes adjacencyList)
    (assigns : Assigns node2serverid nodes) {c : Char} (absent : ∀ node ∈ nodes, c ∉ node.toList)
    (digit : c.isDigit = false) (separator : c ∉ "_external_".toList) (different : c ≠ ' ')
    (ids : NodeName × NodeName → Nat) (serverId : Nat) :
    ∀ line ∈ fileLinesOf (subTopologyOf node2serverid ids (forwardLinks nodes adjacencyList)
      serverId), c ∉ line := by
  intro line member
  rcases List.mem_cons.mp member with header | listed
  · rw [header]
    apply Text.not_mem_intercalate different
    intro word written
    have ⟨node, placed, same⟩ := List.mem_map.mp written
    have owner := (node2serverid.mem_keysWith serverId node).mp placed
    exact same ▸ absent node (assigns.member owner)
  · have ⟨edge, record, same⟩ := List.mem_map.mp listed
    have ends : c ∉ edge.1.toList ∧ c ∉ edge.2.toList := by
      rcases List.mem_append.mp record with internal | dangling
      · have closed := forwardLinks_closed topology (List.mem_filter.mp internal).1
        exact ⟨absent _ closed.1, absent _ closed.2.1⟩
      · have ⟨v, peer, owner, _, _, neighbour, token⟩ := mem_dangling topology dangling
        have inside := assigns.member owner
        have outside := absent v (topology.undirected.closed _ inside v neighbour)
        exact ⟨absent _ inside, token ▸ not_mem_danglingToken outside digit separator _ _⟩
    simp [← same, ends, different]

theorem fileLinesOf_oneLine (topology : IsTopology nodes adjacencyList)
    (assigns : Assigns node2serverid nodes) (names : OneLineNames nodes)
    (ids : NodeName × NodeName → Nat) (serverId : Nat) :
    ∀ line ∈ fileLinesOf (subTopologyOf node2serverid ids (forwardLinks nodes adjacencyList)
      serverId), '\n' ∉ line ∧ '\r' ∉ line := by
  intro line member
  constructor
  · exact fileLinesOf_clean topology assigns (fun node listed => (names node listed).1)
      (by decide) (by decide) (by decide) ids serverId line member
  · exact fileLinesOf_clean topology assigns (fun node listed => (names node listed).2)
      (by decide) (by decide) (by decide) ids serverId line member

theorem writeSubtoposToFile_lineNum (topology : IsTopology nodes adjacencyList)
    (assigns : Assigns node2serverid nodes) (names : OneLineNames nodes) {serverNum : Nat}
    (inRange : ∀ node serverId, node2serverid.get? node = some serverId → serverId < serverNum)
    {inputTopoFilepath : String} {files : List (String × String)}
    (written : writeSubtoposToFile nodes adjacencyList node2serverid serverNum inputTopoFilepath =
      some files) {serverId : Nat} (server : serverId < serverNum) {chunkSize : Nat}
    (positive : 0 < chunkSize) :
    ∃ text, files[serverId]? = some (subTopoFilepath inputTopoFilepath serverId, text) ∧
      countLinesIslice text chunkSize = 1 +
        (forwardLinks nodes adjacencyList).countP (touches node2serverid serverId) := by
  have ⟨subgraphs, ids, collected, values, _⟩ :=
    collectSubtopos_spec node2serverid topology assigns inRange
  let sub := subTopologyOf node2serverid ids (forwardLinks nodes adjacencyList) serverId
  have lines := fileLinesOf_oneLine topology assigns names ids serverId
  refine ⟨writeSubtopoToFile sub, ?_, ?_⟩
  · simp only [writeSubtoposToFile, collected, Option.bind_eq_bind, Option.bind_some] at written
    have same := congrArg (fun entries => entries[serverId]?) (mapM_eq_some.mp written)
    simp only [List.getElem?_map, List.getElem?_range server, Option.map_some, values, server,
      if_true, Option.bind_some, Option.pure_def] at same
    cases found : files[serverId]? with
    | none => simp [found] at same
    | some file => simpa [found, eq_comm] using same
  · rw [countLinesIslice_writeSubtopoToFile sub (fun line member => (lines line member).1)
      (fun line member => (lines line member).2) positive, ← linkLines_subTopologyOf ids _
      (fun link member => forwardLinks_servers topology assigns member) serverId]
    simp only [SubTopology.linkLines, sub]
    omega

end Links

section Numbers

variable {nodes : List NodeName} {adjacencyList : AdjacencyList} {node2serverid : Dict NodeName Nat}
  {pmConfigList : List (PmConfig PyNumber)} {vmConfigList : List VmConfig}
  {readFile : String → Option String} {inputTopoFilepath localTopoDir : String}
  {topo : List String} {files : List (String × String)} (fixedBbnsNum : Nat)

def PositiveMachines (pmConfigList : List (PmConfig PyNumber)) (vmConfigList : List VmConfig) :
    Prop :=
  ∀ vmConfig ∈ vmConfigList, ∃ pmConfig, pmConfigList[vmConfig.physicalMachineId]? = some pmConfig ∧
    pmConfig.parameters.X.PositiveNumber ∧ pmConfig.parameters.Y.PositiveNumber

-- What is read for each server is what was written for it.
def ReadsWritten (readFile : String → Option String) (localTopoDir : String) (topo : List String)
    (files : List (String × String)) : Prop :=
  ∀ (serverId : Nat) path text, files[serverId]? = some (path, text) →
    readFile (osPathJoin localTopoDir (getSubTopoFilename topo serverId)) = some text

-- The number of links, to whichever server, of the server's nodes.
def linkNum (nodes : List NodeName) (adjacencyList : AdjacencyList)
    (node2serverid : Dict NodeName Nat) (serverId : Nat) : Nat :=
  (forwardLinks nodes adjacencyList).countP (touches node2serverid serverId)

/-- The ratio for the server fits with the parameters of its machine. -/
def ServerFits (pmConfigList : List (PmConfig PyNumber)) (vmConfigList : List VmConfig)
    (linkNum serverId : Nat) : Prop :=
  ∃ vmConfig pmConfig, vmConfigList[serverId]? = some vmConfig ∧
    pmConfigList[vmConfig.physicalMachineId]? = some pmConfig ∧
    RatioFits pmConfig.parameters.X pmConfig.parameters.Y linkNum

theorem getBbnsNumForAllVms_eq_some {fixedBbnsNum : Nat} {K : Type} {A : Arithmetic K}
    {pmConfigs : List (PmConfig K)} {serverid2bbnsnum : Dict Nat Int}
    (run : getBbnsNumForAllVms A readFile localTopoDir topo pmConfigs vmConfigList fixedBbnsNum =
      some serverid2bbnsnum) {serverId : Nat} (server : serverId < vmConfigList.length) :
    bbnsNumForVm A readFile localTopoDir topo pmConfigs vmConfigList fixedBbnsNum serverId =
      serverid2bbnsnum.get? serverId := by
  let number := bbnsNumForVm A readFile localTopoDir topo pmConfigs vmConfigList fixedBbnsNum
  have each (serverId : Nat) (member : serverId ∈ List.range vmConfigList.length) :
      number serverId = some ((number serverId).getD 0) := by
    obtain ⟨_, _, step⟩ := foldlM_some_each run member
    obtain ⟨value, computed, _⟩ := Option.bind_eq_some_iff.mp step
    change number serverId = some value at computed
    rw [computed]
    rfl
  have same := Dict.foldlM_set (List.range vmConfigList.length) each Dict.empty
  cases Option.some.inj (run.symm.trans same)
  have listed := List.mem_range.mpr server
  change number serverId = (Dict.ofKeys _ fun serverId => (number serverId).getD 0).get? serverId
  rw [Dict.get?_ofKeys, if_pos listed]
  exact each serverId listed

theorem getBbnsNumForAllVms_found {fixedBbnsNum : Nat} {K : Type} {A : Arithmetic K}
    {pmConfigs : List (PmConfig K)}
    (each : ∀ serverId < vmConfigList.length, ∃ number, bbnsNumForVm A readFile localTopoDir topo
      pmConfigs vmConfigList fixedBbnsNum serverId = some number) :
    ∃ serverid2bbnsnum, getBbnsNumForAllVms A readFile localTopoDir topo pmConfigs vmConfigList
      fixedBbnsNum = some serverid2bbnsnum := by
  let number := bbnsNumForVm A readFile localTopoDir topo pmConfigs vmConfigList fixedBbnsNum
  have found (serverId : Nat) (member : serverId ∈ List.range vmConfigList.length) :
      number serverId = some ((number serverId).getD 0) := by
    obtain ⟨value, computed⟩ := each serverId (List.mem_range.mp member)
    change number serverId = some value at computed
    rw [computed]
    rfl
  exact ⟨_, Dict.foldlM_set (List.range vmConfigList.length) found Dict.empty⟩

theorem bbnsNumForVm_positive (topology : IsTopology nodes adjacencyList)
    (assigns : Assigns node2serverid nodes) (names : OneLineNames nodes)
    (inRange : ∀ node serverId, node2serverid.get? node = some serverId →
      serverId < vmConfigList.length)
    (machines : PositiveMachines pmConfigList vmConfigList)
    (written : writeSubtoposToFile nodes adjacencyList node2serverid vmConfigList.length
      inputTopoFilepath = some files)
    (reads : ReadsWritten readFile localTopoDir topo files) {serverId : Nat}
    (server : serverId < vmConfigList.length) :
    (∃ number, bbnsNumForVm .python readFile localTopoDir topo pmConfigList vmConfigList
        fixedBbnsNum serverId = some number ∧ 1 ≤ number) ↔
      OwnsLink nodes adjacencyList node2serverid serverId ∧
        (fixedBbnsNum = 0 → ServerFits pmConfigList vmConfigList
          (linkNum nodes adjacencyList node2serverid serverId) serverId) := by
  have ⟨text, listed, lines⟩ := writeSubtoposToFile_lineNum topology assigns names inRange
    written server (show 0 < 1024 by decide)
  have ⟨pmConfig, configured, positiveX, positiveY⟩ :=
    machines vmConfigList[serverId] (List.getElem_mem server)
  have computed : bbnsNumForVm .python readFile localTopoDir topo pmConfigList vmConfigList
      fixedBbnsNum serverId = bbnsNum .python pmConfig.parameters.X pmConfig.parameters.Y
        fixedBbnsNum (linkNum nodes adjacencyList node2serverid serverId) := by
    simp only [bbnsNumForVm, List.getElem?_eq_getElem server, Option.bind_eq_bind,
      Option.bind_some, configured, reads serverId _ text listed, lines, linkNum]
    congr 1
    omega
  have fits : ServerFits pmConfigList vmConfigList
      (linkNum nodes adjacencyList node2serverid serverId) serverId ↔
      RatioFits pmConfig.parameters.X pmConfig.parameters.Y
        (linkNum nodes adjacencyList node2serverid serverId) := by
    simp [ServerFits, List.getElem?_eq_getElem server, configured]
  rw [computed, fits, bbnsNum_positive positiveX positiveY]
  exact and_congr_left' (countP_touches_pos topology assigns serverId)

end Numbers

end SplitNN.Coordinator
