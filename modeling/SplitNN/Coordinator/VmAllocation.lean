import Mathlib
import SplitNN.Coordinator.PartitionVm
import SplitNN.Shared.PyNumber

set_option autoImplicit false

namespace SplitNN.Coordinator

open RunningMax
open Monadic (bind_eq_ok mapM_eq_ok mapM_ok_each mapM_ok foldlM_pairs foldlM_eq_error foldlM_eq_ok
  toOption_eq_some)

structure PmParameters (K : Type) where
  X : K
  Y : K
  Z : K
  thetaMTable : Dict Int K

structure PmConfig (K : Type) where
  coreNum : Nat
  memory : K
  maxVMNum : Int
  parameters : PmParameters K

structure ExpConfig (K : Type) where
  memoryReq : K

-- A value of 0 leaves the choice to the search.
structure FixedOptions where
  fixedVmNum : Nat
  fixedM : Nat
  fixedBbnsNum : Nat

inductive PlanningError where
  | keyError
  | zeroDivision
  | emptyMax
  | mathDomain
  | overflow
  deriving DecidableEq

def orRaise {α : Type} (error : PlanningError) : Option α → Except PlanningError α
  | some value => .ok value
  | none => .error error

section Model

variable {K : Type} (A : Arithmetic K)

def plus (a b : K) : Except PlanningError K := orRaise .overflow (A.add a b)

def minus (a b : K) : Except PlanningError K := orRaise .overflow (A.sub a b)

def times (a b : K) : Except PlanningError K := orRaise .overflow (A.mul a b)

def divide (a b : K) : Except PlanningError K :=
  if A.isZero b then .error .zeroDivision else orRaise .overflow (A.quotient a b)

def squareRoot (a : K) : Except PlanningError K :=
  if A.lt a (A.ofInt 0) then .error .mathDomain else orRaise .overflow (A.sqrt a)

-- `V / n * X + Z`, which both costs multiply by the number of links.
def linkCost (n V : Nat) (X Z : K) : Except PlanningError K := do
  let share ← divide A (A.ofInt V) (A.ofInt n)
  let nodes ← times A share X
  plus A nodes Z

def tMvs (n V : Nat) (eMax : Nat → Except PlanningError K) (X Y Z : K) :
    Except PlanningError K := do
  let eMaxN ← eMax n
  let perLink ← linkCost A n V X Z
  let linear ← times A eMaxN perLink
  let square ← times A eMaxN eMaxN
  let double ← times A square Y
  let quadratic ← divide A double (A.ofInt 2)
  plus A linear quadratic

def tSn (n V : Nat) (eMax : Nat → Except PlanningError K) (X Y Z : K) :
    Except PlanningError K := do
  let eMaxN ← eMax n
  let perLink ← linkCost A n V X Z
  let linear ← times A eMaxN perLink
  let double ← times A (A.ofInt 2) eMaxN
  let scaled ← times A double X
  let radicand ← times A scaled Y
  let root ← squareRoot A radicand
  let bend ← times A eMaxN root
  plus A linear bend

def mMvs (n : Nat) (m : Int) (theta : Int → Except PlanningError K) : Except PlanningError K := do
  let thetaM ← theta m
  times A (A.ofInt n) thetaM

def gainOf (T : Nat → Except PlanningError K) (n : Nat) (m : Int)
    (theta : Int → Except PlanningError K) (mReq : K) : Except PlanningError K := do
  let first ← T 1
  let split ← T n
  let saved ← minus A first split
  let numerator ← divide A saved first
  let memory ← mMvs A n m theta
  let dominator ← divide A memory mReq
  divide A numerator dominator

def gainMvs (n : Nat) (m : Int) (V : Nat) (eMax : Nat → Except PlanningError K) (X Y Z : K)
    (theta : Int → Except PlanningError K) (mReq : K) : Except PlanningError K :=
  gainOf A (fun n => tMvs A n V eMax X Y Z) n m theta mReq

def gainSn (n : Nat) (m : Int) (V : Nat) (eMax : Nat → Except PlanningError K) (X Y Z : K)
    (theta : Int → Except PlanningError K) (mReq : K) : Except PlanningError K :=
  gainOf A (fun n => tSn A n V eMax X Y Z) n m theta mReq

structure VmPlanning (K : Type) where
  nodes : List NodeName
  eMaxData : Dict Nat K
  pmConfig : PmConfig K
  expConfig : ExpConfig K
  fixed : FixedOptions

abbrev VmAlloc := Nat × Int × Nat

abbrev SearchResult (K : Type) := Nat × Int × K × K

structure AllocationSearch (K : Type) where
  searchResults : List (SearchResult K)
  nOpt : Nat
  mOpt : Int
  mExtraOpt : K
  maxGain : K

namespace VmPlanning

variable (planning : VmPlanning K)

def theta (m : Int) : Except PlanningError K :=
  orRaise .keyError (planning.pmConfig.parameters.thetaMTable.get? m)

def eMax (n : Nat) : Except PlanningError K := orRaise .keyError (planning.eMaxData.get? n)

def gain (n : Nat) (m : Int) : Except PlanningError K :=
  let parameters := planning.pmConfig.parameters
  if planning.fixed.fixedBbnsNum = 0 then
    gainSn A n m planning.nodes.length planning.eMax parameters.X parameters.Y parameters.Z
      planning.theta planning.expConfig.memoryReq
  else
    gainMvs A n m planning.nodes.length planning.eMax parameters.X parameters.Y parameters.Z
      planning.theta planning.expConfig.memoryReq

-- One pass through the body of the two search loops.
def visitPair (search : AllocationSearch K) (pair : Nat × Int) :
    Except PlanningError (AllocationSearch K) :=
  let (n, m) := pair
  let offered := A.ofInt (n * m)
  if A.lt offered planning.expConfig.memoryReq || A.lt planning.pmConfig.memory offered then
    .ok search
  else do
    let gain ← planning.gain A n m
    let mExtra ← mMvs A n m planning.theta
    let listed := { search with
      searchResults := search.searchResults ++ [(n, m, mExtra, gain)] }
    if 0 < planning.fixed.fixedVmNum ∧ n ≠ planning.fixed.fixedVmNum then return listed
    else if 0 < planning.fixed.fixedM ∧ m ≠ planning.fixed.fixedM then return listed
    else if A.lt search.maxGain gain then
      return { listed with maxGain := gain, nOpt := n, mOpt := m, mExtraOpt := mExtra }
    else return listed

def searchPairs (search : AllocationSearch K) : Except PlanningError (AllocationSearch K) :=
  (List.range' 1 (planning.pmConfig.coreNum - 1)).foldlM (fun search n =>
    planning.pmConfig.parameters.thetaMTable.keys.foldlM (fun search m =>
      planning.visitPair A search (n, m)) search) search

-- `get_optimal_vm_allocation_for_pm` after the data of the sub-graph.
def getOptimalVmAllocationForPm : Except PlanningError (List (SearchResult K) × VmAlloc) := do
  let nOpt : Nat := 1
  let mOpt : Int := 8
  let mExtraOpt ← mMvs A nOpt mOpt planning.theta
  let search ← planning.searchPairs A ⟨[], nOpt, mOpt, mExtraOpt, A.ofInt (-1)⟩
  let vcpuNumOpt := min 8 (planning.pmConfig.coreNum / search.nOpt)
  return (search.searchResults, search.nOpt, search.mOpt, vcpuNumOpt)

end VmPlanning

structure VmExperiment (K : Type) where
  pmid2nodes : Dict Nat (List NodeName)
  eMaxData : Nat → Dict Nat K
  pmConfigList : List (PmConfig K)
  expConfig : ExpConfig K
  fixed : FixedOptions

def VmExperiment.planning? (experiment : VmExperiment K) (pmid : Nat) : Option (VmPlanning K) := do
  let nodes ← experiment.pmid2nodes.get? pmid
  let pmConfig ← experiment.pmConfigList[pmid]?
  return ⟨nodes, experiment.eMaxData pmid, pmConfig, experiment.expConfig, experiment.fixed⟩

def computeVmAllocation (experiment : VmExperiment K) (pmid : Nat) :
    Except PlanningError (Nat × List (SearchResult K) × VmAlloc × Bool) := do
  let planning ← orRaise .keyError (experiment.planning? pmid)
  let (searchResults, optimalResult) ← planning.getOptimalVmAllocationForPm A
  let legal := decide ((optimalResult.1 : Int) ≤ planning.pmConfig.maxVMNum)
  return (pmid, searchResults, optimalResult, legal)

structure VmAllocations (K : Type) where
  pmid2searchResults : Dict Nat (List (SearchResult K))
  pmid2vmalloc : Dict Nat VmAlloc
  nOptLegal : Dict Nat Bool

def getOptimalVmAllocationForAllPms (experiment : VmExperiment K) :
    Except PlanningError (VmAllocations K) := do
  let results ← experiment.pmid2nodes.keys.mapM (computeVmAllocation A experiment)
  return {
    pmid2searchResults := Dict.ofEntries (results.map fun result => (result.1, result.2.1))
    pmid2vmalloc := Dict.ofEntries (results.map fun result => (result.1, result.2.2.1))
    nOptLegal := Dict.ofEntries (results.map fun result => (result.1, result.2.2.2)) }

-- `all(n_opt_legal.values())`, behind which `one_test` goes on.
def VmAllocations.legal (allocations : VmAllocations K) : Bool :=
  allocations.nOptLegal.values.all id

end Model

section Operators

variable {K : Type} {A : Arithmetic K}

theorem orRaise_eq_ok {α : Type} {error : PlanningError} {value : Option α} {result : α} :
    orRaise error value = .ok result ↔ value = some result := by
  cases value <;> simp [orRaise]

theorem divide_eq_ok {a b c : K} :
    divide A a b = .ok c ↔ A.isZero b ≠ true ∧ A.quotient a b = some c := by
  unfold divide
  split
  next zero => simp [zero]
  next notZero => simp [orRaise_eq_ok, notZero]

theorem squareRoot_eq_ok {a c : K} :
    squareRoot A a = .ok c ↔ A.lt a (A.ofInt 0) = false ∧ A.sqrt a = some c := by
  unfold squareRoot
  split
  next below => simp [below]
  next notBelow => simp [orRaise_eq_ok, notBelow]

end Operators

namespace VmPlanning

section Search

variable {K : Type} (A : Arithmetic K) (planning : VmPlanning K)

-- What the loop body does not skip.
def InWindow (pair : Nat × Int) : Prop :=
  A.lt (A.ofInt (pair.1 * pair.2)) planning.expConfig.memoryReq = false ∧
    A.lt planning.pmConfig.memory (A.ofInt (pair.1 * pair.2)) = false

def MeetsFixed (pair : Nat × Int) : Prop :=
  (0 < planning.fixed.fixedVmNum → pair.1 = planning.fixed.fixedVmNum) ∧
    (0 < planning.fixed.fixedM → pair.2 = planning.fixed.fixedM)

instance (pair : Nat × Int) : Decidable (planning.InWindow A pair) :=
  inferInstanceAs (Decidable (_ ∧ _))

instance (pair : Nat × Int) : Decidable (planning.MeetsFixed pair) :=
  inferInstanceAs (Decidable (_ ∧ _))

def pairs : List (Nat × Int) :=
  (List.range' 1 (planning.pmConfig.coreNum - 1)).flatMap fun n =>
    planning.pmConfig.parameters.thetaMTable.keys.map fun m => (n, m)

structure Feasible (pair : Nat × Int) : Prop where
  positive : 1 ≤ pair.1
  belowCores : pair.1 < planning.pmConfig.coreNum
  listed : pair.2 ∈ planning.pmConfig.parameters.thetaMTable.keys
  inWindow : planning.InWindow A pair
  meetsFixed : planning.MeetsFixed pair

def candidates : List (Nat × Int) :=
  planning.pairs.filter fun pair => planning.InWindow A pair ∧ planning.MeetsFixed pair

def Raises (pair : Nat × Int) (error : PlanningError) : Prop :=
  planning.InWindow A pair ∧ planning.gain A pair.1 pair.2 = .error error

def gainValue (pair : Nat × Int) : K := (planning.gain A pair.1 pair.2).toOption.getD (A.ofInt 0)

variable {planning} {A}

theorem mem_pairs {pair : Nat × Int} : pair ∈ planning.pairs ↔
    (1 ≤ pair.1 ∧ pair.1 < planning.pmConfig.coreNum) ∧
      pair.2 ∈ planning.pmConfig.parameters.thetaMTable.keys := by
  obtain ⟨n, m⟩ := pair
  simp only [pairs, List.mem_flatMap, List.mem_range'_1, List.mem_map, Prod.mk.injEq]
  constructor
  · intro ⟨n', range, m', listed, sameN, sameM⟩
    subst sameN sameM
    exact ⟨by omega, listed⟩
  · intro ⟨range, listed⟩
    exact ⟨n, by omega, m, listed, rfl, rfl⟩

theorem mem_candidates {pair : Nat × Int} :
    pair ∈ planning.candidates A ↔ planning.Feasible A pair := by
  simp only [candidates, List.mem_filter, mem_pairs, decide_eq_true_eq]
  constructor
  · intro ⟨⟨range, listed⟩, inWindow, meetsFixed⟩
    exact ⟨range.1, range.2, listed, inWindow, meetsFixed⟩
  · intro feasible
    exact ⟨⟨⟨feasible.positive, feasible.belowCores⟩, feasible.listed⟩,
      feasible.inWindow, feasible.meetsFixed⟩

theorem candidates_sorted : (planning.candidates A).Pairwise fun p q => p.1 ≤ q.1 := by
  apply List.Pairwise.filter
  rw [pairs, List.pairwise_flatMap]
  constructor
  · intro n _
    rw [List.pairwise_map]
    exact List.pairwise_of_forall fun _ _ => le_refl n
  · apply (List.pairwise_lt_range' (s := 1)).imp
    intro n n' less p first q second
    have ⟨m, _, sameP⟩ := List.mem_map.mp first
    have ⟨m', _, sameQ⟩ := List.mem_map.mp second
    subst sameP sameQ
    exact le_of_lt less

theorem searchPairs_eq (search : AllocationSearch K) :
    planning.searchPairs A search = planning.pairs.foldlM (planning.visitPair A) search :=
  foldlM_pairs (planning.visitPair A) _ _ search

-- `T_mvs` or `T_sn`, whichever the gain is computed from.
def cost (A : Arithmetic K) (planning : VmPlanning K) (n : Nat) : Except PlanningError K :=
  let parameters := planning.pmConfig.parameters
  if planning.fixed.fixedBbnsNum = 0 then
    tSn A n planning.nodes.length planning.eMax parameters.X parameters.Y parameters.Z
  else
    tMvs A n planning.nodes.length planning.eMax parameters.X parameters.Y parameters.Z

theorem gain_eq (n : Nat) (m : Int) : planning.gain A n m =
    gainOf A (planning.cost A) n m planning.theta planning.expConfig.memoryReq := by
  unfold gain cost gainSn gainMvs
  split <;> rfl

theorem memory_of_gain {n : Nat} {m : Int} {gain : K} (found : planning.gain A n m = .ok gain) :
    ∃ memory, mMvs A n m planning.theta = .ok memory := by
  rw [gain_eq] at found
  have ⟨_, _, afterFirst⟩ := bind_eq_ok.mp found
  have ⟨_, _, afterSplit⟩ := bind_eq_ok.mp afterFirst
  have ⟨_, _, afterSaved⟩ := bind_eq_ok.mp afterSplit
  have ⟨_, _, afterNumerator⟩ := bind_eq_ok.mp afterSaved
  have ⟨memory, computed, _⟩ := bind_eq_ok.mp afterNumerator
  exact ⟨memory, computed⟩

theorem visitPair_outside {pair : Nat × Int} (outside : ¬ planning.InWindow A pair)
    (search : AllocationSearch K) : planning.visitPair A search pair = .ok search := by
  obtain ⟨n, m⟩ := pair
  rw [visitPair]
  apply if_pos
  rw [InWindow, Classical.not_and_iff_not_or_not] at outside
  simpa using outside

theorem visitPair_inside {n : Nat} {m : Int} (inWindow : planning.InWindow A (n, m))
    (search : AllocationSearch K) : planning.visitPair A search (n, m) = (do
      let gain ← planning.gain A n m
      let mExtra ← mMvs A n m planning.theta
      let listed := { search with
        searchResults := search.searchResults ++ [(n, m, mExtra, gain)] }
      if planning.MeetsFixed (n, m) ∧ A.lt search.maxGain gain then
        return { listed with maxGain := gain, nOpt := n, mOpt := m, mExtraOpt := mExtra }
      else return listed) := by
  have kept : ¬ (A.lt (A.ofInt (n * m)) planning.expConfig.memoryReq ||
      A.lt planning.pmConfig.memory (A.ofInt (n * m))) = true := by
    simpa using And.intro inWindow.1 inWindow.2
  rw [visitPair, if_neg kept]
  congr 1
  funext gain
  congr 1
  funext mExtra
  by_cases otherN : 0 < planning.fixed.fixedVmNum ∧ n ≠ planning.fixed.fixedVmNum
  next =>
    have unmet : ¬ planning.MeetsFixed (n, m) := fun meets => otherN.2 (meets.1 otherN.1)
    simp [otherN, unmet]
  next =>
    by_cases otherM : 0 < planning.fixed.fixedM ∧ m ≠ planning.fixed.fixedM
    next =>
      have unmet : ¬ planning.MeetsFixed (n, m) := fun meets => otherM.2 (meets.2 otherM.1)
      simp [otherN, otherM, unmet]
    next =>
      have meets : planning.MeetsFixed (n, m) := by
        simp only [not_and, not_not] at otherN otherM
        exact ⟨otherN, otherM⟩
      simp only [if_neg otherN, if_neg otherM, meets, true_and]

theorem visitPair_error {search : AllocationSearch K} {pair : Nat × Int} {raised : PlanningError} :
    planning.visitPair A search pair = .error raised ↔ planning.Raises A pair raised := by
  unfold Raises
  obtain ⟨n, m⟩ := pair
  by_cases inWindow : planning.InWindow A (n, m)
  next =>
    rw [visitPair_inside inWindow]
    cases found : planning.gain A n m with
    | error other => simp [inWindow, bind, Except.bind]
    | ok gain =>
      have ⟨memory, computed⟩ := memory_of_gain found
      simp only [computed, bind, Except.bind, pure, Except.pure, reduceCtorEq, and_false,
        iff_false]
      split <;> simp
  next => simp [visitPair_outside inWindow, inWindow]

theorem visitPair_best {search next : AllocationSearch K} {pair : Nat × Int}
    (run : planning.visitPair A search pair = .ok next) :
    (next.nOpt, next.mOpt, next.maxGain) =
      if (planning.InWindow A pair ∧ planning.MeetsFixed pair) ∧
          A.lt search.maxGain (planning.gainValue A pair) then
        (pair.1, pair.2, planning.gainValue A pair)
      else (search.nOpt, search.mOpt, search.maxGain) := by
  obtain ⟨n, m⟩ := pair
  by_cases inWindow : planning.InWindow A (n, m)
  next =>
    rw [visitPair_inside inWindow] at run
    have ⟨gain, found, later⟩ := bind_eq_ok.mp run
    have ⟨mExtra, _, last⟩ := bind_eq_ok.mp later
    have value : planning.gainValue A (n, m) = gain := by
      simp [gainValue, found, Except.toOption]
    simp only [value, inWindow, true_and]
    split at last
    next chosen =>
      cases last
      rw [if_pos chosen]
    next passed =>
      cases last
      rw [if_neg passed]
  next =>
    rw [visitPair_outside inWindow] at run
    cases run
    simp [inWindow]

/-- The search has kept the first best of the admissible pairs it has seen, or its default. -/
def Tracks (A : Arithmetic K) (planning : VmPlanning K) (seen : List (Nat × Int))
    (search : AllocationSearch K) : Prop :=
  ∃ winner, (search.nOpt, search.mOpt) = winner.getD (1, 8) ∧
    Scanned A.lt (planning.gainValue A) (A.ofInt (-1))
      (seen.filter fun pair => planning.InWindow A pair ∧ planning.MeetsFixed pair)
      (winner, search.maxGain)

theorem Tracks.visit {seen : List (Nat × Int)} {search next : AllocationSearch K}
    {pair : Nat × Int} (tracks : Tracks A planning seen search)
    (run : planning.visitPair A search pair = .ok next) :
    Tracks A planning (seen ++ [pair]) next := by
  have ⟨winner, chosen, scanned⟩ := tracks
  have best := visitPair_best run
  by_cases admissible : planning.InWindow A pair ∧ planning.MeetsFixed pair
  next =>
    have stepped := scanned.step A.compares pair
    simp only [RunningMax.step] at stepped
    cases larger : A.lt search.maxGain (planning.gainValue A pair)
    case true =>
      simp only [admissible, larger, and_self, if_true, Prod.mk.injEq] at best stepped
      obtain ⟨sameN, sameM, sameGain⟩ := best
      refine ⟨some pair, by simp [sameN, sameM], ?_⟩
      simpa [List.filter_append, admissible, sameGain] using stepped
    case false =>
      simp only [larger, Bool.false_eq_true, and_false, if_false, Prod.mk.injEq] at best stepped
      obtain ⟨sameN, sameM, sameGain⟩ := best
      refine ⟨winner, by rw [sameN, sameM, chosen], ?_⟩
      simpa [List.filter_append, admissible, sameGain] using stepped
  next =>
    simp only [admissible, false_and, if_false, Prod.mk.injEq] at best
    obtain ⟨sameN, sameM, sameGain⟩ := best
    refine ⟨winner, by rw [sameN, sameM, chosen], ?_⟩
    simpa [List.filter_append, admissible, sameGain] using scanned

theorem Tracks.run {seen rest : List (Nat × Int)} {search final : AllocationSearch K}
    (tracks : Tracks A planning seen search)
    (run : rest.foldlM (planning.visitPair A) search = .ok final) :
    Tracks A planning (seen ++ rest) final := by
  induction rest generalizing seen search with
  | nil =>
    cases run
    simpa using tracks
  | cons pair rest ih =>
    rw [List.foldlM_cons] at run
    have ⟨next, visited, later⟩ := bind_eq_ok.mp run
    simpa using ih (tracks.visit visited) later

theorem foldlM_visitPair_error {search : AllocationSearch K} {rest : List (Nat × Int)}
    {raised : PlanningError} : rest.foldlM (planning.visitPair A) search = .error raised ↔
      ∃ before pair after, rest = before ++ pair :: after ∧
        (∀ earlier ∈ before, ∀ error, ¬ planning.Raises A earlier error) ∧
        planning.Raises A pair raised :=
  foldlM_eq_error fun _ _ _ => visitPair_error

structure Completes (A : Arithmetic K) (planning : VmPlanning K) : Prop where
  start : ∃ mExtraOpt, mMvs A 1 8 planning.theta = .ok mExtraOpt
  gains : ∀ pair ∈ planning.pairs, ∀ error, ¬ planning.Raises A pair error

inductive Optimum (A : Arithmetic K) (planning : VmPlanning K) : Nat × Int → Prop where
  | default (low : ∀ pair, planning.Feasible A pair →
      A.lt (A.ofInt (-1)) (planning.gainValue A pair) = false) : Optimum A planning (1, 8)
  | best {pair : Nat × Int}
      (first : FirstMax A.lt (planning.gainValue A) (A.ofInt (-1)) (planning.candidates A) pair) :
      Optimum A planning pair

theorem getOptimalVmAllocationForPm_spec {results : List (SearchResult K)} {n vcpu : Nat} {m : Int}
    (run : planning.getOptimalVmAllocationForPm A = .ok (results, n, m, vcpu)) :
    Optimum A planning (n, m) ∧ vcpu = min 8 (planning.pmConfig.coreNum / n) := by
  obtain ⟨mExtraOpt, _, searching⟩ := bind_eq_ok.mp run
  obtain ⟨search, searched, answer⟩ := bind_eq_ok.mp searching
  rw [searchPairs_eq] at searched
  cases answer
  refine ⟨?_, rfl⟩
  have start : Tracks A planning [] ⟨[], 1, 8, mExtraOpt, A.ofInt (-1)⟩ :=
    ⟨none, rfl, Scanned.start _ _ _⟩
  have ⟨winner, chosen, scanned⟩ := start.run searched
  rw [chosen]
  generalize state : (winner, search.maxGain) = found at scanned
  cases scanned with
  | nothing low =>
    cases (Prod.mk.inj state).1
    exact .default fun pair feasible => low pair (mem_candidates.mpr feasible)
  | found best =>
    cases (Prod.mk.inj state).1
    exact .best best

theorem getOptimalVmAllocationForPm_completes :
    (∃ answer, planning.getOptimalVmAllocationForPm A = .ok answer) ↔ planning.Completes A := by
  constructor
  · intro ⟨answer, run⟩
    obtain ⟨mExtraOpt, start, searching⟩ := bind_eq_ok.mp run
    obtain ⟨search, searched, _⟩ := bind_eq_ok.mp searching
    rw [searchPairs_eq] at searched
    exact ⟨⟨mExtraOpt, start⟩, (foldlM_eq_ok fun _ _ _ => visitPair_error).mp ⟨search, searched⟩⟩
  · intro ⟨⟨mExtraOpt, start⟩, gains⟩
    obtain ⟨search, searched⟩ := (foldlM_eq_ok fun _ _ _ => visitPair_error).mpr gains
    refine ⟨_, bind_eq_ok.mpr ⟨mExtraOpt, start, bind_eq_ok.mpr ⟨search, ?_, rfl⟩⟩⟩
    rw [searchPairs_eq, searched]

end Search

section Gate

variable {K : Type} {A : Arithmetic K} {planning : VmPlanning K}

/-- The demands of the configuration on the allocation of one machine. -/
structure AllocationFits (A : Arithmetic K) (planning : VmPlanning K) (vmAlloc : VmAlloc) :
    Prop where
  memoryReq : A.le planning.expConfig.memoryReq (A.ofInt (vmAlloc.1 * vmAlloc.2.1)) = true
  memory : A.le (A.ofInt (vmAlloc.1 * vmAlloc.2.1)) planning.pmConfig.memory = true
  positive : 1 ≤ vmAlloc.1
  maxVMNum : (vmAlloc.1 : Int) ≤ planning.pmConfig.maxVMNum
  coreNum : vmAlloc.1 * vmAlloc.2.2 ≤ planning.pmConfig.coreNum
  fixedVmNum : 0 < planning.fixed.fixedVmNum → vmAlloc.1 = planning.fixed.fixedVmNum
  fixedM : 0 < planning.fixed.fixedM → vmAlloc.2.1 = planning.fixed.fixedM

def HasGain (A : Arithmetic K) (planning : VmPlanning K) : Prop :=
  ∃ pair, planning.Feasible A pair ∧ A.lt (A.ofInt (-1)) (planning.gainValue A pair) = true

/-- One machine of 8 GB is within the window and the fixed options. -/
def DefaultFits (A : Arithmetic K) (planning : VmPlanning K) : Prop :=
  planning.InWindow A (1, 8) ∧ planning.MeetsFixed (1, 8)

-- Both ends of the window are numbers; with a nan the loop body skips nothing.
def HasWindow (A : Arithmetic K) (planning : VmPlanning K) : Prop :=
  A.IsNumber planning.expConfig.memoryReq ∧ A.IsNumber planning.pmConfig.memory

/-- Some number of machines above the maximum gains more than every allowed one. -/
def GateStops (A : Arithmetic K) (planning : VmPlanning K) : Prop :=
  (∃ pair, planning.Feasible A pair ∧ planning.pmConfig.maxVMNum < pair.1 ∧
    A.lt (A.ofInt (-1)) (planning.gainValue A pair) = true ∧
    ∀ other, planning.Feasible A other → (other.1 : Int) ≤ planning.pmConfig.maxVMNum →
      A.lt (A.ofInt (-1)) (planning.gainValue A other) = true →
      A.lt (planning.gainValue A other) (planning.gainValue A pair) = true) ∨
  ¬ planning.HasGain A ∧ planning.pmConfig.maxVMNum < 1

theorem not_hasGain : ¬ planning.HasGain A ↔ ∀ pair, planning.Feasible A pair →
    A.lt (A.ofInt (-1)) (planning.gainValue A pair) = false := by
  simp [HasGain]

theorem Optimum.gateStops_iff {n : Nat} {m : Int} (optimum : Optimum A planning (n, m)) :
    planning.pmConfig.maxVMNum < n ↔ planning.GateStops A := by
  cases optimum with
  | default low =>
    constructor
    · exact fun few => .inr ⟨not_hasGain.mpr low, few⟩
    · intro stops
      rcases stops with ⟨pair, feasible, _, gains, _⟩ | ⟨_, few⟩
      · simp [low pair feasible] at gains
      · exact few
  | best first =>
    have feasible := mem_candidates.mp first.mem
    constructor
    · intro many
      refine .inl ⟨(n, m), feasible, many, first.above, ?_⟩
      intro other otherFeasible few gains
      have ⟨before, after, whole, earlier, _⟩ := first.first
      have member := mem_candidates.mpr otherFeasible
      have sorted : (planning.candidates A).Pairwise fun p q => p.1 ≤ q.1 := candidates_sorted
      rw [whole, List.mem_append, List.mem_cons] at member
      rw [whole, List.pairwise_append, List.pairwise_cons] at sorted
      rcases member with early | rfl | late
      · exact earlier other early gains
      · exact absurd few (not_le.mpr many)
      · have order := sorted.2.1.1 other late
        omega
    · intro stops
      rcases stops with ⟨pair, pairFeasible, _, _, beats⟩ | ⟨none, _⟩
      · by_contra few
        have less := beats (n, m) feasible (not_lt.mp few) first.above
        simp [first.not_lt A.compares (mem_candidates.mpr pairFeasible)] at less
      · exact absurd ⟨(n, m), feasible, first.above⟩ none

theorem InWindow.bounds {pair : Nat × Int} (inWindow : planning.InWindow A pair)
    (window : planning.HasWindow A) :
    A.le planning.expConfig.memoryReq (A.ofInt (pair.1 * pair.2)) = true ∧
      A.le (A.ofInt (pair.1 * pair.2)) planning.pmConfig.memory = true :=
  ⟨(A.le_iff _ _).mpr ⟨window.1, A.ofInt_le _, inWindow.1⟩,
    (A.le_iff _ _).mpr ⟨A.ofInt_le _, window.2, inWindow.2⟩⟩

theorem Optimum.fits_iff {n : Nat} {m : Int} (optimum : Optimum A planning (n, m))
    (few : (n : Int) ≤ planning.pmConfig.maxVMNum) :
    AllocationFits A planning (n, m, min 8 (planning.pmConfig.coreNum / n)) ↔
      planning.HasWindow A ∧ (planning.HasGain A ∨ planning.DefaultFits A) := by
  have cores : n * min 8 (planning.pmConfig.coreNum / n) ≤ planning.pmConfig.coreNum :=
    (Nat.mul_le_mul_left n (Nat.min_le_right _ _)).trans (Nat.mul_div_le _ n)
  have window (fits : AllocationFits A planning (n, m, min 8 (planning.pmConfig.coreNum / n))) :
      planning.HasWindow A ∧ planning.InWindow A (n, m) :=
    have required := (A.le_iff _ _).mp fits.memoryReq
    have offered := (A.le_iff _ _).mp fits.memory
    ⟨⟨required.1, offered.2.1⟩, required.2.2, offered.2.2⟩
  cases optimum with
  | default low =>
    constructor
    · intro fits
      exact ⟨(window fits).1, .inr ⟨(window fits).2, fits.fixedVmNum, fits.fixedM⟩⟩
    · intro ⟨hasWindow, holds⟩
      have ⟨inWindow, meetsFixed⟩ := holds.resolve_left (not_hasGain.mpr low)
      have bounds := inWindow.bounds hasWindow
      exact ⟨bounds.1, bounds.2, le_refl 1, few, cores, meetsFixed.1, meetsFixed.2⟩
  | best first =>
    have feasible := mem_candidates.mp first.mem
    constructor
    · exact fun fits => ⟨(window fits).1, .inl ⟨(n, m), feasible, first.above⟩⟩
    · intro ⟨hasWindow, _⟩
      have bounds := feasible.inWindow.bounds hasWindow
      exact ⟨bounds.1, bounds.2, feasible.positive, few, cores, feasible.meetsFixed.1,
        feasible.meetsFixed.2⟩

end Gate

section Gains

variable {planning : VmPlanning ℝ} {n : Nat} {m : Int}

section Exact

variable (a b : ℝ)

@[simp] theorem plus_real : plus .real a b = .ok (a + b) := rfl

@[simp] theorem minus_real : minus .real a b = .ok (a - b) := rfl

@[simp] theorem times_real : times .real a b = .ok (a * b) := rfl

theorem divide_real {b : ℝ} (divisor : b ≠ 0) : divide .real a b = .ok (a / b) := by
  simp [divide, divisor, orRaise]

theorem squareRoot_real {a : ℝ} (radicand : 0 ≤ a) : squareRoot .real a = .ok √a := by
  simp [squareRoot, not_lt.mpr radicand, orRaise]

end Exact

structure PositiveData (planning : VmPlanning ℝ) : Prop where
  X : 0 < planning.pmConfig.parameters.X
  Y : 0 < planning.pmConfig.parameters.Y
  Z : 0 < planning.pmConfig.parameters.Z
  theta : ∀ m thetaM, planning.theta m = .ok thetaM → 0 < thetaM
  eight : (8 : Int) ∈ planning.pmConfig.parameters.thetaMTable.keys
  memoryReq : 0 < planning.expConfig.memoryReq
  eMaxOne : ∃ eMaxN, planning.eMaxData.get? 1 = some eMaxN ∧ 0 < eMaxN
  eMax : ∀ n, 1 ≤ n → n ≤ planning.pmConfig.coreNum → ∃ eMaxN,
    planning.eMaxData.get? n = some eMaxN ∧ 0 ≤ eMaxN

theorem theta_found {m : Int} (keyed : m ∈ planning.pmConfig.parameters.thetaMTable.keys) :
    ∃ thetaM, planning.theta m = .ok thetaM := by
  obtain ⟨thetaM, stored⟩ := Dict.exists_get? _ keyed
  exact ⟨thetaM, by rw [VmPlanning.theta, stored]; rfl⟩

theorem mMvs_real {thetaM : ℝ} (stored : planning.theta m = .ok thetaM) :
    mMvs .real n m planning.theta = .ok (n * thetaM) := by
  rw [mMvs, stored]
  rfl

theorem linkCost_real {V : Nat} (positive : 1 ≤ n) (X Z : ℝ) :
    linkCost .real n V X Z = .ok ((V : ℝ) / n * X + Z) := by
  have divisor : (n : ℝ) ≠ 0 := by positivity
  have share : divide .real ((V : Int) : ℝ) ((n : Int) : ℝ) = .ok ((V : ℝ) / n) := by
    simpa using divide_real (V : ℝ) divisor
  rw [linkCost, Arithmetic.real_ofInt, Arithmetic.real_ofInt, share]
  rfl

theorem cost_found (X : 0 < planning.pmConfig.parameters.X)
    (Y : 0 < planning.pmConfig.parameters.Y) (Z : 0 < planning.pmConfig.parameters.Z)
    (positive : 1 ≤ n) {eMaxN : ℝ} (stored : planning.eMaxData.get? n = some eMaxN)
    (nonneg : 0 ≤ eMaxN) :
    ∃ t, planning.cost .real n = .ok t ∧ (0 < eMaxN → 0 < t) := by
  have found : planning.eMax n = .ok eMaxN := by rw [VmPlanning.eMax, stored]; rfl
  have share : 0 ≤ (planning.nodes.length : ℝ) / n := by positivity
  have linear : 0 < (planning.nodes.length : ℝ) / n * planning.pmConfig.parameters.X +
      planning.pmConfig.parameters.Z :=
    add_pos_of_nonneg_of_pos (mul_nonneg share X.le) Z
  have quadratic : 0 ≤ eMaxN * eMaxN * planning.pmConfig.parameters.Y / 2 := by positivity
  have radicand : 0 ≤ 2 * eMaxN * planning.pmConfig.parameters.X *
      planning.pmConfig.parameters.Y := by positivity
  have bend := mul_nonneg nonneg (Real.sqrt_nonneg
    (2 * eMaxN * planning.pmConfig.parameters.X * planning.pmConfig.parameters.Y))
  unfold cost
  split
  next =>
    refine ⟨_, ?_, fun large => add_pos_of_pos_of_nonneg (mul_pos large linear) bend⟩
    simp only [tSn, found, linkCost_real positive, bind, Except.bind, times_real, plus_real,
      Arithmetic.real_ofInt, Int.cast_ofNat, squareRoot_real radicand]
  next =>
    refine ⟨_, ?_, fun large => add_pos_of_pos_of_nonneg (mul_pos large linear) quadratic⟩
    simp only [tMvs, found, linkCost_real positive, bind, Except.bind, times_real, plus_real,
      Arithmetic.real_ofInt, Int.cast_ofNat, divide_real _ (two_ne_zero' ℝ)]

/-- The cost grows by less than the share of memory that the split adds. -/
def LowCost (planning : VmPlanning ℝ) (pair : Nat × Int) : Prop :=
  ∃ first split thetaM, planning.cost .real 1 = .ok first ∧
    planning.cost .real pair.1 = .ok split ∧ planning.theta pair.2 = .ok thetaM ∧
    split < first * (1 + pair.1 * thetaM / planning.expConfig.memoryReq)

theorem PositiveData.gain_found (data : planning.PositiveData) {pair : Nat × Int}
    (listed : pair ∈ planning.pairs) :
    planning.gain .real pair.1 pair.2 = .ok (planning.gainValue .real pair) ∧
      (-1 < planning.gainValue .real pair ↔ planning.LowCost pair) := by
  obtain ⟨⟨positive, below⟩, keyed⟩ := mem_pairs.mp listed
  obtain ⟨eMaxOne, storedOne, largeOne⟩ := data.eMaxOne
  obtain ⟨eMaxN, storedN, nonnegN⟩ := data.eMax pair.1 positive below.le
  obtain ⟨first, foundFirst, positiveFirst⟩ :=
    cost_found data.X data.Y data.Z (le_refl 1) storedOne largeOne.le
  obtain ⟨split, foundSplit, _⟩ := cost_found data.X data.Y data.Z positive storedN nonnegN
  obtain ⟨thetaM, stored⟩ := theta_found keyed
  have firstPos := positiveFirst largeOne
  have thetaPos := data.theta pair.2 thetaM stored
  have required := data.memoryReq
  have number : (0 : ℝ) < pair.1 := by exact_mod_cast positive
  let dominator := pair.1 * thetaM / planning.expConfig.memoryReq
  have dominatorPos : 0 < dominator := by positivity
  have found : planning.gain .real pair.1 pair.2 = .ok ((first - split) / first / dominator) := by
    simp only [gain_eq, gainOf, foundFirst, foundSplit, mMvs_real stored, bind, Except.bind,
      minus_real, divide_real _ firstPos.ne', divide_real _ required.ne']
    exact divide_real _ dominatorPos.ne'
  have value : planning.gainValue .real pair = (first - split) / first / dominator := by
    simp [gainValue, found, Except.toOption]
  have bound : -1 < (first - split) / first / dominator ↔ split < first * (1 + dominator) := by
    rw [lt_div_iff₀ dominatorPos, lt_div_iff₀ firstPos]
    constructor <;> intro less <;> linarith
  rw [value, bound]
  refine ⟨found, ?_⟩
  constructor
  · exact fun less => ⟨first, split, thetaM, foundFirst, foundSplit, stored, less⟩
  · rintro ⟨first', split', theta', sameFirst, sameSplit, sameTheta, less⟩
    cases Except.ok.inj (foundFirst.symm.trans sameFirst)
    cases Except.ok.inj (foundSplit.symm.trans sameSplit)
    cases Except.ok.inj (stored.symm.trans sameTheta)
    exact less

theorem PositiveData.completes (data : planning.PositiveData) : planning.Completes .real where
  start := have ⟨thetaM, stored⟩ := theta_found data.eight
    ⟨_, mMvs_real stored⟩
  gains pair listed error raised := by
    rw [Raises, (data.gain_found listed).1] at raised
    cases raised.2

theorem PositiveData.lowCost_iff (data : planning.PositiveData) {pair : Nat × Int}
    (feasible : planning.Feasible .real pair) :
    -1 < planning.gainValue .real pair ↔ planning.LowCost pair :=
  (data.gain_found (mem_pairs.mpr
    ⟨⟨feasible.positive, feasible.belowCores⟩, feasible.listed⟩)).2

structure BestFeasible (planning : VmPlanning ℝ) (pair : Nat × Int) : Prop where
  feasible : planning.Feasible .real pair
  best : ∃ gain, planning.gain .real pair.1 pair.2 = .ok gain ∧
    ∀ other, planning.Feasible .real other →
      ∃ otherGain, planning.gain .real other.1 other.2 = .ok otherGain ∧ otherGain ≤ gain

theorem PositiveData.gain_eq_ok (data : planning.PositiveData) {pair : Nat × Int}
    (feasible : planning.Feasible .real pair) : planning.gain .real pair.1 pair.2 =
      .ok (planning.gainValue .real pair) :=
  (data.gain_found (mem_pairs.mpr
    ⟨⟨feasible.positive, feasible.belowCores⟩, feasible.listed⟩)).1

-- Without a gain above the start value the default is answered, whose own gain would be 0.
theorem PositiveData.default_not_feasible (data : planning.PositiveData)
    (low : ∀ pair, planning.Feasible .real pair → planning.gainValue .real pair ≤ -1) :
    ¬ planning.Feasible .real (1, 8) := by
  intro feasible
  have costly := (not_congr (data.lowCost_iff feasible)).mp (not_lt.mpr (low _ feasible))
  have ⟨eMaxOne, storedOne, largeOne⟩ := data.eMaxOne
  have ⟨first, found, positiveFirst⟩ :=
    cost_found data.X data.Y data.Z (le_refl 1) storedOne largeOne.le
  have ⟨thetaM, stored⟩ := theta_found data.eight
  have thetaPos := data.theta 8 thetaM stored
  have required := data.memoryReq
  have firstPos := positiveFirst largeOne
  have share : 0 < first * ((1 : Nat) * thetaM / planning.expConfig.memoryReq) := by positivity
  exact costly ⟨first, first, thetaM, found, found, stored, by linarith⟩

theorem PositiveData.exists_lowCost (data : planning.PositiveData)
    (run : ∃ results n m vcpu, planning.getOptimalVmAllocationForPm .real =
      .ok (results, n, m, vcpu) ∧ planning.BestFeasible (n, m)) :
    ∃ pair, planning.Feasible .real pair ∧ planning.LowCost pair := by
  have ⟨results, n, m, vcpu, searched, best⟩ := run
  cases (getOptimalVmAllocationForPm_spec searched).1 with
  | default low =>
    exact absurd best.feasible
      (data.default_not_feasible fun pair feasible => by simpa using low pair feasible)
  | best first =>
    exact ⟨(n, m), best.feasible,
      (data.lowCost_iff best.feasible).mp (by simpa using first.above)⟩

end Gains

end VmPlanning

section AllPms

variable {K : Type} {A : Arithmetic K} {experiment : VmExperiment K}

theorem computeVmAllocation_eq_ok {pmid : Nat}
    {result : Nat × List (SearchResult K) × VmAlloc × Bool} :
    computeVmAllocation A experiment pmid = .ok result ↔
      ∃ planning results vmAlloc, experiment.planning? pmid = some planning ∧
        planning.getOptimalVmAllocationForPm A = .ok (results, vmAlloc) ∧
        (pmid, results, vmAlloc, decide ((vmAlloc.1 : Int) ≤ planning.pmConfig.maxVMNum)) =
          result := by
  simp only [computeVmAllocation, bind_eq_ok, orRaise_eq_ok]
  constructor
  · intro ⟨planning, planned, ⟨results, vmAlloc⟩, run, same⟩
    exact ⟨planning, results, vmAlloc, planned, run, Except.ok.inj same⟩
  · intro ⟨planning, results, vmAlloc, planned, run, same⟩
    exact ⟨planning, planned, (results, vmAlloc), run, congrArg Except.ok same⟩

theorem getOptimalVmAllocationForAllPms_spec {allocations : VmAllocations K}
    (run : getOptimalVmAllocationForAllPms A experiment = .ok allocations) :
    allocations.nOptLegal.keys = experiment.pmid2nodes.keys ∧
    ∀ pmid ∈ experiment.pmid2nodes.keys, ∃ planning results vmAlloc,
      experiment.planning? pmid = some planning ∧
      planning.getOptimalVmAllocationForPm A = .ok (results, vmAlloc) ∧
      allocations.pmid2vmalloc.get? pmid = some vmAlloc ∧
      allocations.nOptLegal.get? pmid =
        some (decide ((vmAlloc.1 : Int) ≤ planning.pmConfig.maxVMNum)) := by
  obtain ⟨results, computed, built⟩ := bind_eq_ok.mp run
  cases built
  have same := mapM_eq_ok.mp computed
  have answered (pmid : Nat) (member : pmid ∈ experiment.pmid2nodes.keys) :
      ∃ result ∈ results, computeVmAllocation A experiment pmid = .ok result :=
    mapM_ok_each computed member
  have named : results.map Prod.fst = experiment.pmid2nodes.keys := by
    apply List.map_injective_iff.mpr (Option.some_injective Nat)
    calc (results.map Prod.fst).map some =
          (results.map (Except.ok (ε := PlanningError))).map
            fun result => result.toOption.map Prod.fst := by simp [Except.toOption]
      _ = experiment.pmid2nodes.keys.map some := by
        rw [← same, List.map_map]
        apply List.map_congr_left
        intro pmid member
        obtain ⟨result, _, found⟩ := answered pmid member
        obtain ⟨_, _, _, _, _, shape⟩ := computeVmAllocation_eq_ok.mp found
        simp [found, ← shape, Except.toOption]
  have distinct : (results.map Prod.fst).Nodup := named ▸ experiment.pmid2nodes.keys_nodup
  constructor
  · rw [Dict.keys, Dict.entries_ofEntries (by simpa [Function.comp_def] using distinct)]
    simpa [Function.comp_def] using named
  · intro pmid member
    obtain ⟨result, listed, found⟩ := answered pmid member
    obtain ⟨planning, searchResults, vmAlloc, planned, searched, shape⟩ :=
      computeVmAllocation_eq_ok.mp found
    subst shape
    refine ⟨planning, searchResults, vmAlloc, planned, searched, ?_, ?_⟩
    · rw [Dict.get?_ofEntries (by simpa [Function.comp_def] using distinct)]
      exact List.mem_map.mpr ⟨_, listed, rfl⟩
    · rw [Dict.get?_ofEntries (by simpa [Function.comp_def] using distinct)]
      exact List.mem_map.mpr ⟨_, listed, rfl⟩

theorem getOptimalVmAllocationForAllPms_completes :
    (∃ allocations, getOptimalVmAllocationForAllPms A experiment = .ok allocations) ↔
      ∀ pmid ∈ experiment.pmid2nodes.keys, ∃ planning, experiment.planning? pmid = some planning ∧
        planning.Completes A := by
  constructor
  · intro ⟨allocations, run⟩ pmid member
    have ⟨planning, _, _, planned, searched, _⟩ :=
      (getOptimalVmAllocationForAllPms_spec run).2 pmid member
    exact ⟨planning, planned, VmPlanning.getOptimalVmAllocationForPm_completes.mp ⟨_, searched⟩⟩
  · intro completes
    have ⟨results, computed⟩ := mapM_ok (f := computeVmAllocation A experiment)
      experiment.pmid2nodes.keys (by
        intro pmid member
        have ⟨planning, planned, complete⟩ := completes pmid member
        have ⟨⟨searchResults, vmAlloc⟩, searched⟩ :=
          VmPlanning.getOptimalVmAllocationForPm_completes.mpr complete
        exact ⟨_, computeVmAllocation_eq_ok.mpr
          ⟨planning, searchResults, vmAlloc, planned, searched, rfl⟩⟩)
    exact ⟨_, bind_eq_ok.mpr ⟨results, computed, rfl⟩⟩

theorem VmAllocations.legal_iff {allocations : VmAllocations K} :
    allocations.legal = true ↔
      ∀ pmid ∈ allocations.nOptLegal.keys, allocations.nOptLegal.get? pmid = some true := by
  simp only [legal, List.all_eq_true, id_eq]
  constructor
  · intro all pmid member
    obtain ⟨value, stored⟩ := allocations.nOptLegal.exists_get? member
    rw [stored, all value ((allocations.nOptLegal.mem_values value).mpr ⟨pmid, stored⟩)]
  · intro all value listed
    obtain ⟨pmid, stored⟩ := (allocations.nOptLegal.mem_values value).mp listed
    exact Option.some.inj (stored.symm.trans (all pmid (Dict.mem_keys_of_get? stored)))

def GatePasses (A : Arithmetic K) (experiment : VmExperiment K) : Prop :=
  ∀ pmid ∈ experiment.pmid2nodes.keys, ∃ planning, experiment.planning? pmid = some planning ∧
    planning.Completes A ∧ ¬ planning.GateStops A

theorem gatePasses_iff : GatePasses A experiment ↔ ∃ allocations,
    getOptimalVmAllocationForAllPms A experiment = .ok allocations ∧
      allocations.legal = true := by
  constructor
  · intro passes
    have ⟨allocations, run⟩ :=
      getOptimalVmAllocationForAllPms_completes.mpr fun pmid member =>
        have ⟨planning, planned, complete, _⟩ := passes pmid member
        ⟨planning, planned, complete⟩
    have ⟨keys, answers⟩ := getOptimalVmAllocationForAllPms_spec run
    refine ⟨allocations, run, VmAllocations.legal_iff.mpr ?_⟩
    intro pmid listed
    have member := keys ▸ listed
    have ⟨planning, planned, _, runs⟩ := passes pmid member
    have ⟨found, _, ⟨n, m, _⟩, foundPlanned, searched, _, legal⟩ := answers pmid member
    cases Option.some.inj (planned.symm.trans foundPlanned)
    have optimum := (VmPlanning.getOptimalVmAllocationForPm_spec searched).1
    rw [← optimum.gateStops_iff, not_lt] at runs
    rw [legal, decide_eq_true runs]
  · intro ⟨allocations, run, legal⟩ pmid member
    have ⟨keys, answers⟩ := getOptimalVmAllocationForAllPms_spec run
    have ⟨planning, _, ⟨n, m, _⟩, planned, searched, _, stored⟩ := answers pmid member
    have passed := VmAllocations.legal_iff.mp legal pmid (keys.symm ▸ member)
    rw [stored, Option.some.injEq, decide_eq_true_eq] at passed
    have optimum := (VmPlanning.getOptimalVmAllocationForPm_spec searched).1
    refine ⟨planning, planned,
      VmPlanning.getOptimalVmAllocationForPm_completes.mp ⟨_, searched⟩, ?_⟩
    rw [← optimum.gateStops_iff, not_lt]
    exact passed

/-- What `one_test` hands on to the machines meets their configuration. -/
def PassedAllocationsFit (A : Arithmetic K) (experiment : VmExperiment K) : Prop :=
  ∀ allocations, getOptimalVmAllocationForAllPms A experiment = .ok allocations →
    allocations.legal = true → ∀ pmid ∈ experiment.pmid2nodes.keys, ∃ planning vmAlloc,
      experiment.planning? pmid = some planning ∧
      allocations.pmid2vmalloc.get? pmid = some vmAlloc ∧
      VmPlanning.AllocationFits A planning vmAlloc

theorem PassedAllocationsFit.holds (fit : PassedAllocationsFit A experiment)
    (passes : GatePasses A experiment) :
    ∀ pmid ∈ experiment.pmid2nodes.keys, ∃ planning, experiment.planning? pmid = some planning ∧
      planning.HasWindow A ∧ (planning.HasGain A ∨ planning.DefaultFits A) := by
  intro pmid member
  have ⟨allocations, run, legal⟩ := gatePasses_iff.mp passes
  have ⟨planning, ⟨n, m, vcpu⟩, planned, given, fits⟩ := fit allocations run legal pmid member
  have ⟨found, _, _, foundPlanned, searched, stored, _⟩ :=
    (getOptimalVmAllocationForAllPms_spec run).2 pmid member
  cases Option.some.inj (planned.symm.trans foundPlanned)
  cases Option.some.inj (given.symm.trans stored)
  have ⟨optimum, sameVcpu⟩ := VmPlanning.getOptimalVmAllocationForPm_spec searched
  subst sameVcpu
  exact ⟨planning, planned, (optimum.fits_iff fits.maxVMNum).mp fits⟩

end AllPms

/-- The search finds a best pair exactly where some feasible pair gains more than -1. -/
theorem VmPlanning.getOptimalVmAllocationForPm_best_iff {planning : VmPlanning ℝ}
    (data : planning.PositiveData) :
    (∃ results n m vcpu, planning.getOptimalVmAllocationForPm .real =
      .ok (results, n, m, vcpu) ∧ planning.BestFeasible (n, m)) ↔
      ∃ pair, planning.Feasible .real pair ∧ planning.LowCost pair := by
  constructor
  · exact data.exists_lowCost
  · intro ⟨pair, feasible, lowCost⟩
    have gains := (data.lowCost_iff feasible).mpr lowCost
    have ⟨⟨results, n, m, vcpu⟩, searched⟩ :=
      getOptimalVmAllocationForPm_completes.mpr data.completes
    refine ⟨results, n, m, vcpu, searched, ?_⟩
    cases (getOptimalVmAllocationForPm_spec searched).1 with
    | default low => exact absurd gains (by simpa using low pair feasible)
    | best first =>
      have chosen := mem_candidates.mp first.mem
      refine ⟨chosen, _, data.gain_eq_ok chosen, fun other otherFeasible => ?_⟩
      refine ⟨_, data.gain_eq_ok otherFeasible, ?_⟩
      simpa using first.not_lt Arithmetic.real.compares (mem_candidates.mpr otherFeasible)

-- Two linked nodes, a machine with three cores and 16 GB, and one size of virtual machine.
noncomputable def samplePlanning : VmPlanning ℝ where
  nodes := ["1", "2"]
  eMaxData := ⟨[(1, 1), (2, 2), (3, 2)], by simp⟩
  pmConfig := ⟨3, 16, 10, ⟨1, 8, 1, ⟨[(8, 1)], by simp⟩⟩⟩
  expConfig := ⟨16⟩
  fixed := ⟨0, 0, 1⟩

theorem samplePlanning_positiveData : samplePlanning.PositiveData where
  X := one_pos
  Y := by norm_num [samplePlanning]
  Z := one_pos
  theta m thetaM stored := by
    rw [VmPlanning.theta, orRaise_eq_ok] at stored
    have listed := (samplePlanning.pmConfig.parameters.thetaMTable.get?_eq_some m thetaM).mp stored
    simp only [samplePlanning, List.mem_singleton, Prod.mk.injEq] at listed
    rw [listed.2]
    exact one_pos
  eight := by simp [samplePlanning, Dict.keys]
  memoryReq := by norm_num [samplePlanning]
  eMaxOne := ⟨1, by simp [samplePlanning, Dict.get?]⟩
  eMax := by
    intro n positive most
    simp only [samplePlanning, Dict.get?, Dict.lookup_cons_if] at most ⊢
    interval_cases n
    · exact ⟨1, by simp⟩
    · exact ⟨2, by simp⟩
    · exact ⟨2, by simp⟩

theorem samplePlanning_feasible {pair : Nat × Int} :
    samplePlanning.Feasible .real pair ↔ pair = (2, 8) := by
  obtain ⟨n, m⟩ := pair
  constructor
  · intro feasible
    have positive : 1 ≤ n := feasible.positive
    have below : n < 3 := feasible.belowCores
    have size : m = 8 := by simpa [samplePlanning, Dict.keys] using feasible.listed
    have window : (16 : ℝ) ≤ n * m := by simpa [samplePlanning] using feasible.inWindow.1
    subst size
    interval_cases n
    · norm_num at window
    · rfl
  · intro same
    cases same
    exact ⟨by decide, by simp [samplePlanning], by simp [samplePlanning, Dict.keys],
      by norm_num [VmPlanning.InWindow, samplePlanning],
      by simp [VmPlanning.MeetsFixed, samplePlanning]⟩

-- Splitting raises the cost from 7 to 20 for an eighth more memory.
theorem samplePlanning_not_lowCost : ¬ samplePlanning.LowCost (2, 8) := by
  intro ⟨first, split, thetaM, foundFirst, foundSplit, stored, less⟩
  have one : samplePlanning.eMax 1 = .ok 1 := by
    simp [VmPlanning.eMax, samplePlanning, Dict.get?, orRaise]
  have two : samplePlanning.eMax 2 = .ok 2 := by
    simp [VmPlanning.eMax, samplePlanning, Dict.get?, Dict.lookup_cons_if, orRaise]
  have unfixed : samplePlanning.fixed.fixedBbnsNum ≠ 0 := by simp [samplePlanning]
  simp only [VmPlanning.cost, if_neg unfixed, tMvs, one, two, VmPlanning.linkCost_real (le_refl 1),
    VmPlanning.linkCost_real one_le_two, bind, Except.bind, VmPlanning.times_real,
    VmPlanning.plus_real, Arithmetic.real_ofInt, Int.cast_ofNat,
    VmPlanning.divide_real _ (two_ne_zero' ℝ), Except.ok.injEq] at foundFirst foundSplit
  simp only [VmPlanning.theta, orRaise_eq_ok, samplePlanning, Dict.get?,
    Dict.lookup_cons_if] at stored
  norm_num [samplePlanning] at foundFirst foundSplit stored
  subst foundFirst foundSplit stored
  norm_num [samplePlanning] at less

theorem getOptimalVmAllocationForPm_best_iff_sample :
    (∃ results n m vcpu, samplePlanning.getOptimalVmAllocationForPm .real =
      .ok (results, n, m, vcpu) ∧ samplePlanning.BestFeasible (n, m)) ↔
      ∃ pair, samplePlanning.Feasible .real pair ∧ samplePlanning.LowCost pair :=
  VmPlanning.getOptimalVmAllocationForPm_best_iff samplePlanning_positiveData

-- The only feasible pair is (2, 8), and the search answers (1, 8).
theorem samplePlanning_not_best :
    samplePlanning.PositiveData ∧ (∃ pair, samplePlanning.Feasible .real pair) ∧
    ¬ ∃ results n m vcpu, samplePlanning.getOptimalVmAllocationForPm .real =
      .ok (results, n, m, vcpu) ∧ samplePlanning.BestFeasible (n, m) := by
  refine ⟨samplePlanning_positiveData, ⟨(2, 8), samplePlanning_feasible.mpr rfl⟩, fun run => ?_⟩
  have ⟨pair, feasible, lowCost⟩ := samplePlanning_positiveData.exists_lowCost run
  cases samplePlanning_feasible.mp feasible
  exact samplePlanning_not_lowCost lowCost

/-- The gate lets only fitting allocations through exactly where each machine has a pair that
gains more than -1 or may be given the default. -/
theorem getOptimalVmAllocationForAllPms_fit_iff {K : Type} (A : Arithmetic K)
    (experiment : VmExperiment K) : PassedAllocationsFit A experiment ↔
      (GatePasses A experiment → ∀ pmid ∈ experiment.pmid2nodes.keys, ∃ planning,
        experiment.planning? pmid = some planning ∧ planning.HasWindow A ∧
        (planning.HasGain A ∨ planning.DefaultFits A)) := by
  constructor
  · exact PassedAllocationsFit.holds
  · intro condition allocations run legal pmid member
    have passes := gatePasses_iff.mpr ⟨allocations, run, legal⟩
    have ⟨planning, planned, _, runs⟩ := passes pmid member
    have ⟨found, _, ⟨n, m, vcpu⟩, foundPlanned, searched, stored, _⟩ :=
      (getOptimalVmAllocationForAllPms_spec run).2 pmid member
    cases Option.some.inj (planned.symm.trans foundPlanned)
    have ⟨same, samePlanned, holds⟩ := condition passes pmid member
    cases Option.some.inj (planned.symm.trans samePlanned)
    have ⟨optimum, sameVcpu⟩ := VmPlanning.getOptimalVmAllocationForPm_spec searched
    rw [← optimum.gateStops_iff, not_lt] at runs
    subst sameVcpu
    exact ⟨planning, _, planned, stored, (optimum.fits_iff runs).mpr holds⟩

def sampleTable : Dict Int PyNumber := ⟨[(8, .int 1)], List.nodup_singleton 8⟩

def samplePmConfig : PmConfig PyNumber :=
  ⟨3, .int 16, 10, ⟨.int 1, .int 8, .int 1, sampleTable⟩⟩

def sampleExperiment : VmExperiment PyNumber where
  pmid2nodes := ⟨[(0, ["1", "2"])], by decide⟩
  eMaxData _ := ⟨[(1, .int 1), (2, .int 2), (3, .int 2)], by simp⟩
  pmConfigList := [samplePmConfig]
  expConfig := ⟨.int 16⟩
  fixed := ⟨0, 0, 1⟩

-- The machine is given 8 GB where the experiment needs 16.
theorem sampleExperiment_not_fit : ¬ PassedAllocationsFit .python sampleExperiment := by
  intro fit
  have answer : (getOptimalVmAllocationForAllPms .python sampleExperiment).toOption.map
      (fun allocations => (allocations.legal, allocations.pmid2vmalloc.get? 0)) =
        some (true, some (1, 8, 3)) := by
    decide +kernel
  obtain ⟨allocations, run, same⟩ := Option.map_eq_some_iff.mp answer
  rw [toOption_eq_some] at run
  obtain ⟨legal, given⟩ := Prod.mk.inj same
  obtain ⟨planning, vmAlloc, planned, found, fits⟩ := fit allocations run legal 0 (by decide)
  cases Option.some.inj (given.symm.trans found)
  have required : planning.expConfig.memoryReq = .int 16 := by
    cases planned
    rfl
  have enough := fits.memoryReq
  rw [required] at enough
  have short : ¬ Arithmetic.python.le (.int 16) (.int (1 * 8)) = true := by decide +kernel
  exact short enough

end SplitNN.Coordinator
