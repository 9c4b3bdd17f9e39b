import Mathlib
import SplitNN.Coordinator.PartitionStats
import SplitNN.Coordinator.ReadTopoFile
import SplitNN.Coordinator.VmAllocation
import SplitNN.Shared.PyNumber

set_option autoImplicit false

namespace SplitNN.Coordinator

open Monadic (toOption_foldlM bind_eq_ok bind_ne_error bind_only)

@[simp] theorem orRaise_toOption {α : Type} (error : PlanningError) (value : Option α) :
    (orRaise error value).toOption = value := by
  cases value <;> rfl

theorem orRaise_eq_error {α : Type} {error raised : PlanningError} {value : Option α} :
    orRaise error value = .error raised ↔ value = none ∧ error = raised := by
  cases value <;> simp [orRaise]

section Model

variable {K : Type} (A : Arithmetic K)

-- `get_E_max_data_for_pm_topo` with the exception it ends in.
def Raising.getEMaxDataForPmTopo (partGraph : PartGraph) (nodes : List NodeName)
    (adjacencyList : AdjacencyList) (pmCoreNum : Nat) : Except PlanningError (Dict Nat Nat) :=
  (List.range' 1 pmCoreNum).foldlM (fun eMaxData n => do
    let node2serverid ← orRaise .keyError (partitionGraphAcrossVm partGraph nodes adjacencyList n 0)
    let partitionStats ← orRaise .keyError (getPartitionStats nodes adjacencyList node2serverid)
    let max ← orRaise .emptyMax (maxEdgeCount partitionStats)
    return eMaxData.set n max) Dict.empty

def castData (eMaxData : Dict Nat Nat) : Dict Nat K :=
  ⟨eMaxData.entries.map fun entry => (entry.1, A.ofInt entry.2), by
    simpa [Function.comp_def] using eMaxData.distinct⟩

def getOptimalVmAllocationForPm (partGraph : PartGraph) (nodes : List NodeName)
    (adjacencyList : AdjacencyList) (pmConfig : PmConfig K) (expConfig : ExpConfig K)
    (fixed : FixedOptions) : Except PlanningError (List (SearchResult K) × VmAlloc) := do
  let eMaxData ←
    Raising.getEMaxDataForPmTopo partGraph nodes adjacencyList pmConfig.coreNum
  VmPlanning.getOptimalVmAllocationForPm A
    ⟨nodes, castData A eMaxData, pmConfig, expConfig, fixed⟩

variable {A}

theorem get?_castData (eMaxData : Dict Nat Nat) (n : Nat) :
    (castData A eMaxData).get? n = (eMaxData.get? n).map fun count => A.ofInt count := by
  have run (entries : List (Nat × Nat)) :
      (entries.map fun entry => (entry.1, A.ofInt entry.2)).lookup n =
        (entries.lookup n).map fun count => A.ofInt count := by
    induction entries with
    | nil => rfl
    | cons entry rest ih =>
      rw [List.map_cons, Dict.lookup_cons_if, Dict.lookup_cons_if, ih]
      split <;> rfl
  exact run eMaxData.entries

theorem getEMaxDataForPmTopo_toOption (partGraph : PartGraph) (nodes : List NodeName)
    (adjacencyList : AdjacencyList) (pmCoreNum : Nat) :
    (Raising.getEMaxDataForPmTopo partGraph nodes adjacencyList pmCoreNum).toOption =
      getEMaxDataForPmTopo partGraph nodes adjacencyList pmCoreNum :=
  toOption_foldlM (fun eMaxData n => by simp [-bind_pure_comp]) _ _

end Model

section Operators

variable {K : Type} {A : Arithmetic K} {error : PlanningError}

theorem orRaise_ne_error {α : Type} {raised : PlanningError} (value : Option α)
    (other : error ≠ raised) : orRaise raised value ≠ .error error := by
  simp [orRaise_eq_error, other.symm]

theorem divide_ne_error {a b : K} (notZero : A.isZero b ≠ true) (other : error ≠ .overflow) :
    divide A a b ≠ .error error := by
  rw [divide, if_neg notZero]
  exact orRaise_ne_error _ other

theorem squareRoot_ne_error {a : K} (notDomain : error ≠ .mathDomain) (other : error ≠ .overflow) :
    squareRoot A a ≠ .error error := by
  unfold squareRoot
  split
  next => simpa using notDomain.symm
  next => exact orRaise_ne_error _ other

theorem tSn_eq_ok {n V : Nat} {eMax : Nat → Except PlanningError K} {X Y Z t : K} :
    tSn A n V eMax X Y Z = .ok t ↔ ∃ eMaxN, eMax n = .ok eMaxN ∧
      ∃ perLink, linkCost A n V X Z = .ok perLink ∧ ∃ linear, A.mul eMaxN perLink = some linear ∧
      ∃ double, A.mul (A.ofInt 2) eMaxN = some double ∧ ∃ scaled, A.mul double X = some scaled ∧
      ∃ radicand, A.mul scaled Y = some radicand ∧ ∃ root, squareRoot A radicand = .ok root ∧
      ∃ bend, A.mul eMaxN root = some bend ∧ A.add linear bend = some t := by
  simp only [tSn, times, plus, bind_eq_ok, orRaise_eq_ok]

theorem tMvs_eq_ok {n V : Nat} {eMax : Nat → Except PlanningError K} {X Y Z t : K} :
    tMvs A n V eMax X Y Z = .ok t ↔ ∃ eMaxN, eMax n = .ok eMaxN ∧
      ∃ perLink, linkCost A n V X Z = .ok perLink ∧ ∃ linear, A.mul eMaxN perLink = some linear ∧
      ∃ square, A.mul eMaxN eMaxN = some square ∧ ∃ double, A.mul square Y = some double ∧
      ∃ quadratic, divide A double (A.ofInt 2) = .ok quadratic ∧
        A.add linear quadratic = some t := by
  simp only [tMvs, times, plus, bind_eq_ok, orRaise_eq_ok]

end Operators

section Costs

open PyNumber

variable {planning : VmPlanning PyNumber} {n V : Nat} {X Y Z t : PyNumber} {e : Int}
  {eMax : Nat → Except PlanningError PyNumber}

theorem linkCost_positive (x : PositiveNumber X) (z : Z.Positive)
    (run : linkCost .python 1 V X Z = .ok t) : t.Positive := by
  simp only [linkCost, times, plus, bind_eq_ok, orRaise_eq_ok, divide_eq_ok] at run
  obtain ⟨share, ⟨-, quotient⟩, nodes, product, sum⟩ := run
  have shareNonneg : share.Nonneg :=
    nonneg_quotient_whole (nonneg_int.mpr (Int.natCast_nonneg V)) le_rfl quotient
  exact nonneg_add_positive (nonneg_mul_finite shareNonneg x.1 x.2 product) z sum

theorem tMvs_positive (links : 1 ≤ e) (x : PositiveNumber X)
    (y : PositiveNumber Y) (z : Z.Positive) (counted : eMax 1 = .ok (.int e))
    (run : tMvs .python 1 V eMax X Y Z = .ok t) : t.Positive := by
  obtain ⟨_, same, perLink, cost, linear, first, square, second, double, third, quadratic,
    halved, sum⟩ := tMvs_eq_ok.mp run
  cases Except.ok.inj (counted.symm.trans same)
  have linearPositive : linear.Positive :=
    whole_mul_positive links (linkCost_positive x z cost) first
  have squared : square = .int (e * e) := (Option.some.inj second).symm
  subst squared
  have several : 1 ≤ e * e := Int.mul_pos links links
  have doublePositive : double.Positive := whole_mul_positive several y.1 third
  have quadraticNonneg : quadratic.Nonneg :=
    nonneg_quotient_whole doublePositive.nonneg one_le_two (divide_eq_ok.mp halved).2
  exact positive_add_nonneg linearPositive quadraticNonneg sum

theorem tSn_positive (links : 1 ≤ e) (x : PositiveNumber X)
    (y : PositiveNumber Y) (z : Z.Positive) (counted : eMax 1 = .ok (.int e))
    (run : tSn .python 1 V eMax X Y Z = .ok t) : t.Positive := by
  obtain ⟨_, same, perLink, cost, linear, first, double, second, scaled, third, radicand, fourth,
    root, rooted, bend, fifth, sum⟩ := tSn_eq_ok.mp run
  cases Except.ok.inj (counted.symm.trans same)
  have linearPositive : linear.Positive :=
    whole_mul_positive links (linkCost_positive x z cost) first
  have doubled : double = .int (2 * e) := (Option.some.inj second).symm
  subst doubled
  have scaledPositive : scaled.Positive := whole_mul_positive (by omega) x.1 third
  have radicandNonneg : radicand.Nonneg :=
    nonneg_mul_finite scaledPositive.nonneg y.1 y.2 fourth
  have rootNonneg : root.Nonneg := nonneg_sqrt radicandNonneg (squareRoot_eq_ok.mp rooted).2
  exact positive_add_nonneg linearPositive (whole_mul_nonneg links rootNonneg fifth) sum

-- Without a link both costs are 0, or nan where the cost of a link is infinite.
theorem tMvs_zero (x : PositiveNumber X) (y : PositiveNumber Y) (z : Z.Positive)
    (counted : eMax 1 = .ok (.int 0)) (run : tMvs .python 1 V eMax X Y Z = .ok t) :
    ∃ perLink, linkCost .python 1 V X Z = .ok perLink ∧ (t.IsZero ↔ perLink.IsFinite) := by
  obtain ⟨_, same, perLink, cost, linear, first, square, second, double, third, quadratic,
    halved, sum⟩ := tMvs_eq_ok.mp run
  cases Except.ok.inj (counted.symm.trans same)
  refine ⟨perLink, cost, ?_⟩
  have none : (PyNumber.int 0).IsZero := isZero_int.mpr rfl
  have squareZero : square.IsZero := zero_mul_finite none none.finite second
  have doubleZero : double.IsZero := zero_mul_finite squareZero y.2 third
  have quadraticZero : quadratic.IsZero :=
    zero_quotient_positive doubleZero (positive_int.mpr two_pos) (divide_eq_ok.mp halved).2
  constructor
  · intro zero
    by_contra infinite
    have linearNan := zero_mul_infinite none (linkCost_positive x z cost) infinite first
    exact nan_add linearNan sum zero.isNumber
  · exact fun finite => zero_add (zero_mul_finite none finite first) quadraticZero sum

theorem tSn_zero (x : PositiveNumber X) (y : PositiveNumber Y) (z : Z.Positive)
    (counted : eMax 1 = .ok (.int 0)) (run : tSn .python 1 V eMax X Y Z = .ok t) :
    ∃ perLink, linkCost .python 1 V X Z = .ok perLink ∧ (t.IsZero ↔ perLink.IsFinite) := by
  obtain ⟨_, same, perLink, cost, linear, first, double, second, scaled, third, radicand, fourth,
    root, rooted, bend, fifth, sum⟩ := tSn_eq_ok.mp run
  cases Except.ok.inj (counted.symm.trans same)
  refine ⟨perLink, cost, ?_⟩
  have none : (PyNumber.int 0).IsZero := isZero_int.mpr rfl
  have doubled : double = .int 0 := (Option.some.inj second).symm
  subst doubled
  have scaledZero : scaled.IsZero := zero_mul_finite none x.2 third
  have radicandZero : radicand.IsZero := zero_mul_finite scaledZero y.2 fourth
  have rootZero : root.IsZero := zero_sqrt radicandZero (squareRoot_eq_ok.mp rooted).2
  have bendZero : bend.IsZero := zero_mul_finite none rootZero.finite fifth
  constructor
  · intro zero
    by_contra infinite
    have linearNan := zero_mul_infinite none (linkCost_positive x z cost) infinite first
    exact nan_add linearNan sum zero.isNumber
  · exact fun finite => zero_add (zero_mul_finite none finite first) bendZero sum

end Costs

section Gains

open PyNumber

variable {planning : VmPlanning PyNumber} {n : Nat} {m : Int} {error : PlanningError}

structure PositiveConfig (pmConfig : PmConfig PyNumber) (expConfig : ExpConfig PyNumber) :
    Prop where
  X : pmConfig.parameters.X.PositiveNumber
  Y : pmConfig.parameters.Y.PositiveNumber
  Z : pmConfig.parameters.Z.PositiveNumber
  memoryReq : expConfig.memoryReq.PositiveNumber

/-- The cost of a link on the whole machine does not overflow. -/
def LinkCostFinite (planning : VmPlanning PyNumber) : Prop :=
  ∃ perLink, linkCost .python 1 planning.nodes.length planning.pmConfig.parameters.X
    planning.pmConfig.parameters.Z = .ok perLink ∧ perLink.IsFinite

/-- The share of memory that a pair needs is rounded to 0. -/
def ShareVanishes (planning : VmPlanning PyNumber) (pair : Nat × Int) : Prop :=
  ∃ memory share, mMvs .python pair.1 pair.2 planning.theta = .ok memory ∧
    divide .python memory planning.expConfig.memoryReq = .ok share ∧ share.IsZero

theorem cost_ne_error (positive : 1 ≤ n) (key : error ≠ .keyError) (domain : error ≠ .mathDomain)
    (large : error ≠ .overflow) : planning.cost .python n ≠ .error error := by
  have linkCost : linkCost .python n planning.nodes.length planning.pmConfig.parameters.X
      planning.pmConfig.parameters.Z ≠ .error error := by
    have several : ¬ (PyNumber.int n).IsZero := isZero_int.not.mpr (by omega)
    refine bind_ne_error (divide_ne_error several large) fun share => ?_
    exact bind_ne_error (orRaise_ne_error _ large) fun _ => orRaise_ne_error _ large
  have half : ¬ (PyNumber.int 2).IsZero := isZero_int.not.mpr two_ne_zero
  unfold VmPlanning.cost
  split
  next =>
    refine bind_ne_error (orRaise_ne_error _ key) fun _ => bind_ne_error linkCost fun _ => ?_
    iterate 4 refine bind_ne_error (orRaise_ne_error _ large) fun _ => ?_
    refine bind_ne_error (squareRoot_ne_error domain large) fun _ => ?_
    exact bind_ne_error (orRaise_ne_error _ large) fun _ => orRaise_ne_error _ large
  next =>
    refine bind_ne_error (orRaise_ne_error _ key) fun _ => bind_ne_error linkCost fun _ => ?_
    iterate 3 refine bind_ne_error (orRaise_ne_error _ large) fun _ => ?_
    exact bind_ne_error (divide_ne_error half large) fun _ => orRaise_ne_error _ large

theorem mMvs_ne_error (key : error ≠ .keyError) (large : error ≠ .overflow) :
    mMvs .python n m planning.theta ≠ .error error :=
  bind_ne_error (orRaise_ne_error _ key) fun _ => orRaise_ne_error _ large

theorem gain_ne_emptyMax (positive : 1 ≤ n) : planning.gain .python n m ≠ .error .emptyMax := by
  have quotient (a b : PyNumber) : divide .python a b ≠ .error .emptyMax := by
    unfold divide
    split
    next => simp
    next => exact orRaise_ne_error _ (by decide)
  rw [VmPlanning.gain_eq, gainOf]
  refine bind_ne_error (cost_ne_error le_rfl (by decide) (by decide) (by decide)) fun _ => ?_
  refine bind_ne_error (cost_ne_error positive (by decide) (by decide) (by decide)) fun _ => ?_
  refine bind_ne_error (orRaise_ne_error _ (by decide)) fun _ => ?_
  refine bind_ne_error (quotient _ _) fun _ => ?_
  refine bind_ne_error (mMvs_ne_error (by decide) (by decide)) fun _ => ?_
  exact bind_ne_error (quotient _ _) fun _ => quotient _ _

theorem cost_one_isZero (positive : PositiveConfig planning.pmConfig planning.expConfig) {e : Nat}
    (counted : planning.eMax 1 = .ok (.int e)) {first : PyNumber}
    (run : planning.cost .python 1 = .ok first) :
    first.IsZero ↔ e = 0 ∧ LinkCostFinite planning := by
  rcases Nat.eq_zero_or_pos e with rfl | links
  · have ⟨perLink, cost, zero⟩ : ∃ perLink, linkCost .python 1 planning.nodes.length
        planning.pmConfig.parameters.X planning.pmConfig.parameters.Z = .ok perLink ∧
        (first.IsZero ↔ perLink.IsFinite) := by
      unfold VmPlanning.cost at run
      split at run
      next => exact tSn_zero positive.X positive.Y positive.Z.1 counted run
      next => exact tMvs_zero positive.X positive.Y positive.Z.1 counted run
    rw [zero]
    constructor
    · exact fun finite => ⟨rfl, perLink, cost, finite⟩
    · rintro ⟨_, other, same, finite⟩
      cases Except.ok.inj (cost.symm.trans same)
      exact finite
  · have above : first.Positive := by
      unfold VmPlanning.cost at run
      split at run
      next =>
        exact tSn_positive (by exact_mod_cast links) positive.X positive.Y positive.Z.1 counted run
      next =>
        exact tMvs_positive (by exact_mod_cast links) positive.X positive.Y positive.Z.1 counted run
    exact iff_of_false above.not_isZero fun unlinked => links.ne' unlinked.1

theorem gain_zeroDivision (positive : PositiveConfig planning.pmConfig planning.expConfig) {e : Nat}
    (counted : planning.eMax 1 = .ok (.int e)) (several : 1 ≤ n)
    (only : ∀ raised, planning.gain .python n m = .error raised → raised = .zeroDivision) :
    planning.gain .python n m = .error .zeroDivision ↔
      e = 0 ∧ LinkCostFinite planning ∨ ShareVanishes planning (n, m) := by
  have required : ¬ Arithmetic.python.isZero planning.expConfig.memoryReq = true :=
    positive.memoryReq.1.not_isZero
  rw [VmPlanning.gain_eq, gainOf] at only ⊢
  obtain ⟨first, firstRun, step, only⟩ := bind_only only
    (cost_ne_error le_rfl (by decide) (by decide) (by decide))
  rw [step]
  obtain ⟨split, -, step, only⟩ := bind_only only
    (cost_ne_error several (by decide) (by decide) (by decide))
  rw [step]
  obtain ⟨saved, -, step, only⟩ := bind_only only (orRaise_ne_error _ (by decide))
  rw [step, ← cost_one_isZero positive counted firstRun]
  by_cases zero : first.IsZero
  next =>
    have raised : divide .python saved first = .error .zeroDivision := if_pos zero
    simp [raised, zero, bind, Except.bind]
  next =>
    obtain ⟨numerator, -, step, only⟩ := bind_only only (divide_ne_error zero (by decide))
    rw [step]
    obtain ⟨memory, memoryRun, step, only⟩ := bind_only only
      (mMvs_ne_error (by decide) (by decide))
    rw [step]
    obtain ⟨share, shareRun, step, -⟩ := bind_only only (divide_ne_error required (by decide))
    rw [step, or_iff_right zero]
    constructor
    · intro raised
      refine ⟨memory, share, memoryRun, shareRun, ?_⟩
      by_contra notZero
      exact divide_ne_error notZero (by decide) raised
    · rintro ⟨_, _, sameMemory, sameShare, vanishes⟩
      cases Except.ok.inj (memoryRun.symm.trans sameMemory)
      cases Except.ok.inj (shareRun.symm.trans sameShare)
      exact if_pos vanishes

end Gains

end SplitNN.Coordinator
