import Mathlib
import SplitNN.Shared.Retry

set_option autoImplicit false

namespace SplitNN.Coordinator

section Factors

inductive LastYield where
  | inc
  | init
deriving DecidableEq

structure FactorState where
  initFactorI : Nat
  incFactor : ℚ
  lastYield : LastYield

def initFactors : List ℚ := [1.05, 1.04, 1.03, 1.02, 1.01]

-- The variables of the generator before its first `yield`.
def FactorState.start : FactorState := ⟨0, 1.1, .inc⟩

-- From one `yield` to the next.
def trialCpuCapacityFactors (st : FactorState) : ℚ × FactorState :=
  match initFactors[st.initFactorI]?, st.lastYield with
  | some factor, .inc =>
    (factor, { st with initFactorI := st.initFactorI + 1, lastYield := .init })
  | _, _ => (st.incFactor, { st with incFactor := st.incFactor + 0.05, lastYield := .inc })

def incFactorAt (k : Nat) : ℚ := 1.1 + 0.05 * k

theorem incFactorAt_zero : incFactorAt 0 = 1.1 := by simp [incFactorAt]

theorem incFactorAt_succ (k : Nat) : incFactorAt (k + 1) = incFactorAt k + 0.05 := by
  simp only [incFactorAt, Nat.cast_succ]
  ring

theorem incFactorAt_strictMono : StrictMono incFactorAt := by
  refine strictMono_nat_of_lt_succ fun k => ?_
  rw [incFactorAt_succ]
  norm_num

theorem initFactors_decreasing : initFactors.Pairwise (· > ·) := by
  norm_num [initFactors]

theorem incFactorAt_not_mem (k : Nat) : incFactorAt k ∉ initFactors := by
  have above : (1.1 : ℚ) ≤ incFactorAt k := by
    rw [← incFactorAt_zero]
    exact incFactorAt_strictMono.monotone (Nat.zero_le k)
  have below : ∀ factor ∈ initFactors, factor < 1.1 := by norm_num [initFactors]
  exact fun member => absurd (below _ member) (not_lt.mpr above)

structure Yielded (k : Nat) (st : FactorState) (tried : List ℚ) : Prop where
  initial : tried.filter (· ∈ initFactors) = initFactors.take st.initFactorI
  increasing : tried.filter (· ∉ initFactors) = (List.range k).map incFactorAt
  inside : st.initFactorI ≤ initFactors.length
  incFactor : st.incFactor = incFactorAt k

theorem Yielded.step {k : Nat} {st : FactorState} {tried : List ℚ} (yielded : Yielded k st tried) :
    ∃ k', Yielded k' (trialCpuCapacityFactors st).2
      (tried ++ [(trialCpuCapacityFactors st).1]) := by
  have inc : Yielded (k + 1) { st with incFactor := st.incFactor + 0.05, lastYield := .inc }
      (tried ++ [st.incFactor]) := by
    have other : st.incFactor ∉ initFactors := yielded.incFactor ▸ incFactorAt_not_mem k
    constructor
    case initial => simp [List.filter_append, yielded.initial, other]
    case increasing =>
      have kept : [st.incFactor].filter (· ∉ initFactors) = [incFactorAt k] := by
        simp [incFactorAt_not_mem, yielded.incFactor]
      rw [List.filter_append, yielded.increasing, kept, List.range_succ, List.map_append]
      rfl
    case inside => exact yielded.inside
    case incFactor => rw [incFactorAt_succ, yielded.incFactor]
  unfold trialCpuCapacityFactors
  split
  next factor found _ =>
    have bound : st.initFactorI < initFactors.length := (List.getElem?_eq_some_iff.mp found).1
    have member : factor ∈ initFactors := List.mem_of_getElem? found
    refine ⟨k, ?_⟩
    constructor
    case initial =>
      simp [List.filter_append, yielded.initial, member, List.take_add_one, found]
    case increasing =>
      have dropped : [factor].filter (· ∉ initFactors) = [] := by simp [member]
      rw [List.filter_append, yielded.increasing, dropped, List.append_nil]
    case inside => exact bound
    case incFactor => exact yielded.incFactor
  next => exact ⟨k + 1, inc⟩

end Factors

section Retries

-- `int(cpu_capacity_factor * node_num // pm_num)`, for at least one machine.
def cpuCapacity (nodeNum pmNum : Nat) (factor : ℚ) : Int := ⌊factor * nodeNum / pmNum⌋

-- The loop of `partition_tbs`. What the program answers to a capacity may depend on the attempts
-- before it.
def tryFactors (runTbs : List ℚ → Int → Bool) (nodeNum pmNum fuel : Nat) : List ℚ × Bool :=
  Retry.loop trialCpuCapacityFactors
    (fun tried factor => runTbs tried (cpuCapacity nodeNum pmNum factor)) fuel .start []

structure FactorsInOrder (tried : List ℚ) : Prop where
  distinct : tried.Nodup
  initial : tried.filter (· ∈ initFactors) <+: initFactors
  decreasing : (tried.filter (· ∈ initFactors)).Pairwise (· > ·)
  increasing : ∃ k, tried.filter (· ∉ initFactors) = (List.range k).map incFactorAt

theorem Yielded.inOrder {k : Nat} {st : FactorState} {tried : List ℚ}
    (yielded : Yielded k st tried) : FactorsInOrder tried := by
  have before : tried.filter (· ∈ initFactors) <+: initFactors := by
    rw [yielded.initial]
    exact List.take_prefix _ _
  have decreasing : (tried.filter (· ∈ initFactors)).Pairwise (· > ·) :=
    initFactors_decreasing.sublist before.sublist
  have increasing : ((List.range k).map incFactorAt).Nodup :=
    List.nodup_range.map incFactorAt_strictMono.injective
  constructor
  case distinct =>
    have parts := List.filter_append_perm (fun factor => decide (factor ∈ initFactors)) tried
    simp only [← decide_not] at parts
    rw [← parts.nodup_iff, yielded.increasing]
    refine List.Nodup.append (decreasing.imp ne_of_gt) increasing ?_
    intro factor initial inc
    have ⟨j, _, same⟩ := List.mem_map.mp inc
    have member : factor ∈ initFactors := before.mem initial
    exact incFactorAt_not_mem j (same ▸ member)
  case initial => exact before
  case decreasing => exact decreasing
  case increasing => exact ⟨k, yielded.increasing⟩

variable {runTbs : List ℚ → Int → Bool} {nodeNum pmNum : Nat}

theorem tryFactors_yielded (fuel : Nat) : ∃ k st,
    Yielded k st (tryFactors runTbs nodeNum pmNum fuel).1 := by
  have start : ∃ k, Yielded k .start [] :=
    ⟨0, rfl, rfl, Nat.zero_le _, incFactorAt_zero.symm⟩
  have ⟨st, k, yielded⟩ : ∃ st k, Yielded k st (tryFactors runTbs nodeNum pmNum fuel).1 :=
    Retry.loop_rule (P := fun st tried => ∃ k, Yielded k st tried)
      (fun _ _ ⟨_, yielded⟩ => yielded.step) start
  exact ⟨k, st, yielded⟩

theorem exists_cpuCapacity_ge (nodes : 1 ≤ nodeNum) (machines : 1 ≤ pmNum) (c : Int) :
    ∃ k, c ≤ cpuCapacity nodeNum pmNum (incFactorAt k) := by
  have nodes' : (1 : ℚ) ≤ nodeNum := by exact_mod_cast nodes
  have machines' : (0 : ℚ) < pmNum := by exact_mod_cast machines
  have ⟨k, large⟩ := exists_nat_ge (20 * (c * pmNum : ℚ))
  refine ⟨k, Int.le_floor.mpr ?_⟩
  rw [le_div_iff₀ machines']
  calc (c * pmNum : ℚ) ≤ incFactorAt k := by
        rw [incFactorAt]
        linarith
    _ = incFactorAt k * 1 := (mul_one _).symm
    _ ≤ incFactorAt k * nodeNum := by
        refine mul_le_mul_of_nonneg_left nodes' ?_
        rw [incFactorAt]
        positivity

theorem tryFactors_succeeds (nodes : 1 ≤ nodeNum) (machines : 1 ≤ pmNum) {c : Int}
    (threshold : ∀ tried capacity, c ≤ capacity → runTbs tried capacity = true) :
    ∃ fuel, (tryFactors runTbs nodeNum pmNum fuel).2 = true := by
  have ⟨j, enough⟩ := exists_cpuCapacity_ge nodes machines c
  refine ⟨initFactors.length + (j + 1), ?_⟩
  by_contra fails
  have ⟨tried, whole, length, failed⟩ := Retry.loop_fails (Bool.not_eq_true _ ▸ fails)
  have ⟨k, st, yielded⟩ := @tryFactors_yielded runTbs nodeNum pmNum (initFactors.length + (j + 1))
  rw [tryFactors, whole, List.nil_append] at yielded
  -- At most five attempts went to the initial factors.
  have counts := (List.filter_append_perm (fun factor => decide (factor ∈ initFactors))
    tried).length_eq
  simp only [← decide_not] at counts
  rw [List.length_append, yielded.initial, yielded.increasing, length, List.length_take,
    List.length_map, List.length_range] at counts
  have listed : incFactorAt j ∈ tried.filter (· ∉ initFactors) := by
    rw [yielded.increasing]
    exact List.mem_map_of_mem (List.mem_range.mpr (by omega))
  have ⟨before, answer⟩ := failed _ (List.mem_of_mem_filter listed)
  rw [threshold before _ enough] at answer
  cases answer

/-- The loop ends once the capacity suffices, and tries its factors in order. -/
theorem tryFactors_ends (nodes : 1 ≤ nodeNum) (machines : 1 ≤ pmNum) :
    (∀ (c : Int) (runTbs : List ℚ → Int → Bool),
      (∀ tried capacity, c ≤ capacity → runTbs tried capacity = true) →
      ∃ fuel tried, ∀ more, tryFactors runTbs nodeNum pmNum (fuel + more) = (tried, true)) ∧
    ∀ (runTbs : List ℚ → Int → Bool) fuel,
      FactorsInOrder (tryFactors runTbs nodeNum pmNum fuel).1 := by
  constructor
  next =>
    intro c runTbs threshold
    have ⟨fuel, succeeds⟩ := tryFactors_succeeds nodes machines threshold
    refine ⟨fuel, (tryFactors runTbs nodeNum pmNum fuel).1, fun more => ?_⟩
    have stops := Retry.loop_stops succeeds more
    exact stops.trans (Prod.ext rfl succeeds)
  next =>
    intro runTbs fuel
    have ⟨_, _, yielded⟩ := @tryFactors_yielded runTbs nodeNum pmNum fuel
    exact yielded.inOrder

-- The initial factors and the others take turns.
example : (tryFactors (fun _ _ => false) 7 3 12).1 =
    [1.05, 1.1, 1.04, 1.15, 1.03, 1.2, 1.02, 1.25, 1.01, 1.3, 1.35, 1.4] := by
  decide +kernel

theorem tryFactors_ends_sample :
    (∀ (c : Int) (runTbs : List ℚ → Int → Bool),
      (∀ tried capacity, c ≤ capacity → runTbs tried capacity = true) →
      ∃ fuel tried, ∀ more, tryFactors runTbs 7 3 (fuel + more) = (tried, true)) ∧
    ∀ (runTbs : List ℚ → Int → Bool) fuel, FactorsInOrder (tryFactors runTbs 7 3 fuel).1 :=
  tryFactors_ends (by decide) (by decide)

end Retries

end SplitNN.Coordinator
