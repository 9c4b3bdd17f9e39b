import Mathlib.Data.List.Basic

set_option autoImplicit false

universe u v

-- A generator of values, each of which is tried until one succeeds.
namespace Retry

variable {σ : Type u} {α : Type v} (next : σ → α × σ) (succeeds : List α → α → Bool)

-- What was tried, in order, and whether the last value succeeded. The answer to a value may depend
-- on what was tried before it.
def loop : Nat → σ → List α → List α × Bool
  | 0, _, tried => (tried, false)
  | fuel + 1, st, tried =>
    let (value, st) := next st
    if succeeds tried value then (tried ++ [value], true) else loop fuel st (tried ++ [value])

variable {next succeeds} {fuel : Nat} {st : σ} {tried : List α}

theorem loop_success (success : succeeds tried (next st).1 = true) :
    loop next succeeds (fuel + 1) st tried = (tried ++ [(next st).1], true) := by
  simp [loop, success]

theorem loop_failure (failure : succeeds tried (next st).1 = false) :
    loop next succeeds (fuel + 1) st tried =
      loop next succeeds fuel (next st).2 (tried ++ [(next st).1]) := by
  simp [loop, failure]

theorem loop_rule {P : σ → List α → Prop}
    (step : ∀ st tried, P st tried → P (next st).2 (tried ++ [(next st).1]))
    (start : P st tried) : ∃ last, P last (loop next succeeds fuel st tried).1 := by
  induction fuel generalizing st tried with
  | zero => exact ⟨st, start⟩
  | succ fuel ih =>
    have kept := step st tried start
    cases answer : succeeds tried (next st).1 with
    | true =>
      rw [loop_success answer]
      exact ⟨_, kept⟩
    | false =>
      rw [loop_failure answer]
      exact ih kept

theorem loop_fails (fails : (loop next succeeds fuel st tried).2 = false) :
    ∃ more, (loop next succeeds fuel st tried).1 = tried ++ more ∧ more.length = fuel ∧
      ∀ value ∈ more, ∃ before, succeeds before value = false := by
  induction fuel generalizing st tried with
  | zero => exact ⟨[], by simp [loop], rfl, nofun⟩
  | succ fuel ih =>
    cases answer : succeeds tried (next st).1 with
    | true =>
      rw [loop_success answer] at fails
      cases fails
    | false =>
      rw [loop_failure answer] at fails ⊢
      have ⟨more, whole, length, each⟩ := ih fails
      refine ⟨(next st).1 :: more, ?_, by simp [length], ?_⟩
      · rw [whole, List.append_assoc, List.singleton_append]
      · exact List.forall_mem_cons.mpr ⟨⟨tried, answer⟩, each⟩

theorem loop_stops (succeeded : (loop next succeeds fuel st tried).2 = true) (more : Nat) :
    loop next succeeds (fuel + more) st tried = loop next succeeds fuel st tried := by
  induction fuel generalizing st tried with
  | zero => cases succeeded
  | succ fuel ih =>
    rw [Nat.add_right_comm]
    cases answer : succeeds tried (next st).1 with
    | true => rw [loop_success answer, loop_success answer]
    | false =>
      rw [loop_failure answer] at succeeded
      rw [loop_failure answer, loop_failure answer]
      exact ih succeeded

end Retry
