import Mathlib.Logic.Relation

set_option autoImplicit false

universe u

structure TransitionSystem (σ : Type u) where
  initial : σ → Prop
  step : σ → σ → Prop

namespace TransitionSystem

variable {σ : Type u} {system : TransitionSystem σ}

inductive Reachable (system : TransitionSystem σ) : σ → Prop where
  | start {state : σ} (initial : system.initial state) : Reachable system state
  | next {state state' : σ} (reachable : Reachable system state)
      (step : system.step state state') : Reachable system state'

theorem Reachable.invariant {P : σ → Prop} (initially : ∀ state, system.initial state → P state)
    (preserved : ∀ state state', P state → system.step state state' → P state') {state : σ}
    (reachable : system.Reachable state) : P state := by
  induction reachable with
  | start initial => exact initially _ initial
  | next _ step ih => exact preserved _ _ ih step

theorem Reachable.later {state state' : σ} (reachable : system.Reachable state)
    (steps : Relation.ReflTransGen system.step state state') : system.Reachable state' := by
  induction steps with
  | refl => exact reachable
  | tail _ step ih => exact ih.next step

def Stuck (system : TransitionSystem σ) (state : σ) : Prop :=
  ∀ state', ¬ system.step state state'

theorem exists_stuck (system : TransitionSystem σ) (amount : σ → Nat)
    (uses : ∀ state state', system.step state state' → amount state' < amount state)
    (state : σ) : ∃ last, Relation.ReflTransGen system.step state last ∧ system.Stuck last := by
  induction found : amount state using Nat.strongRecOn generalizing state with
  | ind left ih =>
    by_cases stuck : system.Stuck state
    next => exact ⟨state, .refl, stuck⟩
    next =>
      have ⟨state', step⟩ : ∃ state', system.step state state' := by
        simpa [Stuck] using stuck
      have ⟨last, steps, end'⟩ := ih _ (found ▸ uses state state' step) state' rfl
      exact ⟨last, .head step steps, end'⟩

section Parts

-- A system of several parts, of which a step moves one.
variable {α : Type u} {parts before after : List α} {part part' : α}

theorem forall_moved {P : α → Prop} (old : ∀ other ∈ parts, P other)
    (place : parts = before ++ part :: after) (new : P part') :
    ∀ other ∈ before ++ part' :: after, P other := by
  intro other member
  cases List.mem_append.mp member with
  | inl left => exact old other (by simp [place, left])
  | inr right =>
    cases List.mem_cons.mp right with
    | inl same => exact same ▸ new
    | inr right => exact old other (by simp [place, right])

end Parts

end TransitionSystem
