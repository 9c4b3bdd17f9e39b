import Mathlib

set_option autoImplicit false

universe u v

-- The loop `if key(x) > best: best = key(x); winner = x` that starts from a fixed `best`.
namespace RunningMax

variable {α : Type u} {K : Type v}

/-- A comparison in which a value that is below or above something compares with every such value;
others, like a nan, may compare with none. -/
structure Compares (lt : K → K → Bool) : Prop where
  irrefl : ∀ a, lt a a = false
  trans : ∀ {a b c}, lt a b = true → lt b c = true → lt a c = true
  between : ∀ {a b c d}, lt a c = true → lt d b = true → lt a b = true ∨ lt b c = true

def step (lt : K → K → Bool) (key : α → K) (st : Option α × K) (x : α) : Option α × K :=
  if lt st.2 (key x) then (some x, key x) else st

/-- The first element with the largest key, where that key is above the floor. -/
structure FirstMax (lt : K → K → Bool) (key : α → K) (floor : K) (xs : List α) (winner : α) :
    Prop where
  above : lt floor (key winner) = true
  first : ∃ before after, xs = before ++ winner :: after ∧
    (∀ x ∈ before, lt floor (key x) = true → lt (key x) (key winner) = true) ∧
    ∀ x ∈ after, lt (key winner) (key x) = false

inductive Scanned (lt : K → K → Bool) (key : α → K) (floor : K) (xs : List α) :
    Option α × K → Prop where
  | nothing (low : ∀ x ∈ xs, lt floor (key x) = false) : Scanned lt key floor xs (none, floor)
  | found {winner : α} (best : FirstMax lt key floor xs winner) :
      Scanned lt key floor xs (some winner, key winner)

variable {lt : K → K → Bool} {key : α → K} {floor : K} {xs : List α} {st : Option α × K}
  {winner : α}

theorem FirstMax.mem (best : FirstMax lt key floor xs winner) : winner ∈ xs := by
  have ⟨before, after, whole, _⟩ := best.first
  simp [whole]

theorem FirstMax.not_lt (compares : Compares lt) (best : FirstMax lt key floor xs winner) {x : α}
    (member : x ∈ xs) : lt (key winner) (key x) = false := by
  have ⟨before, after, whole, earlier, later⟩ := best.first
  rw [whole, List.mem_append, List.mem_cons] at member
  rcases member with early | rfl | late
  · by_contra larger
    have beaten := compares.trans (Bool.not_eq_false _ ▸ larger)
      (earlier x early (compares.trans best.above (Bool.not_eq_false _ ▸ larger)))
    simp [compares.irrefl] at beaten
  · exact compares.irrefl _
  · exact later x late

theorem Scanned.start (lt : K → K → Bool) (key : α → K) (floor : K) :
    Scanned lt key floor [] (none, floor) :=
  .nothing (by simp)

theorem Scanned.step (compares : Compares lt) (scanned : Scanned lt key floor xs st) (x : α) :
    Scanned lt key floor (xs ++ [x]) (step lt key st x) := by
  unfold RunningMax.step
  cases scanned with
  | nothing low =>
    split
    next larger =>
      refine .found ⟨larger, xs, [], rfl, fun y member above => ?_, by simp⟩
      simp [low y member] at above
    next smaller =>
      refine .nothing fun y member => ?_
      rcases List.mem_append.mp member with old | new
      · exact low y old
      · simpa [List.mem_singleton.mp new] using smaller
  | found best =>
    have ⟨before, after, whole, earlier, later⟩ := best.first
    split
    next larger =>
      refine .found ⟨compares.trans best.above larger, xs, [], rfl, fun y member above => ?_,
        by simp⟩
      rcases compares.between larger above with beats | less
      · exact absurd beats (by simp [best.not_lt compares member])
      · exact less
    next smaller =>
      refine .found ⟨best.above, before, after ++ [x], by simp [whole], earlier, ?_⟩
      intro y member
      rcases List.mem_append.mp member with old | new
      · exact later y old
      · simpa [List.mem_singleton.mp new] using smaller

end RunningMax
