import Mathlib.Data.Finset.Card
import Mathlib.Data.Finset.Max
import Mathlib.Logic.Function.Iterate

set_option autoImplicit false

universe u

-- Taking the leaves off a finite graph round by round, or the vertices of least degree where it
-- has no leaf.
namespace Peeling

variable {V : Type u} [DecidableEq V] (adjacent : V → V → Prop) [DecidableRel adjacent]

def degreeIn (left : Finset V) (v : V) : Nat := (left.filter (adjacent v)).card

def leaves (left : Finset V) : Finset V := left.filter fun v => degreeIn adjacent left v = 1

def lowest (left : Finset V) : Finset V :=
  left.filter fun v => ∀ u ∈ left, degreeIn adjacent left v ≤ degreeIn adjacent left u

def batch (left : Finset V) : Finset V :=
  if leaves adjacent left = ∅ then lowest adjacent left else leaves adjacent left

def peel (left : Finset V) : Finset V := left \ batch adjacent left

-- Such a pair is a component of its own.
def LeafPair (left : Finset V) : Prop :=
  ∃ u ∈ leaves adjacent left, ∃ v ∈ leaves adjacent left, adjacent u v

/-- No round that starts above the target meets two leaves that are joined to each other. -/
def StaysApart (target : Int) (left : Finset V) : Prop :=
  ∀ rounds : Nat, target < (((peel adjacent)^[rounds] left).card : Int) →
    ¬ LeafPair adjacent ((peel adjacent)^[rounds] left)

/-- No round that starts above the target takes out more vertices than there are too many. -/
def NeverOvershoots (target : Int) (left : Finset V) : Prop :=
  ∀ rounds : Nat, target < (((peel adjacent)^[rounds] left).card : Int) →
    target + (batch adjacent ((peel adjacent)^[rounds] left)).card ≤
      ((peel adjacent)^[rounds] left).card

variable {adjacent} {left : Finset V}

omit [DecidableEq V] in
theorem leaf_neighbor {v : V} (leaf : v ∈ leaves adjacent left) :
    v ∈ left ∧ ∃ u ∈ left, adjacent v u ∧ ∀ w ∈ left, adjacent v w → w = u := by
  have ⟨member, single⟩ := Finset.mem_filter.mp leaf
  have ⟨u, only⟩ := Finset.card_eq_one.mp single
  have inside (w : V) : w ∈ left ∧ adjacent v w ↔ w = u := by
    rw [← Finset.mem_filter, only, Finset.mem_singleton]
  have ⟨there, joined⟩ := (inside u).mpr rfl
  exact ⟨member, u, there, joined, fun w here joined => (inside w).mp ⟨here, joined⟩⟩

theorem batch_subset : batch adjacent left ⊆ left := by
  unfold batch
  split
  next => exact Finset.filter_subset _ _
  next => exact Finset.filter_subset _ _

omit [DecidableEq V] in
theorem lowest_nonempty (nonempty : left.Nonempty) : (lowest adjacent left).Nonempty := by
  have ⟨v, member, least⟩ := Finset.exists_min_image left (degreeIn adjacent left) nonempty
  exact ⟨v, Finset.mem_filter.mpr ⟨member, least⟩⟩

theorem batch_nonempty (nonempty : left.Nonempty) : (batch adjacent left).Nonempty := by
  unfold batch
  split
  next => exact lowest_nonempty nonempty
  next some_leaf => exact Finset.nonempty_iff_ne_empty.mpr some_leaf

theorem peel_subset : peel adjacent left ⊆ left := Finset.sdiff_subset

theorem card_peel_lt (nonempty : left.Nonempty) : (peel adjacent left).card < left.card :=
  Finset.card_lt_card (Finset.sdiff_ssubset batch_subset (batch_nonempty nonempty))

theorem card_iterate_le (rounds : Nat) (left : Finset V) :
    ((peel adjacent)^[rounds] left).card ≤ left.card := by
  induction rounds generalizing left with
  | zero => exact le_refl _
  | succ rounds ih => exact (ih (peel adjacent left)).trans (Finset.card_le_card peel_subset)

theorem staysApart_done {target : Int} (done : (left.card : Int) ≤ target) :
    StaysApart adjacent target left := by
  intro rounds above
  have fewer : ((peel adjacent)^[rounds] left).card ≤ left.card := card_iterate_le rounds left
  omega

theorem staysApart_round {target : Int} (above : target < (left.card : Int)) :
    StaysApart adjacent target left ↔
      ¬ LeafPair adjacent left ∧ StaysApart adjacent target (peel adjacent left) := by
  constructor
  next => exact fun apart => ⟨apart 0 above, fun rounds => apart (rounds + 1)⟩
  next =>
    intro ⟨first, later⟩ rounds
    cases rounds with
    | zero => exact fun _ => first
    | succ rounds => exact later rounds

variable (adjacent) in
theorem card_peel (left : Finset V) :
    (peel adjacent left).card + (batch adjacent left).card = left.card :=
  Finset.card_sdiff_add_card_eq_card batch_subset

variable (adjacent) in
theorem card_iterate_antitone (left : Finset V) :
    Antitone fun rounds => ((peel adjacent)^[rounds] left).card := by
  apply antitone_nat_of_succ_le
  intro rounds
  rw [Function.iterate_succ_apply']
  exact Finset.card_le_card peel_subset

/-- Peeling that stops at its first size within the target hits the target exactly where it never
overshoots. -/
theorem neverOvershoots_iff {target : Int} (enough : target ≤ left.card) {rounds : Nat}
    (small : (((peel adjacent)^[rounds] left).card : Int) ≤ target)
    (before : ∀ fewer < rounds, target < (((peel adjacent)^[fewer] left).card : Int)) :
    NeverOvershoots adjacent target left ↔
      (((peel adjacent)^[rounds] left).card : Int) = target := by
  constructor
  next =>
    intro never
    cases rounds with
    | zero => exact le_antisymm small enough
    | succ rounds =>
      have kept := never rounds (before rounds (Nat.lt_succ_self rounds))
      have split := card_peel adjacent ((peel adjacent)^[rounds] left)
      rw [Function.iterate_succ_apply'] at small ⊢
      omega
  next =>
    intro hit start above
    have earlier : start < rounds := by
      by_contra late
      have fewer := card_iterate_antitone adjacent left (not_lt.mp late)
      simp only at fewer
      omega
    have last := card_iterate_antitone adjacent left (Nat.succ_le_of_lt earlier)
    have split := card_peel adjacent ((peel adjacent)^[start] left)
    simp only [Function.iterate_succ_apply'] at last
    omega

end Peeling
