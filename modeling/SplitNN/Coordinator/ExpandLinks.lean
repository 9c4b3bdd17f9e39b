import Mathlib
import SplitNN.Coordinator.ExpandReach

set_option autoImplicit false

-- Which links an expanded topology still shows: a set is cut down when its AS joins, and stays so.
namespace SplitNN.Coordinator

open Relation (ReflTransGen)

section Sets

variable {graph : AsGraph} {targetCount : Int} {start st st' last : AsGraph}

theorem expanding_rightUnique (graph : AsGraph) (targetCount : Int) (start : AsGraph) :
    Relator.RightUnique (expanding graph targetCount start).step := by
  rintro st first second ⟨-, -, rfl⟩ ⟨-, -, rfl⟩
  rfl

theorem expanding_extends (sets : AsSets graph)
    (step : (expanding graph targetCount start).step st st') : Extends graph targetCount st st' :=
  step.2.2 ▸ expandRound_extends sets targetCount st

theorem expanding_mem_keys (sets : AsSets graph) {asn : String} (member : asn ∈ st.keys)
    (steps : ReflTransGen (expanding graph targetCount start).step st last) :
    asn ∈ last.keys := by
  induction steps with
  | refl => exact member
  | tail _ step ih => exact (expanding_extends sets step).mem_keys ih

theorem trimmed_get? (sets : AsSets graph) (trimmed : Trimmed st) {asn : String}
    (member : asn ∈ st.keys)
    (steps : ReflTransGen (expanding graph targetCount start).step st last) :
    last.get? asn = st.get? asn := by
  obtain ⟨neighbors, stored⟩ := st.exists_get? member
  induction steps with
  | refl => rfl
  | tail earlier step ih =>
    have grown := expanding_extends sets step
    rw [stored] at ih ⊢
    rw [grown.kept asn neighbors ih, List.filter_eq_self.mpr]
    intro other listed
    rw [Dict.get?_isSome]
    have known := trimmed asn neighbors stored other listed
    exact grown.mem_keys (expanding_mem_keys sets known earlier)

theorem exists_joining {asn : String} (member : asn ∈ last.keys)
    (steps : ReflTransGen (expanding graph targetCount start).step start last) :
    start = last ∨ ∃ st st', ReflTransGen (expanding graph targetCount start).step start st ∧
      (expanding graph targetCount start).step st st' ∧
      ReflTransGen (expanding graph targetCount start).step st' last ∧ asn ∈ st'.keys ∧
      (asn ∉ st.keys ∨ st = start) := by
  induction steps with
  | refl => exact .inl rfl
  | @tail before after earlier step ih =>
    by_cases old : asn ∈ before.keys
    next =>
      rcases ih old with same | ⟨st, st', first, joining, later, inside, new⟩
      · exact .inr ⟨before, after, earlier, step, .refl, member, .inr same.symm⟩
      · exact .inr ⟨st, st', first, joining, later.tail step, inside, new⟩
    next => exact .inr ⟨before, after, earlier, step, .refl, member, .inl old⟩

def JoinsWith (graph : AsGraph) (targetCount : Int) (start : AsGraph) (asn other : String) : Prop :=
  ∀ st st', ReflTransGen (expanding graph targetCount start).step start st →
    (expanding graph targetCount start).step st st' → asn ∈ st'.keys → other ∈ st'.keys

theorem joining_get? (sets : AsSets graph) (uncut : Uncut graph start) {asn : String}
    (step : (expanding graph targetCount start).step st st') (inside : asn ∈ st'.keys)
    (new : asn ∉ st.keys ∨ st = start) : st'.get? asn =
      some ((asNeighbors graph asn).filter fun other => (st'.get? other).isSome) := by
  have grown := expanding_extends sets step
  by_cases old : asn ∈ st.keys
  next =>
    obtain rfl := new.resolve_left fun absent => absent old
    exact grown.kept asn _ (uncut asn old)
  next => exact (grown.added asn inside old).2

theorem joinsWith_iff (sets : AsSets graph) {asn other : String}
    (first : ReflTransGen (expanding graph targetCount start).step start st)
    (step : (expanding graph targetCount start).step st st') (inside : asn ∈ st'.keys)
    (new : asn ∉ st.keys ∨ st = start) :
    JoinsWith graph targetCount start asn other ↔ other ∈ st'.keys := by
  refine ⟨fun joins => joins st st' first step inside, ?_⟩
  intro present s s' reached round shown
  have unique := expanding_rightUnique graph targetCount start
  have after (path : ReflTransGen (expanding graph targetCount start).step st s) :
      ReflTransGen (expanding graph targetCount start).step st' s' := by
    rcases path.cases_head with rfl | ⟨next, step', rest⟩
    · rw [unique step round]
    · rw [unique step step']
      exact rest.tail round
  rcases new with absent | rfl
  · rcases first.total_of_right_unique unique reached with path | path
    · exact expanding_mem_keys sets present (after path)
    · rcases path.cases_head with rfl | ⟨next, step', rest⟩
      · exact expanding_mem_keys sets present (after .refl)
      · rw [unique step' round] at rest
        exact absurd (expanding_mem_keys sets shown rest) absent
  · exact expanding_mem_keys sets present (after reached)

theorem expanded_neighbors (sets : AsSets graph) (uncut : Uncut graph start)
    (steps : ReflTransGen (expanding graph targetCount start).step start last)
    (stuck : (expanding graph targetCount start).Stuck last) (asn other : String) :
    other ∈ asNeighbors (removeDangling last) asn ↔
      (asn ∈ last.keys ∧ other ∈ last.keys ∧ AsLinked graph asn other) ∧
        JoinsWith graph targetCount start asn other := by
  by_cases member : asn ∈ last.keys
  case neg =>
    have missing := (last.get?_eq_none asn).mpr member
    simp [asNeighbors, Dict.getD, get?_removeDangling, missing, member]
  case pos =>
    rcases exists_joining member steps with rfl | ⟨st, st', first, step, later, inside, new⟩
    · have joins : JoinsWith graph targetCount start asn other := by
        intro st st' reached round
        rcases reached.cases_head with rfl | ⟨next, step', -⟩
        · exact absurd round (stuck st')
        · exact absurd step' (stuck next)
      rw [asNeighbors, Dict.getD, get?_removeDangling, uncut asn member]
      simp [member, joins, AsLinked, and_comm, Dict.get?_isSome]
    · have trimmed := (expanding_extends sets step).trimmed
      have shown := joining_get? sets uncut step inside new
      have kept := trimmed_get? sets trimmed inside later
      have present {name : String} (early : name ∈ st'.keys) : name ∈ last.keys :=
        expanding_mem_keys sets early later
      rw [joinsWith_iff sets first step inside new, asNeighbors, Dict.getD, get?_removeDangling,
        kept, shown]
      simp only [Option.map_some, Option.getD_some, List.mem_filter, Dict.get?_isSome, member,
        true_and, AsLinked]
      constructor
      · rintro ⟨⟨linked, early⟩, known⟩
        exact ⟨⟨known, linked⟩, early⟩
      · rintro ⟨⟨known, linked⟩, early⟩
        exact ⟨⟨linked, early⟩, known⟩

theorem expanded_sets (sets : AsSets graph) (uncut : Uncut graph start)
    (steps : ReflTransGen (expanding graph targetCount start).step start last) :
    AsSets (removeDangling last) := by
  have shown {asn : String} (member : asn ∈ last.keys) :
      ∃ shows, last.get? asn = some ((asNeighbors graph asn).filter shows) := by
    rcases exists_joining member steps with rfl | ⟨st, st', -, step, later, inside, new⟩
    · exact ⟨fun _ => true, by rw [List.filter_true]; exact uncut asn member⟩
    · have trimmed := (expanding_extends sets step).trimmed
      exact ⟨_, (trimmed_get? sets trimmed inside later).trans
        (joining_get? sets uncut step inside new)⟩
  intro asn
  rw [asNeighbors, Dict.getD, get?_removeDangling]
  by_cases member : asn ∈ last.keys
  next =>
    obtain ⟨shows, stored⟩ := shown member
    rw [stored]
    exact ((sets asn).filter _).filter _
  next =>
    rw [(last.get?_eq_none asn).mpr member]
    exact List.nodup_nil

end Sets

end SplitNN.Coordinator
