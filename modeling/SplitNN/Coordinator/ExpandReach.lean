import Mathlib
import SplitNN.Shared.Transition
import SplitNN.Coordinator.ExpandTopology

set_option autoImplicit false

namespace SplitNN.Coordinator

open Relation (ReflTransGen)

def AsLinked (graph : AsGraph) (asn other : String) : Prop := other ∈ asNeighbors graph asn

-- The states in which the `while` loop tests its condition, up to its `break`.
def expanding (graph : AsGraph) (targetCount : Int) (start : AsGraph) :
    TransitionSystem AsGraph where
  initial st := st = start
  step st st' := (st.keys.length : Int) < targetCount ∧
    (candidateCounts graph st).entries ≠ [] ∧ st' = expandRound graph targetCount st

def neighborsInside (graph : AsGraph) (chosen : Finset String) (asn : String) : Nat :=
  ((asNeighbors graph asn).filter fun other => decide (other ∈ chosen)).length

/-- An AS joins where no AS outside has more neighbours inside. -/
def JoinsStrongest (graph : AsGraph) (st st' : AsGraph) : Prop :=
  ∀ asn ∈ st'.keys, asn ∉ st.keys → ∀ other, other ∉ st.keys →
    neighborsInside graph (chosenSet st) other ≤ neighborsInside graph (chosenSet st) asn

/-- The seeds and more, up to the target or to all that the seeds reach. -/
structure Expansion (graph : AsGraph) (seeds : Finset String) (targetCount : Int)
    (expandedGraph : AsGraph) : Prop where
  keeps : seeds ⊆ chosenSet expandedGraph
  size : (expandedGraph.keys.length : Int) ≤ max (seeds.card : Int) targetCount
  reached : (expandedGraph.keys.length : Int) < targetCount →
    ∀ asn, asn ∈ expandedGraph.keys ↔ ∃ seed ∈ seeds, ReflTransGen (AsLinked graph) seed asn

section Steps

variable {graph : AsGraph} {targetCount : Int} {start st st' : AsGraph}

theorem connections_eq_neighborsInside (sets : AsSets graph)
    (symmetric : ∀ asn other, other ∈ asNeighbors graph asn → asn ∈ asNeighbors graph other)
    (chosen : Finset String) (asn : String) :
    connections graph chosen asn = neighborsInside graph chosen asn := by
  rw [connections, neighborsInside, ← List.toFinset_card_of_nodup ((sets asn).filter _)]
  congr 1
  ext other
  simp only [Finset.mem_filter, List.mem_toFinset, List.mem_filter, decide_eq_true_eq]
  exact ⟨fun given => ⟨symmetric other asn given.2, given.1⟩,
    fun given => ⟨given.2, symmetric asn other given.1⟩⟩

theorem connections_outside {chosen : Finset String} {asn : String} (outside : asn ∉ chosen)
    (far : asn ∉ frontier graph chosen) : connections graph chosen asn = 0 := by
  rw [connections, Finset.card_eq_zero, Finset.filter_eq_empty_iff]
  intro other member adjacent
  exact far (mem_frontier.mpr ⟨⟨other, member, adjacent⟩, outside⟩)

theorem Extends.joinsStrongest (sets : AsSets graph)
    (symmetric : ∀ asn other, other ∈ asNeighbors graph asn → asn ∈ asNeighbors graph other)
    (grown : Extends graph targetCount st st') : JoinsStrongest graph st st' := by
  intro asn member new other outside
  have strong := Finset.mem_filter.mp (grown.added asn member new).1
  rw [← connections_eq_neighborsInside sets symmetric,
    ← connections_eq_neighborsInside sets symmetric]
  by_cases near : other ∈ frontier graph (chosenSet st)
  next => exact strong.2 other near
  next =>
    have away : other ∉ chosenSet st := fun inside => outside (List.mem_toFinset.mp inside)
    rw [connections_outside away near]
    exact Nat.zero_le _

theorem Extends.subset (grown : Extends graph targetCount st st') :
    chosenSet st ⊆ chosenSet st' := by
  intro asn member
  exact List.mem_toFinset.mpr (grown.mem_keys (List.mem_toFinset.mp member))

structure Expanding (graph : AsGraph) (seeds : Finset String) (targetCount : Int)
    (st : AsGraph) : Prop where
  keeps : seeds ⊆ chosenSet st
  size : (st.keys.length : Int) ≤ max (seeds.card : Int) targetCount
  reached : ∀ asn ∈ st.keys, ∃ seed ∈ seeds, ReflTransGen (AsLinked graph) seed asn

theorem Expanding.initially : Expanding graph (chosenSet start) targetCount start where
  keeps := Finset.Subset.refl _
  size := by
    rw [card_chosenSet]
    exact le_max_left _ _
  reached := fun asn member => ⟨asn, List.mem_toFinset.mpr member, .refl⟩

theorem Expanding.step {seeds : Finset String} (expanding : Expanding graph seeds targetCount st)
    (grown : Extends graph targetCount st st') : Expanding graph seeds targetCount st' := by
  constructor
  case keeps => exact expanding.keeps.trans grown.subset
  case size =>
    have before := expanding.size
    have size := grown.size
    omega
  case reached =>
    intro asn member
    by_cases old : asn ∈ st.keys
    next => exact expanding.reached asn old
    next =>
      have strong := Finset.mem_filter.mp (grown.added asn member old).1
      have ⟨other, chosen, adjacent⟩ := (mem_frontier.mp strong.1).1
      have ⟨seed, first, path⟩ := expanding.reached other (List.mem_toFinset.mp chosen)
      exact ⟨seed, first, path.tail adjacent⟩

theorem expanding_invariant (sets : AsSets graph)
    (reached : (expanding graph targetCount start).Reachable st) :
    Expanding graph (chosenSet start) targetCount st := by
  refine reached.invariant (P := Expanding graph (chosenSet start) targetCount)
    (fun st (first : st = start) => first ▸ Expanding.initially) ?_
  intro st st' holds ⟨_, _, round⟩
  exact holds.step (round ▸ expandRound_extends sets targetCount st)

-- Nothing next to the chosen ASes: they are closed under links.
theorem closed_of_no_frontier {chosen : Finset String} (empty : frontier graph chosen = ∅)
    {seed asn : String} (member : seed ∈ chosen) (path : ReflTransGen (AsLinked graph) seed asn) :
    asn ∈ chosen := by
  induction path with
  | refl => exact member
  | tail _ linked ih =>
    by_contra outside
    have near := mem_frontier.mpr ⟨⟨_, ih, linked⟩, outside⟩
    rw [empty] at near
    cases near

theorem expandRounds_steps (fuel : Nat) (start st : AsGraph) :
    ReflTransGen (expanding graph targetCount start).step st
      (expandRounds graph targetCount fuel st) := by
  induction fuel generalizing st with
  | zero => exact .refl
  | succ fuel ih =>
    unfold expandRounds
    split
    next room =>
      split
      next => exact .refl
      next near => exact .head ⟨room, near, rfl⟩ (ih _)
    next => exact .refl

theorem expandRounds_stuck (sets : AsSets graph) (start st : AsGraph) :
    (expanding graph targetCount start).Stuck
      (expandRounds graph targetCount targetCount.toNat st) := by
  intro st' ⟨room, near, _⟩
  rcases @expandRounds_ends graph targetCount st sets targetCount.toNat (by omega) with
    full | empty
  next => omega
  next => exact near ((candidateCounts_empty sets).mpr empty)

theorem Expanding.expansion {seeds : Finset String}
    (expanding : Expanding graph seeds targetCount st)
    (ended : targetCount ≤ st.keys.length ∨ frontier graph (chosenSet st) = ∅) :
    Expansion graph seeds targetCount (removeDangling st) := by
  have keys : (removeDangling st).keys = st.keys := keys_removeDangling
  constructor
  case keeps =>
    rw [chosenSet, keys]
    exact expanding.keeps
  case size =>
    rw [keys]
    exact expanding.size
  case reached =>
    rw [keys]
    intro short asn
    have empty := ended.resolve_left (not_le.mpr short)
    refine ⟨expanding.reached asn, ?_⟩
    rintro ⟨seed, first, path⟩
    exact List.mem_toFinset.mp (closed_of_no_frontier empty (expanding.keeps first) path)

end Steps

/-- The loop ends, at the target or with all that the seeds reach, and takes the strongest. -/
theorem expandTopology_expands {graph : AsGraph} (sets : AsSets graph)
    (symmetric : ∀ asn other, other ∈ asNeighbors graph asn → asn ∈ asNeighbors graph other)
    {asNumbers : Dict String String} {regionFilter : List String}
    (seeded : seedAsns graph asNumbers regionFilter ≠ []) (targetCount : Int)
    {seedOrder : List String → List String} (order : ∀ names, (seedOrder names).Perm names) :
    let result := expandTopology graph asNumbers regionFilter targetCount seedOrder
    Expansion graph (seedSet graph asNumbers regionFilter) targetCount result ∧
      ∃ start last, chosenSet start = seedSet graph asNumbers regionFilter ∧
        ReflTransGen (expanding graph targetCount start).step start last ∧
        (expanding graph targetCount start).Stuck last ∧ result = removeDangling last ∧
        ∀ st, (expanding graph targetCount start).Reachable st →
          ∀ st', (expanding graph targetCount start).step st st' → JoinsStrongest graph st st' := by
  have ⟨start, run, _, chosen⟩ := expandTopology_rounds targetCount order seeded
  let last := expandRounds graph targetCount targetCount.toNat start
  have steps : ReflTransGen (expanding graph targetCount start).step start last :=
    expandRounds_steps targetCount.toNat start start
  have reached := (TransitionSystem.Reachable.start
    (show (expanding graph targetCount start).initial start from rfl)).later steps
  have ended := @expandRounds_ends graph targetCount start sets targetCount.toNat (by omega)
  constructor
  next =>
    rw [run, ← chosen]
    exact (expanding_invariant sets reached).expansion ended
  next =>
    refine ⟨start, last, chosen, steps, expandRounds_stuck sets start start, run, ?_⟩
    intro st _ st' ⟨_, _, round⟩
    exact (round ▸ expandRound_extends sets targetCount st : Extends graph targetCount st st')
      |>.joinsStrongest sets symmetric

theorem expandTopology_expands_sample :
    let result := expandTopology sampleAsGraph sampleAsNumbers ["FR"] 2 id
    Expansion sampleAsGraph (seedSet sampleAsGraph sampleAsNumbers ["FR"]) 2 result ∧
      ∃ start last, chosenSet start = seedSet sampleAsGraph sampleAsNumbers ["FR"] ∧
        ReflTransGen (expanding sampleAsGraph 2 start).step start last ∧
        (expanding sampleAsGraph 2 start).Stuck last ∧ result = removeDangling last ∧
        ∀ st, (expanding sampleAsGraph 2 start).Reachable st →
          ∀ st', (expanding sampleAsGraph 2 start).step st st' →
            JoinsStrongest sampleAsGraph st st' :=
  expandTopology_expands sampleAsGraph_isAsGraph.sets sampleAsGraph_isAsGraph.symmetric
    (by decide) 2 List.Perm.refl

end SplitNN.Coordinator
