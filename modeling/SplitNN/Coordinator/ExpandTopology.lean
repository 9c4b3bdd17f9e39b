import Mathlib
import SplitNN.Coordinator.SubTopologyText

set_option autoImplicit false

namespace SplitNN.Coordinator

-- A set of neighbours is a repetition-free list in the set's iteration order.
abbrev AsGraph := Dict String (List String)

section Model

variable (graph : AsGraph) (asNumbers : Dict String String) (regionFilter : List String)
  (targetCount : Int)

def asNeighbors (asn : String) : List String := graph.getD asn []

def seedAsns : List String :=
  (asNumbers.entries.filter fun entry =>
    decide (entry.2 ∈ regionFilter) && (graph.get? entry.1).isSome).map Prod.fst

def candidateCounts (expandedGraph : AsGraph) : Dict String Nat :=
  Dict.countAll (expandedGraph.keys.flatMap fun asn =>
    (asNeighbors graph asn).filter fun neighbor => !(expandedGraph.get? neighbor).isSome)

def candidates (counts : Dict String Nat) : List String :=
  match counts.values.max? with
  | none => []
  | some maxConnections =>
    (counts.entries.filter fun entry => decide (entry.2 = maxConnections)).map Prod.fst

def addCandidates (expandedGraph : AsGraph) : List String → AsGraph
  | [] => expandedGraph
  | asn :: rest =>
    if targetCount ≤ expandedGraph.keys.length then expandedGraph
    else addCandidates (expandedGraph.set asn (asNeighbors graph asn)) rest

def removeDangling (expandedGraph : AsGraph) : AsGraph :=
  expandedGraph.mapValues fun neighbors =>
    neighbors.filter fun neighbor => (expandedGraph.get? neighbor).isSome

def expandRound (expandedGraph : AsGraph) : AsGraph :=
  removeDangling (addCandidates graph targetCount expandedGraph
    (candidates (candidateCounts graph expandedGraph)))

-- Each round of the `while` loop adds an AS, so the target bounds the number of rounds.
def expandRounds : Nat → AsGraph → AsGraph
  | 0, expandedGraph => expandedGraph
  | fuel + 1, expandedGraph =>
    if (expandedGraph.keys.length : Int) < targetCount then
      if (candidateCounts graph expandedGraph).entries = [] then expandedGraph
      else expandRounds fuel (expandRound graph targetCount expandedGraph)
    else expandedGraph

/-- `seedOrder` puts the set of seeds into its iteration order. -/
def expandTopology (seedOrder : List String → List String) : AsGraph :=
  if graph.entries = [] then Dict.empty
  else
    let seeds := seedOrder (seedAsns graph asNumbers regionFilter)
    if seeds = [] then Dict.empty
    else
      let expandedGraph := Dict.ofKeys seeds (asNeighbors graph)
      removeDangling (expandRounds graph targetCount targetCount.toNat expandedGraph)

end Model

section Save

variable (iterate : String → List String → List String) (graph : AsGraph)

def savedLinks : List (String × String) :=
  graph.entries.flatMap fun (as1, neighbors) =>
    ((iterate as1 neighbors).filter fun as2 =>
      (graph.get? as1).isSome && (graph.get? as2).isSome && decide (as1 < as2)).map fun as2 =>
        (as1, as2)

def saveExpandedTopology (validNodes : List String) : String :=
  " ".intercalate validNodes ++ "\n" ++ String.join ((savedLinks iterate graph).map recordLine)

end Save

section Frontier

variable (graph : AsGraph) (chosen : Finset String)

def frontier : Finset String :=
  (chosen.biUnion fun asn => (asNeighbors graph asn).toFinset) \ chosen

def connections (asn : String) : Nat :=
  (chosen.filter fun other => asn ∈ asNeighbors graph other).card

def strongest : Finset String :=
  (frontier graph chosen).filter fun asn =>
    ∀ other ∈ frontier graph chosen, connections graph chosen other ≤ connections graph chosen asn

/-- The first round reaches the target or leaves nothing next to the chosen ASes. -/
def OneRound (targetCount : Int) : Prop :=
  targetCount ≤ chosen.card + (strongest graph chosen).card ∨
    frontier graph (chosen ∪ strongest graph chosen) = ∅

end Frontier

section Counts

variable {graph : AsGraph} {expandedGraph : AsGraph}

def AsSets (graph : AsGraph) : Prop := ∀ asn, (asNeighbors graph asn).Nodup

def chosenSet (expandedGraph : AsGraph) : Finset String := expandedGraph.keys.toFinset

theorem mem_chosenSet {asn : String} :
    asn ∈ chosenSet expandedGraph ↔ (expandedGraph.get? asn).isSome := by
  rw [chosenSet, List.mem_toFinset, Dict.get?_isSome]

theorem card_chosenSet : (chosenSet expandedGraph).card = expandedGraph.keys.length :=
  List.toFinset_card_of_nodup expandedGraph.keys_nodup

theorem mem_frontier {chosen : Finset String} {asn : String} : asn ∈ frontier graph chosen ↔
    (∃ other ∈ chosen, asn ∈ asNeighbors graph other) ∧ asn ∉ chosen := by
  simp [frontier]

theorem count_flatMap_sets {names : List String} {sets : String → List String}
    (distinct : ∀ name, (sets name).Nodup) (asn : String) :
    (names.flatMap sets).count asn = names.countP fun name => decide (asn ∈ sets name) := by
  induction names with
  | nil => rfl
  | cons name rest ih =>
    rw [List.flatMap_cons, List.count_append, List.countP_cons, ih, (distinct name).count]
    split <;> simp_all [Nat.add_comm]

theorem get?_candidateCounts (sets : AsSets graph) (asn : String) :
    (candidateCounts graph expandedGraph).get? asn =
      if asn ∈ frontier graph (chosenSet expandedGraph) then
        some (connections graph (chosenSet expandedGraph) asn) else none := by
  have outside (other : String) : asn ∈ (asNeighbors graph other).filter (fun neighbor =>
      !(expandedGraph.get? neighbor).isSome) ↔
      asn ∈ asNeighbors graph other ∧ asn ∉ chosenSet expandedGraph := by
    simp [mem_chosenSet]
  rw [candidateCounts, Dict.get?_countAll]
  have listed : asn ∈ (expandedGraph.keys.flatMap fun other =>
      (asNeighbors graph other).filter fun neighbor => !(expandedGraph.get? neighbor).isSome) ↔
      asn ∈ frontier graph (chosenSet expandedGraph) := by
    simp only [List.mem_flatMap, outside, mem_frontier, chosenSet, List.mem_toFinset]
    constructor
    · rintro ⟨other, member, adjacent, absent⟩
      exact ⟨⟨other, member, adjacent⟩, absent⟩
    · rintro ⟨⟨other, member, adjacent⟩, absent⟩
      exact ⟨other, member, adjacent, absent⟩
  by_cases near : asn ∈ frontier graph (chosenSet expandedGraph)
  next =>
    rw [if_pos (listed.mpr near), if_pos near,
      count_flatMap_sets fun other => (sets other).filter _]
    have absent := (mem_frontier.mp near).2
    simp only [outside, absent, not_false_eq_true, and_true]
    have chosen : (chosenSet expandedGraph).filter (fun other => asn ∈ asNeighbors graph other) =
        (expandedGraph.keys.filter fun other =>
          decide (asn ∈ asNeighbors graph other)).toFinset := by
      ext other
      simp [chosenSet]
    rw [connections, chosen, List.toFinset_card_of_nodup (expandedGraph.keys_nodup.filter _),
      List.countP_eq_length_filter]
  next => rw [if_neg (mt listed.mp near), if_neg near]

theorem mem_keys_candidateCounts (sets : AsSets graph) {asn : String} :
    asn ∈ (candidateCounts graph expandedGraph).keys ↔
      asn ∈ frontier graph (chosenSet expandedGraph) := by
  rw [← Dict.get?_isSome, get?_candidateCounts sets]
  split <;> simp_all

theorem candidateCounts_empty (sets : AsSets graph) :
    (candidateCounts graph expandedGraph).entries = [] ↔
      frontier graph (chosenSet expandedGraph) = ∅ := by
  have keys (asn : String) := @mem_keys_candidateCounts graph expandedGraph sets asn
  simp only [Finset.eq_empty_iff_forall_notMem, ← keys, Dict.keys]
  rw [← List.map_eq_nil_iff, List.eq_nil_iff_forall_not_mem]

theorem mem_candidates (sets : AsSets graph) {asn : String} :
    asn ∈ candidates (candidateCounts graph expandedGraph) ↔
      asn ∈ strongest graph (chosenSet expandedGraph) := by
  have counted := @get?_candidateCounts graph expandedGraph sets
  unfold candidates
  split
  next empty =>
    have none : (candidateCounts graph expandedGraph).entries = [] := by
      simpa [Dict.values] using empty
    simp [strongest, (candidateCounts_empty sets).mp none]
  next maxConnections found =>
    obtain ⟨member, bound⟩ := List.max?_eq_some_iff.mp found
    have entry : asn ∈ ((candidateCounts graph expandedGraph).entries.filter fun entry =>
        decide (entry.2 = maxConnections)).map Prod.fst ↔
        (candidateCounts graph expandedGraph).get? asn = some maxConnections := by
      simp [Dict.get?_eq_some]
    have least (other : String) (near : other ∈ frontier graph (chosenSet expandedGraph)) :
        connections graph (chosenSet expandedGraph) other ≤ maxConnections := by
      apply bound
      rw [Dict.mem_values]
      exact ⟨other, by rw [counted, if_pos near]⟩
    obtain ⟨top, stored⟩ := (Dict.mem_values _ _).mp member
    rw [counted] at stored
    split at stored
    next topNear =>
      rw [entry, counted, strongest, Finset.mem_filter]
      constructor
      · intro given
        split at given
        next near =>
          cases Option.some.inj given
          exact ⟨near, least⟩
        next => cases given
      · rintro ⟨near, largest⟩
        rw [if_pos near]
        have above := largest top topNear
        rw [Option.some.inj stored] at above
        exact congrArg some (le_antisymm (least asn near) above)
    next => cases stored

theorem candidates_nodup (counts : Dict String Nat) : (candidates counts).Nodup := by
  unfold candidates
  split
  next => simp
  next => exact counts.distinct.sublist (List.filter_sublist.map Prod.fst)

end Counts

section Rounds

variable {graph : AsGraph} {targetCount : Int} {expandedGraph : AsGraph}

theorem addCandidates_entries (names : List String)
    (fresh : (expandedGraph.keys ++ names).Nodup) :
    (addCandidates graph targetCount expandedGraph names).entries = expandedGraph.entries ++
      (names.take (targetCount - expandedGraph.keys.length).toNat).map fun asn =>
        (asn, asNeighbors graph asn) := by
  induction names generalizing expandedGraph with
  | nil => simp [addCandidates]
  | cons asn rest ih =>
    unfold addCandidates
    split
    next full =>
      have none : (targetCount - expandedGraph.keys.length).toNat = 0 := by omega
      simp [none]
    next room =>
      have absent : asn ∉ expandedGraph.keys := by
        intro member
        exact (List.nodup_append.mp fresh).2.2 asn member asn (by simp) rfl
      have keys : (expandedGraph.set asn (asNeighbors graph asn)).keys =
          expandedGraph.keys ++ [asn] := by rw [Dict.keys_set, if_neg absent]
      have left : (targetCount - expandedGraph.keys.length).toNat =
          (targetCount - (expandedGraph.keys ++ [asn]).length).toNat + 1 := by
        simp only [List.length_append, List.length_singleton]
        omega
      rw [ih (by simpa [keys] using fresh), Dict.set_entries_absent _ absent, keys, left]
      simp

structure Extends (graph : AsGraph) (targetCount : Int) (before after : AsGraph) : Prop where
  kept : ∀ asn neighbors, before.get? asn = some neighbors →
    after.get? asn = some (neighbors.filter fun other => (after.get? other).isSome)
  added : ∀ asn, asn ∈ after.keys → asn ∉ before.keys →
    asn ∈ strongest graph (chosenSet before) ∧ after.get? asn =
      some ((asNeighbors graph asn).filter fun other => (after.get? other).isSome)
  size : after.keys.length = before.keys.length +
    min (targetCount - before.keys.length).toNat (strongest graph (chosenSet before)).card

theorem strongest_outside {chosen : Finset String} {asn : String}
    (member : asn ∈ strongest graph chosen) : asn ∉ chosen :=
  (mem_frontier.mp (Finset.mem_filter.mp member).1).2

theorem expandRound_extends (sets : AsSets graph) (targetCount : Int) (expandedGraph : AsGraph) :
    Extends graph targetCount expandedGraph (expandRound graph targetCount expandedGraph) := by
  let names := candidates (candidateCounts graph expandedGraph)
  let added := addCandidates graph targetCount expandedGraph names
  have distinct : names.Nodup := candidates_nodup _
  have outside (asn : String) (member : asn ∈ names) : asn ∉ expandedGraph.keys := by
    have away := strongest_outside ((mem_candidates sets).mp member)
    rwa [chosenSet, List.mem_toFinset] at away
  have fresh : (expandedGraph.keys ++ names).Nodup :=
    expandedGraph.keys_nodup.append distinct fun asn old new => outside asn new old
  have entries := @addCandidates_entries graph targetCount expandedGraph names fresh
  have count : names.length = (strongest graph (chosenSet expandedGraph)).card := by
    rw [← List.toFinset_card_of_nodup distinct]
    congr 1
    ext asn
    rw [List.mem_toFinset]
    exact mem_candidates sets
  have found (asn : String) (neighbors : List String) : added.get? asn = some neighbors ↔
      expandedGraph.get? asn = some neighbors ∨ asn ∈ names.take
        (targetCount - expandedGraph.keys.length).toNat ∧ neighbors = asNeighbors graph asn := by
    rw [Dict.get?_eq_some, Dict.get?_eq_some, entries, List.mem_append, List.mem_map]
    apply or_congr_right
    constructor
    · rintro ⟨other, taken, same⟩
      cases same
      exact ⟨taken, rfl⟩
    · rintro ⟨taken, same⟩
      exact ⟨asn, taken, by rw [same]⟩
  have value (asn : String) : (expandRound graph targetCount expandedGraph).get? asn =
      (added.get? asn).map fun neighbors =>
        neighbors.filter fun other => (added.get? other).isSome :=
    Dict.get?_mapValues _ _ asn
  have same (asn : String) : ((expandRound graph targetCount expandedGraph).get? asn).isSome =
      (added.get? asn).isSome := by rw [value, Option.isSome_map]
  constructor
  case kept =>
    intro asn neighbors stored
    rw [value, (found asn neighbors).mpr (.inl stored)]
    simp only [same, Option.map_some]
  case added =>
    intro asn member new
    rw [← Dict.get?_isSome, same, Option.isSome_iff_exists] at member
    obtain ⟨neighbors, stored⟩ := member
    rcases (found asn neighbors).mp stored with old | ⟨taken, full⟩
    · exact absurd (Dict.mem_keys_of_get? old) new
    · refine ⟨(mem_candidates sets).mp (List.mem_of_mem_take taken), ?_⟩
      rw [value, stored, full]
      simp only [same, Option.map_some]
  case size =>
    have keys : (expandRound graph targetCount expandedGraph).keys = added.keys :=
      Dict.keys_mapValues _ _
    rw [keys, Dict.keys, entries, ← count]
    simp [Dict.keys]

theorem Extends.mem_keys {before after : AsGraph} (grown : Extends graph targetCount before after)
    {asn : String} (member : asn ∈ before.keys) : asn ∈ after.keys := by
  have ⟨neighbors, stored⟩ := before.exists_get? member
  exact Dict.mem_keys_of_get? (grown.kept asn neighbors stored)

def Trimmed (expandedGraph : AsGraph) : Prop :=
  ∀ asn neighbors, expandedGraph.get? asn = some neighbors →
    ∀ other ∈ neighbors, other ∈ expandedGraph.keys

def Lost (graph expandedGraph : AsGraph) : Prop :=
  ∃ asn neighbors other, expandedGraph.get? asn = some neighbors ∧ other ∈ expandedGraph.keys ∧
    other ∈ asNeighbors graph asn ∧ other ∉ neighbors

theorem Extends.trimmed {before after : AsGraph}
    (grown : Extends graph targetCount before after) : Trimmed after := by
  intro asn neighbors stored other listed
  have filtered : ∃ whole : List String,
      after.get? asn = some (whole.filter fun other => (after.get? other).isSome) := by
    by_cases old : asn ∈ before.keys
    next =>
      have ⟨whole, storedBefore⟩ := before.exists_get? old
      exact ⟨whole, grown.kept asn whole storedBefore⟩
    next =>
      exact ⟨_, (grown.added asn (Dict.mem_keys_of_get? stored) old).2⟩
  have ⟨whole, storedWhole⟩ := filtered
  cases Option.some.inj (stored.symm.trans storedWhole)
  exact (Dict.get?_isSome _ _).mp (List.mem_filter.mp listed).2

theorem Extends.lost {before after : AsGraph} (grown : Extends graph targetCount before after)
    (lost : Lost graph before) : Lost graph after := by
  have ⟨asn, neighbors, other, stored, member, adjacent, missing⟩ := lost
  exact ⟨asn, _, other, grown.kept asn neighbors stored, grown.mem_keys member, adjacent,
    fun listed => missing (List.mem_filter.mp listed).1⟩

theorem strongest_nonempty {chosen : Finset String} (near : frontier graph chosen ≠ ∅) :
    (strongest graph chosen).Nonempty := by
  have ⟨asn, member, largest⟩ := Finset.exists_max_image (frontier graph chosen)
    (connections graph chosen) (Finset.nonempty_iff_ne_empty.mpr near)
  exact ⟨asn, Finset.mem_filter.mpr ⟨member, largest⟩⟩

theorem Extends.grows {before after : AsGraph} (grown : Extends graph targetCount before after)
    (room : (before.keys.length : Int) < targetCount)
    (near : frontier graph (chosenSet before) ≠ ∅) : before.keys.length < after.keys.length := by
  have some_one := Finset.card_pos.mpr (strongest_nonempty near)
  have size := grown.size
  omega

-- The AS that joins is next to one whose set was already cut down to the earlier ASes.
theorem Extends.loses {before after : AsGraph} (grown : Extends graph targetCount before after)
    (trimmed : Trimmed before) (room : (before.keys.length : Int) < targetCount)
    (near : frontier graph (chosenSet before) ≠ ∅) : Lost graph after := by
  have ⟨asn, member, new⟩ : ∃ asn ∈ after.keys, asn ∉ before.keys := by
    by_contra none
    simp only [not_exists, not_and, not_not] at none
    have fewer := (after.keys_nodup.subperm none).length_le
    exact absurd (grown.grows room near) (not_lt.mpr fewer)
  have strong := (grown.added asn member new).1
  have ⟨other, chosen, adjacent⟩ := (mem_frontier.mp (Finset.mem_filter.mp strong).1).1
  have ⟨neighbors, stored⟩ := before.exists_get? (List.mem_toFinset.mp chosen)
  refine ⟨other, _, asn, grown.kept other neighbors stored, member, adjacent, ?_⟩
  intro listed
  exact new (trimmed other neighbors stored asn (List.mem_filter.mp listed).1)

theorem get?_removeDangling (asn : String) : (removeDangling expandedGraph).get? asn =
    (expandedGraph.get? asn).map fun neighbors =>
      neighbors.filter fun other => (expandedGraph.get? other).isSome :=
  Dict.get?_mapValues _ _ asn

@[simp] theorem keys_removeDangling : (removeDangling expandedGraph).keys = expandedGraph.keys :=
  Dict.keys_mapValues _ _

theorem Lost.removeDangling (lost : Lost graph expandedGraph) :
    Lost graph (removeDangling expandedGraph) := by
  have ⟨asn, neighbors, other, stored, member, adjacent, missing⟩ := lost
  have cut := @get?_removeDangling expandedGraph asn
  rw [stored, Option.map_some] at cut
  exact ⟨asn, _, other, cut, by simpa using member, adjacent,
    fun listed => missing (List.mem_filter.mp listed).1⟩

theorem Lost.expandRounds (sets : AsSets graph) (fuel : Nat) (lost : Lost graph expandedGraph) :
    Lost graph (expandRounds graph targetCount fuel expandedGraph) := by
  induction fuel generalizing expandedGraph with
  | zero => exact lost
  | succ fuel ih =>
    unfold Coordinator.expandRounds
    split
    next =>
      split
      next => exact lost
      next => exact ih ((expandRound_extends sets targetCount expandedGraph).lost lost)
    next => exact lost

theorem expandRounds_ends (sets : AsSets graph) (fuel : Nat)
    (enough : targetCount ≤ expandedGraph.keys.length + fuel) :
    targetCount ≤ (expandRounds graph targetCount fuel expandedGraph).keys.length ∨
      frontier graph (chosenSet (expandRounds graph targetCount fuel expandedGraph)) = ∅ := by
  induction fuel generalizing expandedGraph with
  | zero => exact .inl (by simpa [expandRounds] using enough)
  | succ fuel ih =>
    unfold Coordinator.expandRounds
    split
    next room =>
      split
      next empty => exact .inr ((candidateCounts_empty sets).mp empty)
      next near =>
        have grown := expandRound_extends sets targetCount expandedGraph
        have more := grown.grows room (mt (candidateCounts_empty sets).mpr near)
        exact ih (by push_cast at enough; omega)
    next full => exact .inl (not_lt.mp full)

/-- The links between chosen ASes, and no others. -/
def Induced (graph expandedGraph : AsGraph) : Prop :=
  ∀ asn other, other ∈ asNeighbors expandedGraph asn ↔
    asn ∈ expandedGraph.keys ∧ other ∈ expandedGraph.keys ∧ other ∈ asNeighbors graph asn

theorem Lost.not_induced (lost : Lost graph expandedGraph) : ¬ Induced graph expandedGraph := by
  intro induced
  have ⟨asn, neighbors, other, stored, member, adjacent, missing⟩ := lost
  apply missing
  have listed := (induced asn other).mpr ⟨Dict.mem_keys_of_get? stored, member, adjacent⟩
  simpa [asNeighbors, Dict.getD, stored] using listed

def CutDown (graph expandedGraph : AsGraph) : Prop :=
  ∀ asn ∈ expandedGraph.keys, expandedGraph.get? asn =
    some ((asNeighbors graph asn).filter fun other => (expandedGraph.get? other).isSome)

theorem CutDown.induced (cut : CutDown graph expandedGraph) : Induced graph expandedGraph := by
  intro asn other
  by_cases member : asn ∈ expandedGraph.keys
  next =>
    rw [asNeighbors, Dict.getD, cut asn member, Option.getD_some, List.mem_filter,
      Dict.get?_isSome]
    simp [member, and_comm]
  next =>
    have missing := (expandedGraph.get?_eq_none asn).mpr member
    simp [asNeighbors, Dict.getD, missing, member]

theorem CutDown.removeDangling (cut : CutDown graph expandedGraph) :
    CutDown graph (removeDangling expandedGraph) := by
  intro asn member
  rw [keys_removeDangling] at member
  simp only [get?_removeDangling, Option.isSome_map, cut asn member, Option.map_some,
    List.filter_filter, Bool.and_self]

def Uncut (graph expandedGraph : AsGraph) : Prop :=
  ∀ asn ∈ expandedGraph.keys, expandedGraph.get? asn = some (asNeighbors graph asn)

theorem Uncut.removeDangling (uncut : Uncut graph expandedGraph) :
    CutDown graph (removeDangling expandedGraph) := by
  intro asn member
  rw [keys_removeDangling] at member
  simp only [get?_removeDangling, Option.isSome_map, uncut asn member, Option.map_some]

theorem Extends.cutDown {before after : AsGraph} (grown : Extends graph targetCount before after)
    (uncut : Uncut graph before) : CutDown graph after := by
  intro asn member
  by_cases old : asn ∈ before.keys
  next => exact grown.kept asn _ (uncut asn old)
  next => exact (grown.added asn member old).2

theorem Extends.chosenSet_eq {before after : AsGraph}
    (grown : Extends graph targetCount before after)
    (room : ((chosenSet before).card + (strongest graph (chosenSet before)).card : Int) ≤
      targetCount) : chosenSet after = chosenSet before ∪ strongest graph (chosenSet before) := by
  have size := grown.size
  apply Finset.eq_of_subset_of_card_le
  · intro asn member
    rw [Finset.mem_union]
    by_cases old : asn ∈ before.keys
    next => exact .inl (List.mem_toFinset.mpr old)
    next => exact .inr (grown.added asn (List.mem_toFinset.mp member) old).1
  · apply (Finset.card_union_le _ _).trans
    rw [card_chosenSet] at room ⊢
    rw [card_chosenSet]
    omega

theorem expandRounds_stays (sets : AsSets graph) (fuel : Nat)
    (ended : targetCount ≤ expandedGraph.keys.length ∨
      frontier graph (chosenSet expandedGraph) = ∅) :
    expandRounds graph targetCount fuel expandedGraph = expandedGraph := by
  cases fuel with
  | zero => rfl
  | succ fuel =>
    unfold expandRounds
    split
    next room =>
      have empty := ended.resolve_left (not_le.mpr room)
      rw [if_pos ((candidateCounts_empty sets).mpr empty)]
    next => rfl

theorem expandRounds_cutDown (sets : AsSets graph) (uncut : Uncut graph expandedGraph)
    (once : OneRound graph (chosenSet expandedGraph) targetCount) (fuel : Nat) :
    CutDown graph (removeDangling (expandRounds graph targetCount fuel expandedGraph)) := by
  cases fuel with
  | zero => exact uncut.removeDangling
  | succ fuel =>
    unfold expandRounds
    split
    next room =>
      split
      next => exact uncut.removeDangling
      next near =>
        have grown := expandRound_extends sets targetCount expandedGraph
        rw [expandRounds_stays sets]
        next => exact (grown.cutDown uncut).removeDangling
        have size := grown.size
        by_cases reaches : targetCount ≤
            (chosenSet expandedGraph).card + (strongest graph (chosenSet expandedGraph)).card
        next =>
          left
          rw [card_chosenSet] at reaches
          omega
        next =>
          right
          rw [grown.chosenSet_eq (not_le.mp reaches).le]
          exact once.resolve_left reaches
    next => exact uncut.removeDangling

theorem expandRounds_loses (sets : AsSets graph)
    (more : ¬ OneRound graph (chosenSet expandedGraph) targetCount) {fuel : Nat}
    (enough : targetCount ≤ expandedGraph.keys.length + fuel) :
    Lost graph (expandRounds graph targetCount fuel expandedGraph) := by
  rw [OneRound, not_or, not_le] at more
  have ⟨short, nearSecond⟩ := more
  have nearFirst : frontier graph (chosenSet expandedGraph) ≠ ∅ := by
    intro empty
    have none : strongest graph (chosenSet expandedGraph) = ∅ := by simp [strongest, empty]
    rw [none, Finset.union_empty] at nearSecond
    exact nearSecond empty
  have some_one := Finset.card_pos.mpr (strongest_nonempty nearFirst)
  have first := expandRound_extends sets targetCount expandedGraph
  have chosen := first.chosenSet_eq short.le
  have firstSize := first.size
  rw [card_chosenSet] at short
  obtain ⟨rounds, rfl⟩ : ∃ rounds, fuel = rounds + 2 := ⟨fuel - 2, by omega⟩
  have second := expandRound_extends sets targetCount (expandRound graph targetCount expandedGraph)
  have lost := second.loses first.trimmed (by omega) (by rwa [chosen])
  rw [expandRounds, if_pos (by omega), if_neg (mt (candidateCounts_empty sets).mp nearFirst),
    expandRounds, if_pos (by omega), if_neg (mt (candidateCounts_empty sets).mp (by rwa [chosen]))]
  exact lost.expandRounds sets rounds

end Rounds

section Results

variable {graph : AsGraph} {asNumbers : Dict String String} {targetCount : Int}
  {regionFilter : List String} {seedOrder : List String → List String}

/-- Neighbour sets without repetition, symmetric and without loops. -/
structure IsAsGraph (graph : AsGraph) : Prop where
  sets : AsSets graph
  symmetric : ∀ asn other, other ∈ asNeighbors graph asn → asn ∈ asNeighbors graph other
  loopFree : ∀ asn, asn ∉ asNeighbors graph asn

def seedSet (graph : AsGraph) (asNumbers : Dict String String) (regionFilter : List String) :
    Finset String := (seedAsns graph asNumbers regionFilter).toFinset

theorem seedAsns_nodup : (seedAsns graph asNumbers regionFilter).Nodup :=
  asNumbers.distinct.sublist (List.filter_sublist.map Prod.fst)

theorem expandTopology_rounds (targetCount : Int)
    (order : ∀ names, (seedOrder names).Perm names)
    (seeded : seedAsns graph asNumbers regionFilter ≠ []) :
    ∃ start, expandTopology graph asNumbers regionFilter targetCount seedOrder =
        removeDangling (expandRounds graph targetCount targetCount.toNat start) ∧
      Uncut graph start ∧ chosenSet start = seedSet graph asNumbers regionFilter := by
  let seeds := seedOrder (seedAsns graph asNumbers regionFilter)
  have listed := order (seedAsns graph asNumbers regionFilter)
  have distinct : seeds.Nodup := listed.nodup_iff.mpr seedAsns_nodup
  have nonempty : seeds ≠ [] := fun empty => seeded (List.perm_nil.mp (empty ▸ listed.symm))
  have known : graph.entries ≠ [] := by
    intro empty
    apply seeded
    simp [seedAsns, Dict.get?, empty]
  refine ⟨Dict.ofKeys seeds (asNeighbors graph), ?_, ?_, ?_⟩
  · rw [expandTopology, if_neg known]
    simp only [seeds] at nonempty ⊢
    rw [if_neg nonempty]
  · intro asn member
    rw [Dict.keys_ofKeys distinct] at member
    rw [Dict.get?_ofKeys, if_pos member]
  · rw [chosenSet, Dict.keys_ofKeys distinct, seedSet]
    exact List.toFinset_eq_of_perm _ _ listed

def SavedOnce (graph expandedGraph : AsGraph) (iterate : String → List String → List String) :
    Prop :=
  ∀ asn other, asn ≠ other →
    (savedLinks iterate expandedGraph).count (asn, other) +
      (savedLinks iterate expandedGraph).count (other, asn) =
    if asn ∈ expandedGraph.keys ∧ other ∈ expandedGraph.keys ∧ other ∈ asNeighbors graph asn then 1
    else 0

theorem mem_savedLinks {expandedGraph : AsGraph} {iterate : String → List String → List String}
    (order : ∀ asn names, (iterate asn names).Perm names) {asn other : String} :
    (asn, other) ∈ savedLinks iterate expandedGraph ↔
      (other ∈ asNeighbors expandedGraph asn ∧ other ∈ expandedGraph.keys) ∧ asn < other := by
  simp only [savedLinks, List.mem_flatMap, List.mem_map, List.mem_filter, (order _ _).mem_iff,
    Bool.and_eq_true, decide_eq_true_eq, Dict.get?_isSome]
  constructor
  · rintro ⟨⟨as1, neighbors⟩, entry, as2, ⟨listed, ⟨_, known⟩, less⟩, same⟩
    cases same
    have stored := (expandedGraph.get?_eq_some _ _).mpr entry
    exact ⟨⟨by simpa [asNeighbors, Dict.getD, stored] using listed, known⟩, less⟩
  · rintro ⟨⟨listed, known⟩, less⟩
    cases stored : expandedGraph.get? asn with
    | none => simp [asNeighbors, Dict.getD, stored] at listed
    | some neighbors =>
      have entry := (expandedGraph.get?_eq_some _ _).mp stored
      rw [asNeighbors, Dict.getD, stored, Option.getD_some] at listed
      exact ⟨(asn, neighbors), entry, other,
        ⟨listed, ⟨Dict.mem_keys_of_get? stored, known⟩, less⟩, rfl⟩

theorem savedLinks_nodup {expandedGraph : AsGraph} (sets : AsSets expandedGraph)
    {iterate : String → List String → List String}
    (order : ∀ asn names, (iterate asn names).Perm names) :
    (savedLinks iterate expandedGraph).Nodup := by
  rw [savedLinks, List.nodup_flatMap]
  constructor
  · intro entry member
    have stored := (expandedGraph.get?_eq_some _ _).mpr member
    have distinct := sets entry.1
    rw [asNeighbors, Dict.getD, stored, Option.getD_some] at distinct
    exact (((order _ _).nodup_iff.mpr distinct).filter _).map fun _ _ same => (Prod.mk.inj same).2
  · have apart := List.pairwise_map.mp expandedGraph.distinct
    apply apart.imp
    intro entry entry' different link first second
    obtain ⟨_, _, left⟩ := List.mem_map.mp first
    obtain ⟨_, _, right⟩ := List.mem_map.mp second
    exact different (by rw [← (Prod.mk.inj (left.trans right.symm)).1])

theorem Induced.savedOnce {expandedGraph : AsGraph} (asGraph : IsAsGraph graph)
    (induced : Induced graph expandedGraph) (sets : AsSets expandedGraph)
    {iterate : String → List String → List String}
    (order : ∀ asn names, (iterate asn names).Perm names) :
    SavedOnce graph expandedGraph iterate := by
  intro asn other different
  have distinct := savedLinks_nodup sets order
  have back : asn ∈ asNeighbors graph other ↔ other ∈ asNeighbors graph asn :=
    ⟨asGraph.symmetric other asn, asGraph.symmetric asn other⟩
  rw [distinct.count, distinct.count]
  simp only [mem_savedLinks order, induced asn other, induced other asn, back]
  rcases lt_or_gt_of_ne different with less | greater
  · simp only [less, not_lt_of_gt less, and_true, and_false, if_false, Nat.add_zero]
    congr 1
    rw [eq_iff_iff]
    exact ⟨And.left, fun given => ⟨given, given.2.1⟩⟩
  · simp only [greater, not_lt_of_gt greater, and_true, and_false, if_false, Nat.zero_add]
    congr 1
    rw [eq_iff_iff]
    exact ⟨fun given => ⟨given.2, given.1.1, given.1.2.2⟩,
      fun given => ⟨⟨given.2.1, given.1, given.2.2⟩, given.1⟩⟩

theorem CutDown.sets {expandedGraph : AsGraph} (cut : CutDown graph expandedGraph)
    (sets : AsSets graph) : AsSets expandedGraph := by
  intro asn
  by_cases member : asn ∈ expandedGraph.keys
  next =>
    rw [asNeighbors, Dict.getD, cut asn member, Option.getD_some]
    exact (sets asn).filter _
  next =>
    have missing := (expandedGraph.get?_eq_none asn).mpr member
    simp [asNeighbors, Dict.getD, missing]

/-- The result is the induced sub-graph, and the saved file lists each of its links once. -/
structure KeepsLinks (graph expandedGraph : AsGraph)
    (iterate : String → List String → List String) : Prop where
  induced : Induced graph expandedGraph
  saved : SavedOnce graph expandedGraph iterate

theorem expandTopology_loses (asGraph : IsAsGraph graph)
    (order : ∀ names, (seedOrder names).Perm names)
    (seeded : seedAsns graph asNumbers regionFilter ≠ [])
    (more : ¬ OneRound graph (seedSet graph asNumbers regionFilter) targetCount) :
    ¬ Induced graph (expandTopology graph asNumbers regionFilter targetCount seedOrder) := by
  have ⟨start, run, _, chosen⟩ := expandTopology_rounds targetCount order seeded
  rw [← chosen] at more
  rw [run]
  exact ((expandRounds_loses asGraph.sets more (by omega)).removeDangling).not_induced

end Results

/-- Every link between chosen ASes is kept exactly where a single round decides. -/
theorem expandTopology_keepsLinks_iff {graph : AsGraph} (asGraph : IsAsGraph graph)
    {asNumbers : Dict String String} {regionFilter : List String}
    (seeded : seedAsns graph asNumbers regionFilter ≠ []) (targetCount : Int)
    {seedOrder : List String → List String} (seedsIterate : ∀ names, (seedOrder names).Perm names)
    {iterate : String → List String → List String}
    (setsIterate : ∀ asn names, (iterate asn names).Perm names) :
    KeepsLinks graph (expandTopology graph asNumbers regionFilter targetCount seedOrder) iterate ↔
      OneRound graph (seedSet graph asNumbers regionFilter) targetCount := by
  constructor
  · intro keeps
    by_contra more
    exact expandTopology_loses asGraph seedsIterate seeded more keeps.induced
  · intro once
    have ⟨start, run, uncut, chosen⟩ := expandTopology_rounds targetCount seedsIterate seeded
    rw [← chosen] at once
    rw [run]
    have cut := expandRounds_cutDown asGraph.sets uncut once targetCount.toNat
    exact ⟨cut.induced, cut.induced.savedOnce asGraph (cut.sets asGraph.sets) setsIterate⟩

-- Three ASes in a row, of which the first is in the region.
def sampleAsGraph : AsGraph :=
  ⟨[("1", ["2"]), ("2", ["1", "3"]), ("3", ["2"])], by decide⟩

def sampleAsNumbers : Dict String String := ⟨[("1", "FR"), ("2", "DE"), ("3", "DE")], by decide⟩

theorem sampleAsGraph_neighbors (asn : String) : asNeighbors sampleAsGraph asn =
    if asn = "1" then ["2"] else if asn = "2" then ["1", "3"]
    else if asn = "3" then ["2"] else [] := by
  simp only [asNeighbors, Dict.getD, Dict.get?, sampleAsGraph, Dict.lookup_cons_if, List.lookup_nil]
  split_ifs <;> rfl

theorem sampleAsGraph_isAsGraph : IsAsGraph sampleAsGraph where
  sets asn := by
    rw [sampleAsGraph_neighbors]
    split_ifs <;> decide
  symmetric asn other := by
    rw [sampleAsGraph_neighbors, sampleAsGraph_neighbors]
    split_ifs <;> simp_all
  loopFree asn := by
    rw [sampleAsGraph_neighbors]
    split_ifs <;> simp_all

theorem expandTopology_keepsLinks_iff_sample :
    KeepsLinks sampleAsGraph (expandTopology sampleAsGraph sampleAsNumbers ["FR"] 3 id)
        (fun _ => id) ↔
      OneRound sampleAsGraph (seedSet sampleAsGraph sampleAsNumbers ["FR"]) 3 :=
  expandTopology_keepsLinks_iff sampleAsGraph_isAsGraph (by decide) 3 List.Perm.refl
    fun _ => List.Perm.refl

-- The second round adds "3" after the set of "2" has been cut down to "1".
theorem sample_link_lost :
    ¬ KeepsLinks sampleAsGraph (expandTopology sampleAsGraph sampleAsNumbers ["FR"] 3 id)
      fun _ => id := by
  intro keeps
  have shown := (keeps.induced "2" "3").mpr (by decide +kernel)
  revert shown
  decide +kernel

end SplitNN.Coordinator
