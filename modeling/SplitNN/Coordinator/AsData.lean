import Mathlib
import SplitNN.Coordinator.ExpandLinks
import SplitNN.Coordinator.PruneTopology
import SplitNN.Coordinator.TopoFileRoundTrip

set_option autoImplicit false

-- From a file of AS relationships to a topology file, and what the coordinator reads of that.
namespace SplitNN.Coordinator

open Text (PyWord strip fileLines)

section Model

-- The two ASes of a relationship; comments and malformed lines are skipped.
def relationOf (line : List Char) : Option (String × String) :=
  let line := strip line
  if line = [] ∨ line.head? = some '#' then none
  else
    match line.splitOn '|' with
    | [as1, as2, _] => some (String.ofList as1, String.ofList as2)
    | _ => none

def relations (text : String) : List (String × String) :=
  (fileLines text.toList).filterMap relationOf

-- `graph[asn].add(other)` on a `defaultdict` of sets.
def addNeighbor (graph : AsGraph) (asn other : String) : AsGraph :=
  let neighbors := asNeighbors graph asn
  graph.set asn (if other ∈ neighbors then neighbors else neighbors ++ [other])

def addRelation (graph : AsGraph) (relation : String × String) : AsGraph :=
  addNeighbor (addNeighbor graph relation.1 relation.2) relation.2 relation.1

-- The sets are complete before the first loop over one; `order` is what such a loop goes through.
def inOrder (order : String → List String → List String) (graph : AsGraph) : AsGraph :=
  Dict.ofKeys graph.keys fun asn => order asn (asNeighbors graph asn)

-- As in the expansion script.
def loadAsRelationships (order : String → List String → List String) (text : String) : AsGraph :=
  inOrder order ((relations text).foldl addRelation Dict.empty)

-- As in the pruning script, which knows the ASes of a list.
def knownRelations (text : String) (asNumbers : List String) : List (String × String) :=
  (relations text).filter fun relation =>
    decide (relation.1 ∈ asNumbers) && decide (relation.2 ∈ asNumbers)

def loadKnownAsRelationships (text : String) (asNumbers : List String) : AsGraph :=
  (knownRelations text asNumbers).foldl addRelation Dict.empty

-- The links that the pruning script writes; the neighbours are not looked up.
def prunedLinks (iterate : String → List String → List String) (graph : AsGraph) :
    List (String × String) :=
  graph.entries.flatMap fun (as1, neighbors) =>
    ((iterate as1 neighbors).filter fun as2 => decide (as1 < as2)).map fun as2 => (as1, as2)

def savePrunedTopology (iterate : String → List String → List String) (graph : AsGraph) : String :=
  " ".intercalate graph.keys ++ "\n" ++ String.join ((prunedLinks iterate graph).map recordLine)

end Model

section Loaded

theorem asNeighbors_addNeighbor {graph : AsGraph} (asn other x : String) :
    asNeighbors (addNeighbor graph asn other) x =
      if x = asn then
        if other ∈ asNeighbors graph asn then asNeighbors graph asn
        else asNeighbors graph asn ++ [other]
      else asNeighbors graph x :=
  Dict.getD_set graph asn x _ []

theorem mem_addNeighbor {graph : AsGraph} {asn other x y : String} :
    y ∈ asNeighbors (addNeighbor graph asn other) x ↔
      y ∈ asNeighbors graph x ∨ x = asn ∧ y = other := by
  rw [asNeighbors_addNeighbor]
  by_cases same : x = asn
  next =>
    subst same
    by_cases known : other ∈ asNeighbors graph x
    next =>
      simp only [known, if_true, true_and, iff_self_or]
      rintro rfl
      exact known
    next => simp [known]
  next => simp [same]

theorem addNeighbor_sets {graph : AsGraph} (sets : AsSets graph) (asn other : String) :
    AsSets (addNeighbor graph asn other) := by
  intro x
  rw [asNeighbors_addNeighbor]
  split_ifs with same known
  · exact sets asn
  · exact List.nodup_append'.mpr ⟨sets asn, by simp, by simpa using known⟩
  · exact sets x

def Related (relations : List (String × String)) (asn other : String) : Prop :=
  (asn, other) ∈ relations ∨ (other, asn) ∈ relations

/-- The graph of a list of relations has a link for each, and its nodes are their ends. -/
structure RelationGraph (relations : List (String × String)) (graph : AsGraph) : Prop where
  sets : AsSets graph
  linked : ∀ asn other, AsLinked graph asn other ↔ Related relations asn other
  keys : ∀ asn, asn ∈ graph.keys ↔ Touched relations asn

theorem addRelations_graph (relations : List (String × String)) :
    RelationGraph relations (relations.foldl addRelation Dict.empty) := by
  induction relations using List.reverseRecOn with
  | nil => exact ⟨fun _ => List.nodup_nil, by simp [AsLinked, Related, asNeighbors, Dict.getD],
      by simp [Touched, Dict.keys, Dict.empty]⟩
  | append_singleton relations relation ih =>
    rw [List.foldl_append, List.foldl_cons, List.foldl_nil]
    constructor
    case sets => exact addNeighbor_sets (addNeighbor_sets ih.sets _ _) _ _
    case linked =>
      intro asn other
      have before := ih.linked asn other
      obtain ⟨as1, as2⟩ := relation
      simp only [AsLinked, Related] at before ⊢
      simp only [addRelation, mem_addNeighbor, before, List.mem_append, List.mem_singleton,
        Prod.mk.injEq]
      tauto
    case keys =>
      intro asn
      simp only [addRelation, addNeighbor, Dict.mem_keys_set, ih.keys, Touched, List.mem_append,
        List.mem_singleton, or_and_right, exists_or, exists_eq_left, or_assoc]

theorem asNeighbors_inOrder {order : String → List String → List String}
    (perm : ∀ asn names, (order asn names).Perm names) (graph : AsGraph) (asn : String) :
    (asNeighbors (inOrder order graph) asn).Perm (asNeighbors graph asn) := by
  rw [asNeighbors, inOrder, Dict.getD, Dict.get?_ofKeys]
  split
  next => exact perm asn _
  next absent =>
    have missing := (graph.get?_eq_none asn).mpr absent
    simp [asNeighbors, Dict.getD, missing]

theorem RelationGraph.inOrder {relations : List (String × String)} {graph : AsGraph}
    (loaded : RelationGraph relations graph) {order : String → List String → List String}
    (perm : ∀ asn names, (order asn names).Perm names) :
    RelationGraph relations (Coordinator.inOrder order graph) where
  sets := fun asn => (asNeighbors_inOrder perm graph asn).nodup_iff.mpr (loaded.sets asn)
  linked := fun asn other =>
    (asNeighbors_inOrder perm graph asn).mem_iff.trans (loaded.linked asn other)
  keys := by
    intro asn
    rw [Coordinator.inOrder, Dict.keys_ofKeys graph.keys_nodup]
    exact loaded.keys asn

theorem RelationGraph.isAsGraph {relations : List (String × String)} {graph : AsGraph}
    (loaded : RelationGraph relations graph) (apart : ∀ relation ∈ relations,
      relation.1 ≠ relation.2) : IsAsGraph graph where
  sets := loaded.sets
  symmetric := fun asn other linked =>
    (loaded.linked other asn).mpr ((loaded.linked asn other).mp linked).symm
  loopFree := by
    intro asn linked
    rcases (loaded.linked asn asn).mp linked with listed | listed
    · exact apart _ listed rfl
    · exact apart _ listed rfl

theorem RelationGraph.apart {relations : List (String × String)} {graph : AsGraph}
    (loaded : RelationGraph relations graph) (asGraph : IsAsGraph graph) {asn other : String}
    (related : Related relations asn other) : asn ≠ other := by
  rintro rfl
  exact asGraph.loopFree asn ((loaded.linked asn asn).mpr related)

theorem RelationGraph.words {relations : List (String × String)} {graph : AsGraph}
    (loaded : RelationGraph relations graph)
    (words : ∀ relation ∈ relations, PyWord relation.1.toList ∧ PyWord relation.2.toList)
    {asn : String} (member : asn ∈ graph.keys) : PyWord asn.toList := by
  obtain ⟨relation, listed, rfl | rfl⟩ := (loaded.keys asn).mp member
  · exact (words relation listed).1
  · exact (words relation listed).2

end Loaded

section Saved

variable {graph : AsGraph} {iterate : String → List String → List String}

theorem topoText_eq (nodes : List String) (links : List (String × String)) :
    " ".intercalate nodes ++ "\n" ++ String.join (links.map recordLine) = topoText nodes links := by
  simp [topoText, writeSubtopoToFile]

theorem prunedLinks_eq (known : ∀ asn other, other ∈ asNeighbors graph asn → other ∈ graph.keys)
    (order : ∀ asn names, (iterate asn names).Perm names) :
    prunedLinks iterate graph = savedLinks iterate graph := by
  refine List.flatMap_congr fun entry member => ?_
  have stored := (graph.get?_eq_some _ _).mpr member
  refine congrArg (List.map _) (List.filter_congr fun as2 listed => ?_)
  have neighbor : as2 ∈ asNeighbors graph entry.1 := by
    rw [asNeighbors, Dict.getD, stored, Option.getD_some]
    exact (order _ _).mem_iff.mp listed
  have found := (graph.get?_isSome as2).mpr (known _ _ neighbor)
  simp [stored, found]

theorem savedLinks_writable {nodes : List String} (same : nodes.Perm graph.keys)
    (words : ∀ asn ∈ graph.keys, PyWord asn.toList)
    (order : ∀ asn names, (iterate asn names).Perm names) :
    Writable nodes (savedLinks iterate graph) where
  distinct := same.nodup_iff.mpr graph.keys_nodup
  words := fun asn member => words asn (same.mem_iff.mp member)
  ends := by
    rintro ⟨asn, other⟩ member
    have saved := (mem_savedLinks order).mp member
    have here : asn ∈ graph.keys := by
      by_contra absent
      have missing := (graph.get?_eq_none asn).mpr absent
      simp [asNeighbors, Dict.getD, missing] at saved
    exact ⟨same.mem_iff.mpr here, same.mem_iff.mpr saved.1.2⟩

theorem related_comm {relations : List (String × String)} {asn other : String} :
    Related relations asn other ↔ Related relations other asn := or_comm

theorem related_savedLinks (order : ∀ asn names, (iterate asn names).Perm names)
    (asn other : String) : Related (savedLinks iterate graph) asn other ↔
      asn ≠ other ∧ max asn other ∈ asNeighbors graph (min asn other) ∧
        max asn other ∈ graph.keys := by
  rw [Related, mem_savedLinks order, mem_savedLinks order]
  rcases lt_trichotomy asn other with less | rfl | greater
  · simp [less, less.ne, less.asymm, less.le]
  · simp
  · simp [greater, greater.ne', greater.asymm, greater.le]

/-- What the coordinator reads: a topology on some of the ASes with single links, which are those
that are `joined`. -/
structure AsTopology (chosen : List String) (joined : String → String → Prop)
    (read : List NodeName) (adjacencyList : AdjacencyList) : Prop where
  topology : IsTopology read adjacencyList
  loopFree : Multigraph.LoopFree (neighbours adjacencyList) read
  distinct : read.length ≤ chosen.length
  inside : ∀ asn ∈ read, asn ∈ chosen
  linked : ∀ asn ∈ read, ∃ other ∈ read, joined asn other
  single : ∀ asn other, multiplicity adjacencyList asn other ≤ 1
  links : ∀ asn other, 0 < multiplicity adjacencyList asn other ↔ joined asn other

theorem savedLinks_read {nodes : List String} {joined : String → String → Prop}
    (same : nodes.Perm graph.keys) (words : ∀ asn ∈ graph.keys, PyWord asn.toList)
    (sets : AsSets graph) (order : ∀ asn names, (iterate asn names).Perm names)
    (saved : ∀ asn other, Related (savedLinks iterate graph) asn other ↔ joined asn other) :
    ∃ read adjacencyList, readGraphFromTopoFile (topoText nodes (savedLinks iterate graph)) =
        some (read, adjacencyList) ∧ AsTopology graph.keys joined read adjacencyList := by
  have writable := savedLinks_writable same words order
  obtain ⟨read, adjacencyList, run, back⟩ := readGraphFromTopoFile_topoText writable
  have distinct := savedLinks_nodup sets order
  have less {asn other : String} (member : (asn, other) ∈ savedLinks iterate graph) :
      asn < other := ((mem_savedLinks order).mp member).2
  have links (asn other : String) : 0 < multiplicity adjacencyList asn other ↔
      joined asn other := by
    rw [← saved, Related, back.counted, ← List.count_pos_iff, ← List.count_pos_iff]
    omega
  have touched (asn : String) := back.members asn
  refine ⟨read, adjacencyList, run, back.topology, back.loopFree ?_,
    back.order.length_le.trans same.length_eq.le, ?_, ?_, ?_, links⟩
  case refine_1 =>
    rintro ⟨asn, other⟩ member
    exact (less member).ne
  case refine_2 => exact fun asn member => same.mem_iff.mp (back.order.subset member)
  case refine_3 =>
    intro asn member
    obtain ⟨⟨x, y⟩, listed, rfl | rfl⟩ := (touched asn).mp member
    · exact ⟨y, (touched y).mpr ⟨_, listed, .inr rfl⟩, (saved _ _).mp (.inl listed)⟩
    · exact ⟨x, (touched x).mpr ⟨_, listed, .inl rfl⟩, (saved _ _).mp (.inr listed)⟩
  case refine_4 =>
    intro asn other
    rw [back.counted, distinct.count, distinct.count]
    split_ifs with first second second
    · exact absurd (less first) (less second).asymm
    all_goals omega

end Saved

section Pruned

variable {text : String} {asNumbers : List String} {targetCount : Int}
  {iterate saveIterate : String → List String → List String} {pruned : AsGraph}

theorem knownRelations_words (words : ∀ asn ∈ asNumbers, PyWord asn.toList) :
    ∀ relation ∈ knownRelations text asNumbers,
      PyWord relation.1.toList ∧ PyWord relation.2.toList := by
  intro relation member
  have known := (List.mem_filter.mp member).2
  simp only [Bool.and_eq_true, decide_eq_true_eq] at known
  exact ⟨words _ known.1, words _ known.2⟩

theorem pruneTopology_ok {graph : AsGraph} (asGraph : IsAsGraph graph) (natural : 0 ≤ targetCount)
    (order : ∀ asn names, (iterate asn names).Perm names)
    (run : pruneTopology iterate targetCount graph = .ok pruned) :
    PrunesWell graph targetCount (.ok pruned) := by
  have whole := represents_whole asGraph
  rw [pruneTopology] at run
  rcases pruneRounds_spec asGraph order natural whole whole.card.ge with
    ⟨-, found, rounds, run', represents, small, -⟩ | ⟨-, failed⟩
  · obtain rfl : found = pruned := Except.ok.inj (run'.symm.trans run)
    exact represents.prunesWell asGraph (iterate_peel_subset rounds _) small
  · cases failed.symm.trans run

theorem Induced.saved {graph current : AsGraph} {relations : List (String × String)}
    (loaded : RelationGraph relations graph) (induced : Induced graph current)
    (asGraph : IsAsGraph graph) (order : ∀ asn names, (iterate asn names).Perm names)
    (asn other : String) : Related (savedLinks iterate current) asn other ↔
      asn ∈ current.keys ∧ other ∈ current.keys ∧ Related relations asn other := by
  have apart := @RelationGraph.apart relations graph loaded asGraph asn other
  rw [related_savedLinks order, induced]
  change asn ≠ other ∧ (_ ∧ _ ∧ AsLinked graph _ _) ∧ _ ↔ _
  rw [loaded.linked]
  rcases le_total asn other with le | le
  · rw [min_eq_left le, max_eq_right le]
    exact ⟨fun given => given.2.1, fun given => ⟨apart given.2.2, given, given.2.1⟩⟩
  · rw [min_eq_right le, max_eq_left le, related_comm]
    exact ⟨fun given => ⟨given.2.1.2.1, given.2.1.1, given.2.1.2.2⟩,
      fun given => ⟨apart given.2.2, ⟨given.2.1, given.1, given.2.2⟩, given.1⟩⟩

/-- Loaded, pruned, saved and read, the AS data are the topology of the relations among the ASes
that pruning leaves. -/
theorem prunedData_read (words : ∀ asn ∈ asNumbers, PyWord asn.toList)
    (apart : ∀ relation ∈ knownRelations text asNumbers, relation.1 ≠ relation.2)
    (natural : 0 ≤ targetCount) (order : ∀ asn names, (iterate asn names).Perm names)
    (saveOrder : ∀ asn names, (saveIterate asn names).Perm names)
    (run : pruneTopology iterate targetCount (loadKnownAsRelationships text asNumbers) =
      .ok pruned) :
    ∃ read adjacencyList, readGraphFromTopoFile (savePrunedTopology saveIterate pruned) =
        some (read, adjacencyList) ∧ (read.length : Int) ≤ targetCount ∧
      AsTopology pruned.keys (fun asn other => asn ∈ pruned.keys ∧ other ∈ pruned.keys ∧
        Related (knownRelations text asNumbers) asn other) read adjacencyList := by
  have loaded : RelationGraph (knownRelations text asNumbers)
      (loadKnownAsRelationships text asNumbers) := addRelations_graph _
  have asGraph := loaded.isAsGraph apart
  obtain ⟨found, same, small, inside, induced, simple⟩ := pruneTopology_ok asGraph natural order run
  obtain rfl := Except.ok.inj same
  have known (asn other : String) (linked : other ∈ asNeighbors pruned asn) :
      other ∈ pruned.keys := (simple.known linked).2
  have clean : ∀ asn ∈ pruned.keys, PyWord asn.toList := fun asn member =>
    loaded.words (knownRelations_words words) (inside asn member)
  obtain ⟨read, adjacencyList, parsed, topology⟩ := savedLinks_read (List.Perm.refl _) clean
    simple.sets saveOrder (induced.saved loaded asGraph saveOrder)
  refine ⟨read, adjacencyList, ?_, ?_, topology⟩
  · rw [savePrunedTopology, topoText_eq, prunedLinks_eq known saveOrder]
    exact parsed
  · have fewer := topology.distinct
    omega

-- A triangle with a fourth AS at one corner.
def sampleAsText : String := "# as1|as2|type\n1|2|0\n2|3|-1\n3|4\n1|3|0\n3|4|-1\n"

example : relations sampleAsText = [("1", "2"), ("2", "3"), ("1", "3"), ("3", "4")] := by
  decide +kernel

theorem prunedData_read_sample : ∃ pruned,
    pruneTopology (fun _ => id) 3 (loadKnownAsRelationships sampleAsText ["1", "2", "3", "4"]) =
      .ok pruned ∧
    ∃ read adjacencyList, readGraphFromTopoFile (savePrunedTopology (fun _ => id) pruned) =
        some (read, adjacencyList) ∧ (read.length : Int) ≤ 3 ∧
      AsTopology pruned.keys (fun asn other => asn ∈ pruned.keys ∧ other ∈ pruned.keys ∧
        Related (knownRelations sampleAsText ["1", "2", "3", "4"]) asn other) read
          adjacencyList := by
  refine ⟨⟨[("1", ["2", "3"]), ("2", ["1", "3"]), ("3", ["2", "1"])], by decide⟩,
    by decide +kernel, ?_⟩
  exact prunedData_read (by decide +kernel) (by decide +kernel) (by decide)
    (fun _ => List.Perm.refl) (fun _ => List.Perm.refl) (by decide +kernel)

end Pruned

section Expanded

variable {text : String} {asNumbers : Dict String String} {regionFilter : List String}
  {seedOrder : List String → List String}
  {neighborOrder iterate : String → List String → List String}

theorem expanded_known {graph start st : AsGraph} {targetCount : Int} (asGraph : IsAsGraph graph)
    (seeds : ∀ asn ∈ start.keys, asn ∈ graph.keys)
    (reached : (expanding graph targetCount start).Reachable st) :
    ∀ asn ∈ st.keys, asn ∈ graph.keys := by
  intro asn member
  obtain ⟨seed, first, path⟩ := (expanding_invariant asGraph.sets reached).reached asn member
  induction path with
  | refl => exact seeds seed (List.mem_toFinset.mp first)
  | tail _ linked _ => exact (asGraph.known linked).2

/-- Loaded, expanded, saved and read, the AS data are the topology of the relations between chosen
ASes of which the one with the smaller name joined with the other or later. -/
theorem expandedData_read
    (words : ∀ relation ∈ relations text, PyWord relation.1.toList ∧ PyWord relation.2.toList)
    (apart : ∀ relation ∈ relations text, relation.1 ≠ relation.2)
    (order : ∀ asn names, (neighborOrder asn names).Perm names)
    (seeded : seedAsns (loadAsRelationships neighborOrder text) asNumbers regionFilter ≠ [])
    (targetCount : Int) (seedsIterate : ∀ names, (seedOrder names).Perm names)
    (setsIterate : ∀ asn names, (iterate asn names).Perm names) {validNodes : List String}
    (valid : validNodes.Perm (expandTopology (loadAsRelationships neighborOrder text) asNumbers
      regionFilter targetCount seedOrder).keys) :
    let graph := loadAsRelationships neighborOrder text
    let expanded := expandTopology graph asNumbers regionFilter targetCount seedOrder
    ∃ start read adjacencyList, chosenSet start = seedSet graph asNumbers regionFilter ∧
      Uncut graph start ∧
      readGraphFromTopoFile (saveExpandedTopology iterate expanded validNodes) =
        some (read, adjacencyList) ∧
      AsTopology expanded.keys (fun asn other =>
        (asn ∈ expanded.keys ∧ other ∈ expanded.keys ∧ Related (relations text) asn other) ∧
          JoinsWith graph targetCount start (min asn other) (max asn other))
        read adjacencyList := by
  intro graph expanded
  have loaded : RelationGraph (relations text) graph :=
    (addRelations_graph (relations text)).inOrder order
  have asGraph := loaded.isAsGraph apart
  obtain ⟨start, run, uncut, chosen⟩ := expandTopology_rounds targetCount seedsIterate seeded
  obtain ⟨last, steps, stuck, same⟩ : ∃ last,
      Relation.ReflTransGen (expanding graph targetCount start).step start last ∧
        (expanding graph targetCount start).Stuck last ∧ expanded = removeDangling last :=
    ⟨_, expandRounds_steps targetCount.toNat start start,
      expandRounds_stuck asGraph.sets start start, run⟩
  have keys : expanded.keys = last.keys := same ▸ keys_removeDangling
  have shown := expanded_neighbors asGraph.sets uncut steps stuck
  rw [← same] at shown
  have seeds : ∀ asn ∈ start.keys, asn ∈ graph.keys := by
    intro asn member
    have seed : asn ∈ seedSet graph asNumbers regionFilter :=
      chosen ▸ List.mem_toFinset.mpr member
    obtain ⟨entry, listed, rfl⟩ := List.mem_map.mp (List.mem_toFinset.mp seed)
    have known := (List.mem_filter.mp listed).2
    simp only [Bool.and_eq_true, Dict.get?_isSome] at known
    exact known.2
  have first : (expanding graph targetCount start).Reachable start := .start rfl
  have known := expanded_known asGraph seeds (first.later steps)
  have clean : ∀ asn ∈ expanded.keys, PyWord asn.toList := fun asn member =>
    loaded.words words (known asn (keys ▸ member))
  have saved (asn other : String) : Related (savedLinks iterate expanded) asn other ↔
      (asn ∈ expanded.keys ∧ other ∈ expanded.keys ∧ Related (relations text) asn other) ∧
        JoinsWith graph targetCount start (min asn other) (max asn other) := by
    have apart' := @RelationGraph.apart (relations text) graph loaded asGraph asn other
    rw [related_savedLinks setsIterate, shown, loaded.linked, keys]
    rcases le_total asn other with le | le
    · rw [min_eq_left le, max_eq_right le]
      exact ⟨fun given => given.2.1, fun given => ⟨apart' given.1.2.2, given, given.1.2.1⟩⟩
    · rw [min_eq_right le, max_eq_left le, related_comm]
      exact ⟨fun given => ⟨⟨given.2.1.1.2.1, given.2.1.1.1, given.2.1.1.2.2⟩, given.2.1.2⟩,
        fun given => ⟨apart' given.1.2.2, ⟨⟨given.1.2.1, given.1.1, given.1.2.2⟩, given.2⟩,
          given.1.1⟩⟩
  have sets : AsSets expanded := by
    rw [same]
    exact expanded_sets asGraph.sets uncut steps
  obtain ⟨read, adjacencyList, parsed, topology⟩ :=
    savedLinks_read valid clean sets setsIterate saved
  refine ⟨start, read, adjacencyList, chosen, uncut, ?_, topology⟩
  rw [saveExpandedTopology, topoText_eq]
  exact parsed

theorem expandedData_read_sample :
    let graph := loadAsRelationships (fun _ => List.reverse) sampleAsText
    let expanded := expandTopology graph (Dict.ofEntries [("4", "FR"), ("1", "DE")]) ["FR"] 3 id
    ∃ start read adjacencyList,
      chosenSet start = seedSet graph (Dict.ofEntries [("4", "FR"), ("1", "DE")]) ["FR"] ∧
      Uncut graph start ∧
      readGraphFromTopoFile (saveExpandedTopology (fun _ => id) expanded expanded.keys) =
        some (read, adjacencyList) ∧
      AsTopology expanded.keys (fun asn other =>
        (asn ∈ expanded.keys ∧ other ∈ expanded.keys ∧ Related (relations sampleAsText) asn other) ∧
          JoinsWith graph 3 start (min asn other) (max asn other)) read adjacencyList :=
  expandedData_read (by decide +kernel) (by decide +kernel) (fun _ => List.reverse_perm)
    (by decide +kernel) 3
    (fun _ => List.Perm.refl _) (fun _ => List.Perm.refl) (List.Perm.refl _)

end Expanded

end SplitNN.Coordinator
