import Mathlib
import SplitNN.Shared.Peeling
import SplitNN.Coordinator.ExpandReach

set_option autoImplicit false

namespace SplitNN.Coordinator

open Peeling

inductive PruneError where
  -- `next` of an iterator that is at its end.
  | stopIteration
  -- A set that changes under the loop over it.
  | setChanged
  deriving DecidableEq

section Model

-- The order in which Python iterates over a neighbour set.
variable (iterate : String → List String → List String) (targetCount : Int)

-- `graph[asn].discard(other)` on the `defaultdict`.
def discard (graph : AsGraph) (asn other : String) : AsGraph :=
  graph.set asn ((asNeighbors graph asn).filter fun name => decide (name ≠ other))

def leafNodes (graph : AsGraph) : List String :=
  (graph.entries.filter fun entry => decide (entry.2.length = 1)).map Prod.fst

def minDegree (graph : AsGraph) : Nat := ((graph.values.map List.length).min?).getD 0

def lowDegreeNodes (graph : AsGraph) : List String :=
  (graph.entries.filter fun entry => decide (entry.2.length = minDegree graph)).map Prod.fst

def removeLeaf (graph : AsGraph) (leaf : String) : Except PruneError AsGraph :=
  if leaf ∈ graph.keys then
    match (iterate leaf (asNeighbors graph leaf)).head? with
    | some neighbor => .ok ((discard graph neighbor leaf).erase leaf)
    | none => .error .stopIteration
  else .ok graph

def removeNode (graph : AsGraph) (node : String) : Except PruneError AsGraph :=
  if node ∈ asNeighbors graph node then .error .setChanged
  else .ok (((iterate node (asNeighbors graph node)).foldl
    (fun graph neighbor => discard graph neighbor node) graph).erase node)

def pruneRound (graph : AsGraph) : Except PruneError AsGraph :=
  if leafNodes graph = [] then (lowDegreeNodes graph).foldlM (removeNode iterate) graph
  else (leafNodes graph).foldlM (removeLeaf iterate) graph

def pruneRounds : Nat → AsGraph → Except PruneError AsGraph
  | 0, graph => .ok graph
  | fuel + 1, graph =>
    if targetCount < graph.keys.length then do
      let graph ← pruneRound iterate graph
      pruneRounds fuel graph
    else .ok graph

-- A round takes at least one node off a graph that has any.
def pruneTopology (graph : AsGraph) : Except PruneError AsGraph :=
  pruneRounds iterate targetCount graph.keys.length graph

end Model

structure Represents (graph : AsGraph) (left : Finset String) (current : AsGraph) : Prop where
  keys : ∀ asn, asn ∈ current.keys ↔ asn ∈ left
  neighbors : ∀ asn other, other ∈ asNeighbors current asn ↔
    asn ∈ left ∧ other ∈ left ∧ AsLinked graph asn other
  sets : AsSets current

instance (graph : AsGraph) : DecidableRel (AsLinked graph) :=
  fun asn other => inferInstanceAs (Decidable (other ∈ asNeighbors graph asn))

section Discards

variable {graph current : AsGraph} {left : Finset String} {node : String}

theorem asNeighbors_discard (asn other x : String) : asNeighbors (discard current asn other) x =
    if x = asn then (asNeighbors current asn).filter fun name => decide (name ≠ other)
    else asNeighbors current x :=
  Dict.getD_set current asn x _ []

theorem asNeighbors_erase (x : String) : asNeighbors (current.erase node) x =
    if x = node then [] else asNeighbors current x := by
  rw [asNeighbors, Dict.getD, Dict.get?_erase]
  split <;> rfl

theorem discards_spec (names : List String) (current : AsGraph) (node : String)
    (sets : AsSets current) :
    let after := names.foldl (fun graph neighbor => discard graph neighbor node) current
    (∀ asn, asn ∈ after.keys ↔ asn ∈ current.keys ∨ asn ∈ names) ∧
      (∀ asn other, other ∈ asNeighbors after asn ↔
        other ∈ asNeighbors current asn ∧ ¬ (asn ∈ names ∧ other = node)) ∧ AsSets after := by
  induction names generalizing current with
  | nil => exact ⟨by simp, by simp, sets⟩
  | cons name rest ih =>
    have sets' : AsSets (discard current name node) := by
      intro asn
      rw [asNeighbors_discard]
      split
      next => exact (sets name).filter _
      next => exact sets asn
    have ⟨keys, neighbors, fine⟩ := ih (discard current name node) sets'
    refine ⟨fun asn => ?_, fun asn other => ?_, fine⟩
    next =>
      rw [List.foldl_cons, keys, discard, Dict.mem_keys_set, List.mem_cons, or_assoc]
    next =>
      rw [List.foldl_cons, neighbors, asNeighbors_discard]
      by_cases same : asn = name
      next =>
        subst same
        simp
        tauto
      next => simp [same]

theorem Represents.drop (represents : Represents graph left current) {names : List String}
    (inside : ∀ asn ∈ names, asn ∈ left)
    (all : ∀ asn ∈ left, AsLinked graph asn node → asn ∈ names) :
    Represents graph (left.erase node) ((names.foldl
      (fun graph neighbor => discard graph neighbor node) current).erase node) := by
  have ⟨keys, neighbors, sets⟩ := discards_spec names current node represents.sets
  constructor
  case keys =>
    intro asn
    rw [Dict.mem_keys_erase, keys, represents.keys, Finset.mem_erase]
    have known := inside asn
    tauto
  case neighbors =>
    intro asn other
    rw [asNeighbors_erase, Finset.mem_erase, Finset.mem_erase]
    split
    next same => simp [same]
    next different =>
      rw [neighbors, represents.neighbors]
      constructor
      next =>
        intro ⟨⟨here, there, linked⟩, kept⟩
        have apart : other ≠ node := fun same => kept ⟨all asn here (same ▸ linked), same⟩
        exact ⟨⟨different, here⟩, ⟨apart, there⟩, linked⟩
      next =>
        intro ⟨⟨_, here⟩, ⟨apart, there⟩, linked⟩
        exact ⟨⟨here, there, linked⟩, fun given => apart given.2⟩
  case sets =>
    intro asn
    rw [asNeighbors_erase]
    split
    next => exact List.nodup_nil
    next => exact sets asn

end Discards

section Removal

variable {graph current : AsGraph} {left : Finset String} {node : String}
  {iterate : String → List String → List String}

theorem Represents.stored (represents : Represents graph left current) {asn : String}
    {names : List String} :
    (asn, names) ∈ current.entries ↔ asn ∈ left ∧ asNeighbors current asn = names := by
  rw [← current.get?_eq_some, ← represents.keys, asNeighbors, Dict.getD]
  constructor
  next => exact fun found => ⟨Dict.mem_keys_of_get? found, by rw [found]; rfl⟩
  next =>
    rintro ⟨known, same⟩
    obtain ⟨names', found⟩ := current.exists_get? known
    rw [found] at same ⊢
    exact congrArg some same

theorem Represents.degree (represents : Represents graph left current) {asn : String}
    (member : asn ∈ left) :
    (asNeighbors current asn).length = degreeIn (AsLinked graph) left asn := by
  rw [← List.toFinset_card_of_nodup (represents.sets asn), degreeIn]
  congr 1
  ext other
  simp [represents.neighbors, member]

theorem Represents.removeNode (asGraph : IsAsGraph graph)
    (order : ∀ asn names, (iterate asn names).Perm names)
    (represents : Represents graph left current) (member : node ∈ left) :
    ∃ after, removeNode iterate current node = .ok after ∧
      Represents graph (left.erase node) after := by
  have apart : node ∉ asNeighbors current node :=
    fun listed => asGraph.loopFree node ((represents.neighbors node node).mp listed).2.2
  refine ⟨_, if_neg apart, represents.drop (fun asn listed => ?_) (fun asn here linked => ?_)⟩
  next =>
    have inside := (order node _).mem_iff.mp listed
    exact ((represents.neighbors node asn).mp inside).2.1
  next =>
    have listed := (represents.neighbors node asn).mpr
      ⟨member, here, asGraph.symmetric _ _ linked⟩
    exact (order node _).mem_iff.mpr listed

theorem Represents.removeLeaf (asGraph : IsAsGraph graph)
    (order : ∀ asn names, (iterate asn names).Perm names)
    (represents : Represents graph left current) {leaf : String} (member : leaf ∈ left)
    (single : degreeIn (AsLinked graph) left leaf ≤ 1) :
    (∃ other ∈ left, AsLinked graph leaf other) ∧
        (∃ after, removeLeaf iterate current leaf = .ok after ∧
          Represents graph (left.erase leaf) after) ∨
      (∀ other ∈ left, ¬ AsLinked graph leaf other) ∧
        removeLeaf iterate current leaf = .error .stopIteration := by
  have known := (represents.keys leaf).mpr member
  have size := represents.degree member
  rw [Coordinator.removeLeaf, if_pos known]
  cases found : asNeighbors current leaf with
  | nil =>
    right
    constructor
    next =>
      intro other there linked
      have listed := (represents.neighbors leaf other).mpr ⟨member, there, linked⟩
      rw [found] at listed
      cases listed
    next => rw [(order leaf []).eq_nil]; rfl
  | cons other rest =>
    left
    have none : rest = [] := by
      rw [found, List.length_cons] at size
      exact List.eq_nil_of_length_eq_zero (by omega)
    have listed := (represents.neighbors leaf other).mp (by simp [found])
    refine ⟨⟨other, listed.2⟩, ?_⟩
    rw [none, List.perm_singleton.mp (order leaf [other])]
    have inside : ∀ asn ∈ [other], asn ∈ left := by simpa using listed.2.1
    refine ⟨_, rfl, represents.drop inside ?_⟩
    intro asn here linked
    have back := (represents.neighbors leaf asn).mpr ⟨member, here, asGraph.symmetric _ _ linked⟩
    rwa [found, none] at back

theorem removeNodes_spec (asGraph : IsAsGraph graph)
    (order : ∀ asn names, (iterate asn names).Perm names)
    (represents : Represents graph left current) {names : List String} (distinct : names.Nodup)
    (inside : ∀ name ∈ names, name ∈ left) :
    ∃ after, names.foldlM (removeNode iterate) current = .ok after ∧
      Represents graph (left \ names.toFinset) after := by
  induction names generalizing left current with
  | nil => exact ⟨current, rfl, by simpa using represents⟩
  | cons name rest ih =>
    have ⟨fresh, distinct'⟩ := List.nodup_cons.mp distinct
    have ⟨next, removed, represents'⟩ := represents.removeNode asGraph order (inside name (by simp))
    have ⟨after, run, done⟩ := ih represents' distinct' fun other later =>
      Finset.mem_erase.mpr ⟨fun same => fresh (same ▸ later),
        inside other (List.mem_cons_of_mem name later)⟩
    refine ⟨after, by rw [List.foldlM_cons, removed]; exact run, ?_⟩
    rwa [List.toFinset_cons, Finset.sdiff_insert, ← Finset.erase_sdiff_comm]

theorem removeLeaves_spec (asGraph : IsAsGraph graph)
    (order : ∀ asn names, (iterate asn names).Perm names)
    (represents : Represents graph left current) {names : List String} (distinct : names.Nodup)
    (inside : ∀ leaf ∈ names, leaf ∈ left ∧ degreeIn (AsLinked graph) left leaf ≤ 1) :
    (∃ after, names.foldlM (removeLeaf iterate) current = .ok after ∧
        Represents graph (left \ names.toFinset) after) ∧
        (∀ before leaf rest, names = before ++ leaf :: rest →
          ∃ other ∈ left, other ∉ before ∧ AsLinked graph leaf other) ∨
      names.foldlM (removeLeaf iterate) current = .error .stopIteration ∧
        ∃ before leaf rest, names = before ++ leaf :: rest ∧
          ∀ other ∈ left, AsLinked graph leaf other → other ∈ before := by
  induction names generalizing left current with
  | nil => exact .inl ⟨⟨current, rfl, by simpa using represents⟩, by simp⟩
  | cons name rest ih =>
    have ⟨fresh, distinct'⟩ := List.nodup_cons.mp distinct
    have ⟨member, single⟩ := inside name (by simp)
    rw [List.foldlM_cons]
    rcases represents.removeLeaf asGraph order member single with
      ⟨⟨peer, there, linked⟩, next, removed, represents'⟩ | ⟨alone, failed⟩
    next =>
      have inside' : ∀ leaf ∈ rest, leaf ∈ left.erase name ∧
          degreeIn (AsLinked graph) (left.erase name) leaf ≤ 1 := by
        intro leaf later
        have ⟨here, few⟩ := inside leaf (List.mem_cons_of_mem name later)
        refine ⟨Finset.mem_erase.mpr ⟨fun same => fresh (same ▸ later), here⟩, le_trans ?_ few⟩
        exact Finset.card_le_card (Finset.filter_subset_filter _ (Finset.erase_subset _ _))
      rw [removed]
      rcases ih represents' distinct' inside' with ⟨⟨after, run, done⟩, fine⟩ | ⟨failed, split⟩
      next =>
        refine .inl ⟨⟨after, run, ?_⟩, fun before leaf rest' same => ?_⟩
        next => rwa [List.toFinset_cons, Finset.sdiff_insert, ← Finset.erase_sdiff_comm]
        next =>
          cases before with
          | nil =>
            have ⟨here, _⟩ := List.cons.inj same
            exact ⟨peer, there, by simp, here ▸ linked⟩
          | cons first before =>
            have ⟨here, same'⟩ := List.cons.inj same
            have ⟨other, kept, away, linked'⟩ := fine before leaf rest' same'
            have ⟨different, kept'⟩ := Finset.mem_erase.mp kept
            exact ⟨other, kept', by simp [away, ← here, different], linked'⟩
      next =>
        have ⟨before, leaf, rest', same, gone⟩ := split
        refine .inr ⟨failed, name :: before, leaf, rest', by rw [same]; rfl, ?_⟩
        intro other kept linked'
        by_cases first : other = name
        next => simp [first]
        next =>
          exact List.mem_cons_of_mem name
            (gone other (Finset.mem_erase.mpr ⟨first, kept⟩) linked')
    next =>
      refine .inr ⟨by rw [failed]; rfl, [], name, rest, rfl, ?_⟩
      exact fun other kept linked => absurd linked (alone other kept)

end Removal

section Rounds

variable {graph current : AsGraph} {left : Finset String} {targetCount : Int}
  {iterate : String → List String → List String}

theorem leafNodes_toFinset (represents : Represents graph left current) :
    (leafNodes current).toFinset = Peeling.leaves (AsLinked graph) left := by
  ext asn
  simp only [leafNodes, List.mem_toFinset, List.mem_map, List.mem_filter, decide_eq_true_eq,
    Peeling.leaves, Finset.mem_filter]
  constructor
  next =>
    intro ⟨⟨name, names⟩, ⟨entry, single⟩, same⟩
    have ⟨member, listed⟩ := represents.stored.mp entry
    cases same
    exact ⟨member, by rw [← represents.degree member, listed, single]⟩
  next =>
    intro ⟨member, single⟩
    rw [← represents.degree member] at single
    exact ⟨(asn, asNeighbors current asn), ⟨represents.stored.mpr ⟨member, rfl⟩, single⟩, rfl⟩

theorem minDegree_spec (represents : Represents graph left current) (nonempty : left.Nonempty) :
    (∃ asn ∈ left, degreeIn (AsLinked graph) left asn = minDegree current) ∧
      ∀ asn ∈ left, minDegree current ≤ degreeIn (AsLinked graph) left asn := by
  have degree {asn : String} (member : asn ∈ left) :
      degreeIn (AsLinked graph) left asn ∈ current.values.map List.length := by
    rw [← represents.degree member]
    exact List.mem_map_of_mem (List.mem_map_of_mem (f := Prod.snd)
      (represents.stored.mpr ⟨member, rfl⟩))
  have ⟨first, here⟩ := nonempty
  have some' : current.values.map List.length ≠ [] := List.ne_nil_of_mem (degree here)
  have least := List.min?_eq_some_min some'
  have ⟨member, bound⟩ := List.min?_eq_some_iff.mp least
  have value : minDegree current = (current.values.map List.length).min some' := by
    rw [minDegree, least, Option.getD_some]
  rw [value]
  refine ⟨?_, fun asn inside => bound _ (degree inside)⟩
  have ⟨names, stored, length⟩ := List.mem_map.mp member
  have ⟨⟨asn, names'⟩, entry, same⟩ := List.mem_map.mp stored
  have ⟨inside, listed⟩ := represents.stored.mp entry
  exact ⟨asn, inside, by rw [← represents.degree inside, listed, ← length, ← same]⟩

theorem lowDegreeNodes_toFinset (represents : Represents graph left current) :
    (lowDegreeNodes current).toFinset = lowest (AsLinked graph) left := by
  ext asn
  simp only [lowDegreeNodes, List.mem_toFinset, List.mem_map, List.mem_filter, decide_eq_true_eq,
    lowest, Finset.mem_filter]
  constructor
  next =>
    intro ⟨⟨name, names⟩, ⟨entry, low⟩, same⟩
    have ⟨member, listed⟩ := represents.stored.mp entry
    cases same
    refine ⟨member, fun other there => ?_⟩
    rw [← represents.degree member, listed, low]
    exact (minDegree_spec represents ⟨name, member⟩).2 other there
  next =>
    intro ⟨member, low⟩
    have ⟨⟨other, there, least⟩, bound⟩ := minDegree_spec represents ⟨asn, member⟩
    have same := le_antisymm (least ▸ low other there) (bound asn member)
    rw [← represents.degree member] at same
    exact ⟨(asn, asNeighbors current asn), ⟨represents.stored.mpr ⟨member, rfl⟩, same⟩, rfl⟩

theorem leafNodes_nodup (current : AsGraph) : (leafNodes current).Nodup :=
  current.distinct.sublist (List.filter_sublist.map Prod.fst)

theorem lowDegreeNodes_nodup (current : AsGraph) : (lowDegreeNodes current).Nodup :=
  current.distinct.sublist (List.filter_sublist.map Prod.fst)

-- A leaf has one neighbour: it went before the leaf exactly where the two are a pair.
theorem leafPair_iff (represents : Represents graph left current) (asGraph : IsAsGraph graph) :
    LeafPair (AsLinked graph) left ↔ ∃ before leaf rest,
      leafNodes current = before ++ leaf :: rest ∧
        ∀ other ∈ left, AsLinked graph leaf other → other ∈ before := by
  have leaf (asn : String) :
      asn ∈ leafNodes current ↔ asn ∈ Peeling.leaves (AsLinked graph) left := by
    rw [← leafNodes_toFinset represents, List.mem_toFinset]
  constructor
  next =>
    intro ⟨u, uLeaf, v, vLeaf, linked⟩
    have ⟨uHere, uPeer, _, _, uOnly⟩ := leaf_neighbor uLeaf
    have ⟨vHere, vPeer, _, _, vOnly⟩ := leaf_neighbor vLeaf
    have uFinds : ∀ other ∈ left, AsLinked graph u other → other = v := fun other here joined =>
      (uOnly other here joined).trans (uOnly v vHere linked).symm
    have vFinds : ∀ other ∈ left, AsLinked graph v other → other = u := fun other here joined =>
      (vOnly other here joined).trans (vOnly u uHere (asGraph.symmetric u v linked)).symm
    have ⟨before, rest, split⟩ := List.append_of_mem ((leaf u).mpr uLeaf)
    by_cases first : v ∈ before
    next =>
      exact ⟨before, u, rest, split, fun other here joined => uFinds other here joined ▸ first⟩
    next =>
      have different : v ≠ u := by
        rintro rfl
        exact asGraph.loopFree v linked
      have later : v ∈ rest := by
        have member := (leaf v).mpr vLeaf
        rw [split] at member
        simpa [first, different] using member
      have ⟨between, rest', split'⟩ := List.append_of_mem later
      refine ⟨before ++ u :: between, v, rest', by rw [split, split']; simp, ?_⟩
      exact fun other here joined => vFinds other here joined ▸ by simp
  next =>
    intro ⟨before, asn, rest, split, gone⟩
    have asnLeaf := (leaf asn).mp (by simp [split])
    have ⟨_, other, here, joined, _⟩ := leaf_neighbor asnLeaf
    refine ⟨asn, asnLeaf, other, (leaf other).mp ?_, joined⟩
    rw [split]
    exact List.mem_append_left _ (gone other here joined)

theorem pruneRound_spec (asGraph : IsAsGraph graph)
    (order : ∀ asn names, (iterate asn names).Perm names)
    (represents : Represents graph left current) :
    (¬ LeafPair (AsLinked graph) left ∧ ∃ after, pruneRound iterate current = .ok after ∧
        Represents graph (peel (AsLinked graph) left) after) ∨
      LeafPair (AsLinked graph) left ∧ pruneRound iterate current = .error .stopIteration := by
  have leaf := leafNodes_toFinset represents
  unfold pruneRound
  by_cases none : leafNodes current = []
  next =>
    rw [none, List.toFinset_nil] at leaf
    have low := lowDegreeNodes_toFinset represents
    have ⟨after, run, done⟩ := removeNodes_spec asGraph order represents
      (lowDegreeNodes_nodup current) fun name member => by
        have inside : name ∈ lowest (AsLinked graph) left := low ▸ List.mem_toFinset.mpr member
        exact (Finset.mem_filter.mp inside).1
    rw [if_pos none]
    refine .inl ⟨fun ⟨u, first, _⟩ => ?_, after, run, ?_⟩
    next =>
      rw [← leaf] at first
      cases first
    next =>
      rw [peel, batch, if_pos leaf.symm, ← low]
      exact done
  next =>
    have some' : Peeling.leaves (AsLinked graph) left ≠ ∅ := by
      rw [← leaf]
      simpa using none
    have spec := removeLeaves_spec asGraph order represents (leafNodes_nodup current)
      fun name member => by
        have inside : name ∈ Peeling.leaves (AsLinked graph) left :=
          leaf ▸ List.mem_toFinset.mpr member
        have ⟨here, single⟩ := Finset.mem_filter.mp inside
        exact ⟨here, single.le⟩
    rw [if_neg none, leafPair_iff represents asGraph]
    rcases spec with ⟨⟨after, run, done⟩, fine⟩ | ⟨failed, split⟩
    next =>
      refine .inl ⟨fun ⟨before, name, rest, same, gone⟩ => ?_, after, run, ?_⟩
      next =>
        have ⟨other, there, away, linked⟩ := fine before name rest same
        exact away (gone other there linked)
      next =>
        rw [peel, batch, if_neg some', ← leaf]
        exact done
    next => exact .inr ⟨split, failed⟩

theorem Represents.card (represents : Represents graph left current) :
    current.keys.length = left.card := by
  rw [← List.toFinset_card_of_nodup current.keys_nodup]
  congr 1
  ext asn
  rw [List.mem_toFinset, represents.keys]

/-- The rounds follow the peeling of the node set, up to a pair of leaves above the target. -/
theorem pruneRounds_spec (asGraph : IsAsGraph graph)
    (order : ∀ asn names, (iterate asn names).Perm names) (natural : 0 ≤ targetCount)
    {fuel : Nat} (represents : Represents graph left current) (enough : left.card ≤ fuel) :
    (StaysApart (AsLinked graph) targetCount left ∧ ∃ pruned rounds,
        pruneRounds iterate targetCount fuel current = .ok pruned ∧
        Represents graph ((peel (AsLinked graph))^[rounds] left) pruned ∧
        (pruned.keys.length : Int) ≤ targetCount ∧ ∀ fewer < rounds,
          targetCount < (((peel (AsLinked graph))^[fewer] left).card : Int)) ∨
      ¬ StaysApart (AsLinked graph) targetCount left ∧
        pruneRounds iterate targetCount fuel current = .error .stopIteration := by
  have size := represents.card
  induction fuel generalizing left current with
  | zero =>
    have done : (left.card : Int) ≤ targetCount := by omega
    exact .inl ⟨staysApart_done done, current, 0, rfl, represents, by omega, by simp⟩
  | succ fuel ih =>
    rw [pruneRounds, size]
    by_cases above : targetCount < left.card
    next =>
      rw [if_pos above, staysApart_round above]
      have nonempty : left.Nonempty := Finset.card_pos.mp (by omega)
      have fewer : (peel (AsLinked graph) left).card < left.card := card_peel_lt nonempty
      rcases pruneRound_spec asGraph order represents with
        ⟨apart, after, round, represents'⟩ | ⟨pair, failed⟩
      next =>
        rw [round]
        rcases ih represents' (by omega) represents'.card with
          ⟨later, pruned, rounds, run, done, small, before⟩ | ⟨later, failed⟩
        next =>
          refine .inl ⟨⟨apart, later⟩, pruned, rounds + 1, run, done, small, fun fewer less => ?_⟩
          cases fewer with
          | zero => exact above
          | succ fewer => exact before fewer (by omega)
        next => exact .inr ⟨fun given => later given.2, failed⟩
      next => exact .inr ⟨fun given => given.1 pair, by rw [failed]; rfl⟩
    next =>
      rw [if_neg above]
      have done : (left.card : Int) ≤ targetCount := not_lt.mp above
      exact .inl ⟨staysApart_done done, current, 0, rfl, represents, by omega, by simp⟩

end Rounds

/-- No error, at most the target, and the links between the nodes that are left. -/
def PrunesWell (graph : AsGraph) (targetCount : Int) (result : Except PruneError AsGraph) : Prop :=
  ∃ pruned, result = .ok pruned ∧ (pruned.keys.length : Int) ≤ targetCount ∧
    (∀ asn ∈ pruned.keys, asn ∈ graph.keys) ∧ Induced graph pruned ∧ IsAsGraph pruned

section Results

variable {graph : AsGraph} {targetCount : Int} {iterate : String → List String → List String}

theorem IsAsGraph.known (asGraph : IsAsGraph graph) {asn other : String}
    (linked : AsLinked graph asn other) : asn ∈ graph.keys ∧ other ∈ graph.keys := by
  have inside {one two : String} (joined : AsLinked graph one two) : one ∈ graph.keys := by
    by_contra absent
    rw [AsLinked, asNeighbors, Dict.getD, (graph.get?_eq_none one).mpr absent] at joined
    cases joined
  exact ⟨inside linked, inside (asGraph.symmetric asn other linked)⟩

theorem represents_whole (asGraph : IsAsGraph graph) :
    Represents graph (chosenSet graph) graph where
  keys asn := List.mem_toFinset.symm
  neighbors asn other := by
    constructor
    next =>
      intro linked
      have ⟨here, there⟩ := asGraph.known linked
      exact ⟨List.mem_toFinset.mpr here, List.mem_toFinset.mpr there, linked⟩
    next => exact fun given => given.2.2
  sets := asGraph.sets

theorem Represents.prunesWell (asGraph : IsAsGraph graph) {left : Finset String}
    (inside : left ⊆ chosenSet graph) {pruned : AsGraph}
    (represents : Represents graph left pruned)
    (small : (pruned.keys.length : Int) ≤ targetCount) :
    PrunesWell graph targetCount (.ok pruned) := by
  refine ⟨pruned, rfl, small, fun asn member => ?_, fun asn other => ?_, represents.sets, ?_, ?_⟩
  next => exact List.mem_toFinset.mp (inside ((represents.keys asn).mp member))
  next => rw [represents.neighbors, represents.keys, represents.keys]; rfl
  next =>
    intro asn other listed
    have ⟨here, there, linked⟩ := (represents.neighbors asn other).mp listed
    exact (represents.neighbors other asn).mpr ⟨there, here, asGraph.symmetric asn other linked⟩
  next =>
    exact fun asn listed => asGraph.loopFree asn ((represents.neighbors asn asn).mp listed).2.2

theorem iterate_peel_subset (rounds : Nat) (left : Finset String) :
    (peel (AsLinked graph))^[rounds] left ⊆ left := by
  induction rounds generalizing left with
  | zero => exact Finset.Subset.refl left
  | succ rounds ih => exact (ih _).trans peel_subset

end Results

theorem pruneTopology_peels {graph : AsGraph} (asGraph : IsAsGraph graph) {targetCount : Int}
    (natural : 0 ≤ targetCount) {iterate : String → List String → List String}
    (order : ∀ asn names, (iterate asn names).Perm names) {pruned : AsGraph}
    (run : pruneTopology iterate targetCount graph = .ok pruned) :
    ∃ rounds, chosenSet pruned = (peel (AsLinked graph))^[rounds] (chosenSet graph) ∧
      ∀ fewer < rounds,
        targetCount < (((peel (AsLinked graph))^[fewer] (chosenSet graph)).card : Int) := by
  have whole := represents_whole asGraph
  rw [pruneTopology] at run
  rcases pruneRounds_spec asGraph order natural whole whole.card.ge with
    ⟨_, found, rounds, run', represents, _, before⟩ | ⟨_, failed⟩
  next =>
    have same : found = pruned := Except.ok.inj (run'.symm.trans run)
    subst same
    refine ⟨rounds, ?_, before⟩
    ext asn
    rw [chosenSet, List.mem_toFinset, represents.keys]
  next =>
    rw [failed] at run
    cases run

/-- Pruning fails exactly where a round above the target meets two leaves joined to each other. -/
theorem pruneTopology_prunesWell_iff {graph : AsGraph} (asGraph : IsAsGraph graph)
    {targetCount : Int} (natural : 0 ≤ targetCount)
    {iterate : String → List String → List String}
    (order : ∀ asn names, (iterate asn names).Perm names) :
    PrunesWell graph targetCount (pruneTopology iterate targetCount graph) ↔
      StaysApart (AsLinked graph) targetCount (chosenSet graph) := by
  have whole := represents_whole asGraph
  rcases pruneRounds_spec asGraph order natural whole whole.card.ge with
    ⟨apart, pruned, rounds, run, represents, small, _⟩ | ⟨pair, failed⟩
  next =>
    rw [pruneTopology, run]
    exact ⟨fun _ => apart, fun _ =>
      represents.prunesWell asGraph (iterate_peel_subset rounds _) small⟩
  next =>
    rw [pruneTopology, failed]
    refine ⟨fun ⟨pruned, same, _⟩ => ?_, fun apart => absurd apart pair⟩
    cases same

theorem pruneTopology_prunesWell_iff_sample :
    PrunesWell sampleAsGraph 1 (pruneTopology (fun _ => id) 1 sampleAsGraph) ↔
      StaysApart (AsLinked sampleAsGraph) 1 (chosenSet sampleAsGraph) :=
  pruneTopology_prunesWell_iff sampleAsGraph_isAsGraph (by decide) fun _ => List.Perm.refl

-- Two ASes with a link between them and no other link.
def pairAsGraph : AsGraph := ⟨[("1", ["2"]), ("2", ["1"])], by decide⟩

theorem pairAsGraph_neighbors (asn : String) : asNeighbors pairAsGraph asn =
    if asn = "1" then ["2"] else if asn = "2" then ["1"] else [] := by
  simp only [asNeighbors, Dict.getD, Dict.get?, pairAsGraph, Dict.lookup_cons_if, List.lookup_nil]
  split_ifs <;> rfl

theorem pairAsGraph_not_pruned : IsAsGraph pairAsGraph ∧
    ¬ PrunesWell pairAsGraph 1 (pruneTopology (fun _ => id) 1 pairAsGraph) := by
  constructor
  next =>
    constructor
    case sets =>
      intro asn
      rw [pairAsGraph_neighbors]
      split_ifs <;> decide
    case symmetric =>
      intro asn other
      rw [pairAsGraph_neighbors, pairAsGraph_neighbors]
      split_ifs <;> simp_all
    case loopFree =>
      intro asn
      rw [pairAsGraph_neighbors]
      split_ifs <;> simp_all
  next =>
    intro ⟨pruned, run, _⟩
    have failed : pruneTopology (fun _ => id) 1 pairAsGraph = .error .stopIteration := rfl
    rw [failed] at run
    cases run

def ReachesTarget (targetCount : Int) (result : Except PruneError AsGraph) : Prop :=
  ∀ pruned, result = .ok pruned → (pruned.keys.length : Int) = targetCount

/-- The target is reached exactly where no whole batch goes past it, unless pruning fails. -/
theorem pruneTopology_reachesTarget_iff {graph : AsGraph} (asGraph : IsAsGraph graph)
    {targetCount : Int} (positive : 1 ≤ targetCount) (enough : targetCount ≤ graph.keys.length)
    {iterate : String → List String → List String}
    (order : ∀ asn names, (iterate asn names).Perm names) :
    ReachesTarget targetCount (pruneTopology iterate targetCount graph) ↔
      (StaysApart (AsLinked graph) targetCount (chosenSet graph) →
        NeverOvershoots (AsLinked graph) targetCount (chosenSet graph)) := by
  have whole := represents_whole asGraph
  have natural : 0 ≤ targetCount := by omega
  rcases pruneRounds_spec asGraph order natural whole whole.card.ge with
    ⟨apart, pruned, rounds, run, represents, small, before⟩ | ⟨pair, failed⟩
  next =>
    rw [represents.card] at small
    rw [whole.card] at enough
    rw [pruneTopology, run, neverOvershoots_iff enough small before]
    constructor
    next =>
      intro reaches _
      rw [← represents.card]
      exact reaches pruned rfl
    next =>
      intro hits other same
      obtain rfl := Except.ok.inj same
      rw [represents.card]
      exact hits apart
  next =>
    rw [pruneTopology, failed]
    exact ⟨fun _ apart => absurd apart pair, fun _ pruned same => by cases same⟩

theorem pruneTopology_reachesTarget_iff_sample :
    ReachesTarget 1 (pruneTopology (fun _ => id) 1 sampleAsGraph) ↔
      (StaysApart (AsLinked sampleAsGraph) 1 (chosenSet sampleAsGraph) →
        NeverOvershoots (AsLinked sampleAsGraph) 1 (chosenSet sampleAsGraph)) :=
  pruneTopology_reachesTarget_iff sampleAsGraph_isAsGraph (by decide) (by decide)
    fun _ => List.Perm.refl

-- Both ends of the path are leaves and go in one batch.
theorem sample_target_missed : IsAsGraph sampleAsGraph ∧ sampleAsGraph.keys.length = 3 ∧
    ¬ ReachesTarget 2 (pruneTopology (fun _ => id) 2 sampleAsGraph) := by
  refine ⟨sampleAsGraph_isAsGraph, rfl, fun reaches => ?_⟩
  have run : pruneTopology (fun _ => id) 2 sampleAsGraph = .ok ⟨[("2", [])], by decide⟩ := rfl
  have missed := reaches _ run
  revert missed
  decide

end SplitNN.Coordinator
