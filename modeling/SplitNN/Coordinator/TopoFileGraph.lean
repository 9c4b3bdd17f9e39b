import Mathlib
import SplitNN.Coordinator.FmtConvert
import SplitNN.Coordinator.PartitionVm

set_option autoImplicit false

namespace SplitNN.Coordinator

open Text

section Links

-- The two names of a link line.
def linkOf (line : List Char) : Option (NodeName × NodeName) :=
  match pySplit (strip line) with
  | [nodeNameI, nodeNameJ] => some (String.ofList nodeNameI, String.ofList nodeNameJ)
  | _ => none

def declaredNodes (text : String) : List NodeName :=
  (pySplit (strip ((fileLines text.toList).headD []))).map String.ofList

def fileLinks (text : String) : List (NodeName × NodeName) :=
  (fileLines text.toList).tail.filterMap linkOf

def Touched (links : List (NodeName × NodeName)) (node : NodeName) : Prop :=
  ∃ link ∈ links, node = link.1 ∨ node = link.2

instance (links : List (NodeName × NodeName)) (node : NodeName) :
    Decidable (Touched links node) := by
  unfold Touched
  infer_instance

theorem scanLink_linkOf (adjacencyList : AdjacencyList) (line : List Char) :
    scanLink adjacencyList line = (linkOf line).map (recordLink adjacencyList) := by
  unfold scanLink linkOf
  generalize pySplit (strip line) = words
  rcases words with _ | ⟨first, _ | ⟨second, _ | ⟨third, rest⟩⟩⟩ <;> rfl

theorem scanLinks_iff {lines : List (List Char)} {adjacencyList final : AdjacencyList} :
    lines.foldlM scanLink adjacencyList = some final ↔
      (∀ line ∈ lines, (linkOf line).isSome) ∧
        (lines.filterMap linkOf).foldl recordLink adjacencyList = final := by
  induction lines generalizing adjacencyList with
  | nil => simp
  | cons line rest ih =>
    rw [List.foldlM_cons, scanLink_linkOf]
    cases found : linkOf line with
    | none => simp [found]
    | some link => simp [found, ih]

theorem recordLinks_multiplicity (links : List (NodeName × NodeName))
    (adjacencyList : AdjacencyList) (u v : NodeName) :
    multiplicity (links.foldl recordLink adjacencyList) u v =
      multiplicity adjacencyList u v + links.count (u, v) + links.count (v, u) := by
  induction links generalizing adjacencyList with
  | nil => simp
  | cons link rest ih =>
    have split : link :: rest = [link] ++ rest := rfl
    rw [List.foldl_cons, ih, recordLink_multiplicity, split, List.count_append, List.count_append]
    omega

theorem mem_keys_recordLinks {links : List (NodeName × NodeName)} {adjacencyList : AdjacencyList}
    {node : NodeName} : node ∈ (links.foldl recordLink adjacencyList).keys ↔
      node ∈ adjacencyList.keys ∨ Touched links node := by
  induction links generalizing adjacencyList with
  | nil => simp [Touched]
  | cons link rest ih =>
    rw [List.foldl_cons, ih, recordLink, Dict.keys_adjust, Dict.keys_adjust, mem_keys_ensureNode,
      mem_keys_ensureNode]
    simp only [Touched, List.mem_cons, exists_eq_or_imp, or_assoc]

theorem recordLinks_neighbours {links : List (NodeName × NodeName)} {start : AdjacencyList}
    (empty : ∀ node, neighbours start node = []) {u v : NodeName} :
    v ∈ neighbours (links.foldl recordLink start) u ↔ (u, v) ∈ links ∨ (v, u) ∈ links := by
  have counted := recordLinks_multiplicity links start u v
  rw [multiplicity, multiplicity, empty, List.count_nil, Nat.zero_add] at counted
  rw [← List.count_pos_iff, counted, ← List.count_pos_iff, ← List.count_pos_iff]
  omega

theorem recordLinks_dangling {links : List (NodeName × NodeName)} {start : AdjacencyList}
    (empty : ∀ node, neighbours start node = []) {node : NodeName} :
    (neighbours (links.foldl recordLink start) node).length = 0 ↔ ¬ Touched links node := by
  rw [List.length_eq_zero_iff, List.eq_nil_iff_forall_not_mem]
  simp only [recordLinks_neighbours empty]
  constructor
  next =>
    rintro alone ⟨⟨x, y⟩, listed, rfl | rfl⟩
    · exact alone y (.inl listed)
    · exact alone x (.inr listed)
  next =>
    rintro untouched other (listed | listed)
    · exact untouched ⟨_, listed, .inl rfl⟩
    · exact untouched ⟨_, listed, .inr rfl⟩

end Links

section Removal

variable {tmpAdjacencyList : AdjacencyList}

theorem removeIfDangling_count {nodes next : List NodeName} {name : NodeName}
    (removed : removeIfDangling tmpAdjacencyList nodes name = some next) (node : NodeName) :
    next.count node + (if node = name ∧ (neighbours tmpAdjacencyList name).length = 0 then 1
      else 0) = nodes.count node := by
  unfold removeIfDangling at removed
  split at removed
  next dangling =>
    split at removed
    next listed =>
      obtain rfl := Option.some.inj removed
      by_cases same : node = name
      next =>
        subst same
        have positive := List.count_pos_iff.mpr listed
        simp only [true_and, dangling, if_true, List.count_erase_self]
        omega
      next => simp [same, List.count_erase_of_ne same]
    next => cases removed
  next linked =>
    obtain rfl := Option.some.inj removed
    simp [linked]

theorem removeDangling_count {names nodes rest : List NodeName} (distinct : names.Nodup)
    (run : names.foldlM (removeIfDangling tmpAdjacencyList) nodes = some rest) (node : NodeName) :
    rest.count node + (if node ∈ names ∧ (neighbours tmpAdjacencyList node).length = 0 then 1
      else 0) = nodes.count node := by
  induction names generalizing nodes with
  | nil =>
    obtain rfl := Option.some.inj run
    simp
  | cons name later ih =>
    rw [List.foldlM_cons, Option.bind_eq_bind, Option.bind_eq_some_iff] at run
    have ⟨next, removed, run⟩ := run
    have ⟨absent, distinct⟩ := List.nodup_cons.mp distinct
    have counted := ih distinct run
    have first := removeIfDangling_count removed node
    by_cases same : node = name
    next =>
      subst same
      simp only [absent, false_and, if_false, true_and, List.mem_cons, true_or] at counted first ⊢
      omega
    next =>
      simp only [same, false_and, if_false, List.mem_cons, false_or] at counted first ⊢
      omega

end Removal

section Read

variable {text : String} {nodes : List NodeName} {adjacencyList : AdjacencyList}

theorem readGraphFromTopoFile_spec
    (read : readGraphFromTopoFile text = some (nodes, adjacencyList)) :
    adjacencyList = (fileLinks text).foldl recordLink Dict.empty ∧
      ∀ node, nodes.count node +
        (if node ∈ declaredNodes text ∧ ¬ Touched (fileLinks text) node then 1 else 0) =
          (declaredNodes text).count node := by
  simp only [readGraphFromTopoFile, Option.bind_eq_bind, Option.bind_eq_some_iff,
    Option.pure_def, Option.some.injEq, Prod.mk.injEq] at read
  obtain ⟨tmpAdjacencyList, firstScan, _, removed, _, secondScan, sameNodes, sameList⟩ := read
  subst sameNodes sameList
  obtain ⟨_, tmp⟩ := scanLinks_iff.mp firstScan
  obtain ⟨_, final⟩ := scanLinks_iff.mp secondScan
  refine ⟨final.symm, fun node => ?_⟩
  have empty : ∀ node, neighbours (Dict.ofKeys (declaredNodes text) fun _ => []) node = [] := by
    intro node
    rw [neighbours, Dict.getD, Dict.get?_ofKeys]
    split <;> rfl
  have counted := removeDangling_count tmpAdjacencyList.keys_nodup removed node
  change (fileLinks text).foldl recordLink (Dict.ofKeys (declaredNodes text) fun _ => []) = _ at tmp
  have dangling : (node ∈ tmpAdjacencyList.keys ∧
      (neighbours tmpAdjacencyList node).length = 0) ↔
        node ∈ declaredNodes text ∧ ¬ Touched (fileLinks text) node := by
    rw [← tmp, recordLinks_dangling empty, mem_keys_recordLinks, ← Dict.get?_isSome,
      Dict.get?_ofKeys]
    by_cases declared : node ∈ declaredNodes text <;> simp [declared]
  simp only [dangling] at counted
  exact counted

def joined (links : List (NodeName × NodeName)) (u v : NodeName) : Nat :=
  (Multigraph.unordered links).count s(u, v)

/-- What the partitioners need of a graph that was read from link lines. -/
structure UsableGraph (links : List (NodeName × NodeName)) (nodes : List NodeName)
    (adjacencyList : AdjacencyList) : Prop where
  distinct : nodes.Nodup
  keys : ∀ node, node ∈ nodes ↔ node ∈ adjacencyList.keys
  closed : ∀ u ∈ adjacencyList.keys, ∀ v ∈ neighbours adjacencyList u, v ∈ adjacencyList.keys
  counted : ∀ u v, u ≠ v → multiplicity adjacencyList u v = joined links u v ∧
    multiplicity adjacencyList v u = joined links u v
  metis : createMetisAdjacencyList nodes adjacencyList ≠ none
  convert : convertAdjlistToMetisGraph nodes adjacencyList ≠ .error .keyError

/-- The first line declares every node once, and all ends of links. -/
structure WellDeclared (text : String) : Prop where
  distinct : (declaredNodes text).Nodup
  ends : ∀ link ∈ fileLinks text, link.1 ∈ declaredNodes text ∧ link.2 ∈ declaredNodes text

theorem WellDeclared.touched (declared : WellDeclared text) {node : NodeName}
    (touched : Touched (fileLinks text) node) : node ∈ declaredNodes text := by
  have ⟨link, listed, same⟩ := touched
  rcases same with rfl | rfl
  · exact (declared.ends link listed).1
  · exact (declared.ends link listed).2

theorem mem_keys_read (read : readGraphFromTopoFile text = some (nodes, adjacencyList))
    (node : NodeName) : node ∈ adjacencyList.keys ↔ Touched (fileLinks text) node := by
  rw [(readGraphFromTopoFile_spec read).1, mem_keys_recordLinks]
  simp

theorem multiplicity_read (read : readGraphFromTopoFile text = some (nodes, adjacencyList))
    (u v : NodeName) : multiplicity adjacencyList u v =
      (fileLinks text).count (u, v) + (fileLinks text).count (v, u) := by
  rw [(readGraphFromTopoFile_spec read).1, recordLinks_multiplicity]
  simp [multiplicity, neighbours, Dict.getD]

theorem mem_neighbours_read (read : readGraphFromTopoFile text = some (nodes, adjacencyList))
    {u v : NodeName} : v ∈ neighbours adjacencyList u ↔
      (u, v) ∈ fileLinks text ∨ (v, u) ∈ fileLinks text := by
  rw [(readGraphFromTopoFile_spec read).1]
  exact recordLinks_neighbours fun _ => rfl

theorem WellDeclared.read_nodes (declared : WellDeclared text)
    (read : readGraphFromTopoFile text = some (nodes, adjacencyList)) :
    nodes.Nodup ∧ ∀ node, node ∈ nodes ↔ Touched (fileLinks text) node := by
  have counted := (readGraphFromTopoFile_spec read).2
  have one (node : NodeName) : nodes.count node =
      if Touched (fileLinks text) node then 1 else 0 := by
    have here := counted node
    by_cases touched : Touched (fileLinks text) node
    next =>
      have member := declared.touched touched
      rw [List.count_eq_one_of_mem declared.distinct member] at here
      simpa [touched] using here
    next =>
      by_cases member : node ∈ declaredNodes text
      next =>
        rw [List.count_eq_one_of_mem declared.distinct member] at here
        simpa [touched, member] using here
      next =>
        rw [List.count_eq_zero.mpr member] at here
        simpa [touched, member] using here
  constructor
  next =>
    rw [List.nodup_iff_count_le_one]
    intro node
    rw [one]
    split <;> omega
  next =>
    intro node
    rw [← List.count_pos_iff, one]
    split <;> simp_all

theorem WellDeclared.read_topology (declared : WellDeclared text)
    (read : readGraphFromTopoFile text = some (nodes, adjacencyList)) :
    IsTopology nodes adjacencyList ∧ ∀ node ∈ nodes, neighbours adjacencyList node ≠ [] := by
  have ⟨distinct, members⟩ := declared.read_nodes read
  constructor
  next =>
    constructor
    case listed => exact fun node member => (mem_keys_read read node).mpr ((members node).mp member)
    case undirected =>
      constructor
      case distinct => exact distinct
      case closed =>
        intro u _ v neighbor
        rw [members]
        rcases (mem_neighbours_read read).mp neighbor with listed | listed
        · exact ⟨_, listed, .inr rfl⟩
        · exact ⟨_, listed, .inl rfl⟩
      case symmetric => exact fun u _ v _ => readGraphFromTopoFile_symmetric read u v
  next =>
    intro node member none
    have ⟨⟨x, y⟩, listed, same⟩ := (members node).mp member
    have neighbor : x ∈ neighbours adjacencyList node ∨ y ∈ neighbours adjacencyList node := by
      rcases same with rfl | rfl
      · exact .inr ((mem_neighbours_read read).mpr (.inl listed))
      · exact .inl ((mem_neighbours_read read).mpr (.inr listed))
    simp [none] at neighbor

/-- The reader's graph is fit for the partitioners where the declarations are. -/
theorem readGraphFromTopoFile_usable_iff
    (read : readGraphFromTopoFile text = some (nodes, adjacencyList)) :
    UsableGraph (fileLinks text) nodes adjacencyList ↔ WellDeclared text := by
  constructor
  next =>
    intro usable
    have member (node : NodeName) : node ∈ nodes ↔ Touched (fileLinks text) node := by
      rw [usable.keys, mem_keys_read read]
    have counted := (readGraphFromTopoFile_spec read).2
    constructor
    case distinct =>
      rw [List.nodup_iff_count_le_one]
      intro node
      rw [← counted node]
      by_cases touched : Touched (fileLinks text) node
      next =>
        have once := List.nodup_iff_count_le_one.mp usable.distinct node
        simpa [touched] using once
      next =>
        have absent := List.count_eq_zero.mpr (mt (member node).mp touched)
        rw [absent]
        split <;> omega
    case ends =>
      have declared (node : NodeName) (touched : Touched (fileLinks text) node) :
          node ∈ declaredNodes text := by
        have positive := List.count_pos_iff.mpr ((member node).mpr touched)
        rw [← List.count_pos_iff, ← counted node]
        omega
      exact fun link listed =>
        ⟨declared _ ⟨link, listed, .inl rfl⟩, declared _ ⟨link, listed, .inr rfl⟩⟩
  next =>
    intro declared
    have ⟨distinct, members⟩ := declared.read_nodes read
    have ⟨topology, linked⟩ := declared.read_topology read
    have keys (node : NodeName) : node ∈ nodes ↔ node ∈ adjacencyList.keys := by
      rw [members, mem_keys_read read]
    constructor
    case distinct => exact distinct
    case keys => exact keys
    case closed =>
      intro u known v neighbor
      exact (keys v).mp (topology.undirected.closed u ((keys u).mpr known) v neighbor)
    case counted =>
      intro u v different
      rw [joined, Multigraph.count_unordered _ different, multiplicity_read read,
        multiplicity_read read]
      exact ⟨rfl, Nat.add_comm _ _⟩
    case metis =>
      have ⟨_, _, _, run, _⟩ := createMetisAdjacencyList_spec topology.isGraph
      simp [run]
    case convert => simp [convertAdjlist_eq topology.isGraph linked]

theorem readGraphFromTopoFile_usable_iff_sample :
    UsableGraph (fileLinks "1 2 3\n1 2\n") ["1", "2"]
        ⟨[("1", ["2"]), ("2", ["1"])], by decide⟩ ↔ WellDeclared "1 2 3\n1 2\n" :=
  readGraphFromTopoFile_usable_iff (by decide +kernel)

-- Node 3 is not declared: it is a neighbour of node 1 and a key, but not a node.
theorem undeclared_end_not_usable :
    readGraphFromTopoFile "1 2\n1 3\n" =
        some (["1"], ⟨[("1", ["3"]), ("3", ["1"])], by decide⟩) ∧
      createMetisAdjacencyList ["1"] ⟨[("1", ["3"]), ("3", ["1"])], by decide⟩ = none ∧
      ¬ UsableGraph (fileLinks "1 2\n1 3\n") ["1"]
        ⟨[("1", ["3"]), ("3", ["1"])], by decide⟩ := by
  have lookup : createMetisAdjacencyList ["1"] ⟨[("1", ["3"]), ("3", ["1"])], by decide⟩ = none :=
    by decide +kernel
  exact ⟨by decide +kernel, lookup, fun usable => usable.metis lookup⟩

end Read

end SplitNN.Coordinator
