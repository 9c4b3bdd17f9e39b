import Mathlib
import SplitNN.Shared.Monadic
import SplitNN.Agent.Plan
import SplitNN.Agent.TopoLoader

set_option autoImplicit false

namespace SplitNN.Agent

open Text

def Integer (token : List Char) : Prop := (atoi token).2 = none

instance (token : List Char) : Decidable (Integer token) := inferInstanceAs (Decidable (_ = none))

def intValue (token : List Char) : Int := (atoi token).1

-- What a complete token `v_external_s_i` says.
def externalEdge (token : List Char) : Option (Int × Int × Int) :=
  match token.splitOn '_' with
  | [node, marker, serverID, vxlanID] =>
    if marker = "external".toList ∧ Integer node ∧ Integer serverID ∧ Integer vxlanID then
      some (intValue node, intValue serverID, intValue vxlanID)
    else none
  | _ => none

inductive LinkLine where
  | link (u v : Int)
  | dangling (u : Int) (edge : Int × Int × Int)
  deriving DecidableEq

-- What a line after the first says, where it has one of the two forms.
def linkLine (text : List Char) : Option LinkLine :=
  match fields text with
  | [first, second] =>
    if Integer first then
      if Integer second then some (.link (intValue first) (intValue second))
      else (externalEdge second).map (.dangling (intValue first))
    else none
  | _ => none

namespace LinkLine

def nodes : LinkLine → List Int
  | link u v => [u, v]
  | dangling u _ => [u]

-- A link from a node to itself stands twice in its list.
def neighborsOf (x : Int) : LinkLine → List Int
  | link u v => (if x = u then [v] else []) ++ (if x = v then [u] else [])
  | dangling _ _ => []

def danglingOf (x : Int) : LinkLine → List (Int × Int × Int)
  | link _ _ => []
  | dangling u edge => if x = u then [edge] else []

def addTo (g : Graph) : LinkLine → Graph
  | link u v => addEdge g u v
  | dangling u edge => addDanglingEdge g u edge

end LinkLine

def statedLines (text : String) : List LinkLine := (linkLines text).filterMap linkLine

/-- Every token is an integer, or the line is a complete dangling entry. -/
def Legible (line : List Char) : Prop :=
  (∀ token ∈ fields line, Integer token) ∨ (linkLine line).isSome

instance (line : List Char) : Decidable (Legible line) := inferInstanceAs (Decidable (_ ∨ _))

def Declared (text : String) (node : Int) : Prop :=
  ∃ token ∈ fields (firstLine text), Integer token ∧ intValue token = node

/-- The graph is what the file says, and nothing in the file says something else. -/
structure Faithful (text : String) (g : Graph) : Prop where
  header : ∀ token ∈ fields (firstLine text), Integer token
  legible : ∀ line ∈ linkLines text, Legible line
  keys : ∀ node, node ∈ g.adjacencyList.keys ↔ Declared text node
  danglingKeys : ∀ node ∈ g.danglingEdgeList.keys, Declared text node
  neighbors : ∀ node, g.neighbors node = (statedLines text).flatMap (LinkLine.neighborsOf node)
  dangling : ∀ node, g.dangling node = (statedLines text).flatMap (LinkLine.danglingOf node)

def ReadsFaithfully (text : String) : Prop :=
  match readGraphFromFile text with
  | .ok g => Faithful text g
  | .error (.error _) => True
  | .error .panic => False

-- An external token with so few parts that `splitedLine1` has no index 2 or 3.
def Panics (line : List Char) : Prop :=
  ∃ first second, fields line = [first, second] ∧ "_external".toList <:+: second ∧
    (second.splitOn '_').length < 4

/-- The files for which the reader keeps to what they say. -/
def Readable (text : String) : Prop :=
  (∃ token ∈ fields (firstLine text), ¬ Integer token) ∨
    (∀ line ∈ linkLines text, ¬ Panics line) ∧
      (tooLong text = true ∨ ∀ line ∈ linkLines text, Legible line ∧
        ∀ stated, linkLine line = some stated → ∀ node ∈ stated.nodes, Declared text node)

section Tokens

theorem parseUint_ok {digits : List Char} {value result : Nat}
    (parsed : parseUint value digits = .ok result) : ∀ c ∈ digits, c.isDigit = true := by
  induction digits generalizing value with
  | nil => simp
  | cons c rest ih =>
    unfold parseUint at parsed
    split at parsed
    next digit =>
      split at parsed
      next => cases parsed
      next => exact List.forall_mem_cons.mpr ⟨digit, ih parsed⟩
    next => cases parsed

theorem signed_ok {negative : Bool} {parsed : Except AtoiError Nat}
    (fine : (signed negative parsed).2 = none) : ∃ value, parsed = .ok value := by
  cases parsed with
  | ok value => exact ⟨value, rfl⟩
  | error e => cases e <;> cases negative <;> simp [signed] at fine

theorem Integer.clean {token : List Char} (integer : Integer token) : '_' ∉ token := by
  have digits {rest : List Char} {negative : Bool}
      (fine : (signed negative (parseUint 0 rest)).2 = none) : '_' ∉ rest := by
    have ⟨value, parsed⟩ := signed_ok fine
    exact fun member => absurd (parseUint_ok parsed '_' member) (by decide)
  unfold Integer atoi at integer
  split at integer
  next => simp
  next c rest =>
    split at integer
    next sign =>
      split at integer
      next => cases integer
      next =>
        have apart := digits integer
        rcases sign with rfl | rfl <;> simpa using apart
    next => exact digits integer

theorem Integer.plain {token : List Char} (integer : Integer token) :
    ¬ "_external".toList <:+: token :=
  fun inside => integer.clean (inside.subset (by simp))

theorem externalEdge_parts {token : List Char} {edge : Int × Int × Int}
    (reads : externalEdge token = some edge) : ∃ node serverID vxlanID,
      token.splitOn '_' = [node, "external".toList, serverID, vxlanID] ∧
        edge = (intValue node, intValue serverID, intValue vxlanID) := by
  unfold externalEdge at reads
  split at reads
  next node marker serverID vxlanID parts =>
    split at reads
    next complete =>
      exact ⟨node, serverID, vxlanID, complete.1 ▸ parts, (Option.some.inj reads).symm⟩
    next => cases reads
  next => cases reads

theorem externalEdge_marked {token : List Char} {edge : Int × Int × Int}
    (reads : externalEdge token = some edge) : "_external".toList <:+: token := by
  have ⟨node, serverID, vxlanID, parts, _⟩ := externalEdge_parts reads
  have whole : ['_'].intercalate (token.splitOn '_') = token := List.intercalate_splitOn '_'
  rw [parts] at whole
  refine ⟨node, '_' :: (serverID ++ '_' :: vxlanID), ?_⟩
  rw [← whole]
  simp [List.intercalate_cons_cons]

end Tokens

namespace Graph

theorem neighbors_addEdge (g : Graph) (u v x : Int) : (addEdge g u v).neighbors x =
    g.neighbors x ++ (if x = u then [v] else []) ++ (if x = v then [u] else []) :=
  getD_addEdge g u v x

theorem dangling_addDanglingEdge (g : Graph) (u : Int) (edge : Int × Int × Int) (x : Int) :
    (addDanglingEdge g u edge).dangling x = g.dangling x ++ (if x = u then [edge] else []) := by
  simp only [dangling, addDanglingEdge, getD_appendAt]
  split_ifs <;> simp_all

end Graph

section Lines

variable {g g' : Graph} {line : List Char} {stated : LinkLine}

theorem readLink_two (g : Graph) {first second : List Char}
    (two : fields line = [first, second]) : readLink g line =
      if "_external".toList <:+: second then
        match (second.splitOn '_')[0]?, (second.splitOn '_')[2]?, (second.splitOn '_')[3]? with
        | some externalNodeStr, some serverIDStr, some vxlanIDStr =>
          .ok (addDanglingEdge g (intValue first)
            (intValue externalNodeStr, intValue serverIDStr, intValue vxlanIDStr))
        | _, _, _ => .error .panic
      else .ok (addEdge g (intValue first) (intValue second)) := by
  rw [readLink, two]
  rfl

theorem readLink_other (g : Graph) (other : ∀ first second, fields line ≠ [first, second]) :
    readLink g line = .ok g := by
  unfold readLink
  split
  next first second two => exact absurd two (other first second)
  next => rfl

theorem readLink_stated (g : Graph) (reads : linkLine line = some stated) :
    readLink g line = .ok (stated.addTo g) := by
  unfold linkLine at reads
  split at reads
  next first second two =>
    rw [readLink_two g two]
    split at reads
    next integer =>
      split at reads
      next integer' =>
        rw [if_neg integer'.plain, ← Option.some.inj reads]
        rfl
      next =>
        have ⟨edge, external, made⟩ := Option.map_eq_some_iff.mp reads
        have ⟨node, serverID, vxlanID, parts, values⟩ := externalEdge_parts external
        rw [if_pos (externalEdge_marked external), parts, ← made, values]
        rfl
    next => cases reads
  next => cases reads

theorem readLink_silent (g : Graph) (silent : linkLine line = none) (legible : Legible line) :
    readLink g line = .ok g := by
  refine readLink_other g fun first second two => ?_
  have integers := legible.resolve_right (by simp [silent])
  rw [two] at integers
  simp [linkLine, two, integers first (by simp), integers second (by simp)] at silent

theorem readLink_total (g : Graph) (line : List Char) :
    (∃ g', readLink g line = .ok g') ∧ ¬ Panics line ∨
      readLink g line = .error .panic ∧ Panics line := by
  by_cases two : ∃ first second, fields line = [first, second]
  next =>
    have ⟨first, second, two⟩ := two
    have only : Panics line ↔ "_external".toList <:+: second ∧
        (second.splitOn '_').length < 4 := by
      constructor
      next =>
        intro ⟨first', second', two', inside, short⟩
        have same : second' = second := by
          rw [two] at two'
          simp_all
        exact same ▸ ⟨inside, short⟩
      next => exact fun ⟨inside, short⟩ => ⟨first, second, two, inside, short⟩
    rw [readLink_two g two, only]
    by_cases inside : "_external".toList <:+: second
    next =>
      rw [if_pos inside]
      by_cases short : (second.splitOn '_').length < 4
      next =>
        rw [List.getElem?_eq_none (l := second.splitOn '_') (i := 3) (by omega)]
        right
        refine ⟨?_, inside, short⟩
        split <;> simp_all
      next =>
        left
        rw [List.getElem?_eq_getElem (i := 0) (by omega),
          List.getElem?_eq_getElem (i := 2) (by omega),
          List.getElem?_eq_getElem (i := 3) (by omega)]
        exact ⟨⟨_, rfl⟩, fun given => short given.2⟩
    next =>
      rw [if_neg inside]
      exact .inl ⟨⟨_, rfl⟩, fun given => inside given.1⟩
  next =>
    refine .inl ⟨⟨g, readLink_other g fun first second same => two ⟨first, second, same⟩⟩, ?_⟩
    exact fun ⟨first, second, same, _⟩ => two ⟨first, second, same⟩

end Lines

section Files

variable {g : Graph}

theorem declareNode_keeps {g g' : Graph} {nodeStr : List Char}
    (declared : declareNode g nodeStr = .ok g') (none : ∀ u, g.neighbors u = []) :
    ∀ u, g'.neighbors u = [] := by
  unfold declareNode at declared
  split at declared
  next node _ =>
    have result := Except.ok.inj declared
    intro u
    rw [← result]
    simp only [Graph.neighbors, Dict.getD_set]
    split
    next => rfl
    next => exact none u
  next => cases declared

theorem declareNode_ok (g : Graph) {token : List Char} (integer : Integer token) :
    declareNode g token =
      .ok { g with adjacencyList := g.adjacencyList.set (intValue token) [] } := by
  unfold Integer at integer
  unfold declareNode intValue
  split
  next node found => rw [found]
  next node error found => simp [found] at integer

theorem declareNode_error (g : Graph) {token : List Char} (wrong : ¬ Integer token) :
    ∃ message, declareNode g token = .error (.error message) := by
  unfold Integer at wrong
  unfold declareNode
  split
  next node found => simp [found] at wrong
  next => exact ⟨_, rfl⟩

theorem declareNodes_total (g : Graph) (tokens : List (List Char)) :
    (∃ g', tokens.foldlM declareNode g = .ok g' ∧
        (∀ node, node ∈ g'.adjacencyList.keys ↔
          node ∈ g.adjacencyList.keys ∨ ∃ token ∈ tokens, intValue token = node) ∧
        g'.danglingEdgeList = g.danglingEdgeList) ∧ (∀ token ∈ tokens, Integer token) ∨
      (∃ message, tokens.foldlM declareNode g = .error (.error message)) ∧
        ∃ token ∈ tokens, ¬ Integer token := by
  induction tokens generalizing g with
  | nil => exact .inl ⟨⟨g, rfl, by simp, rfl⟩, by simp⟩
  | cons token rest ih =>
    rw [List.foldlM_cons]
    by_cases integer : Integer token
    next =>
      rw [declareNode_ok g integer]
      rcases ih { g with adjacencyList := g.adjacencyList.set (intValue token) [] } with
        ⟨⟨g', run, keys, dangling⟩, integers⟩ | ⟨failed, wrong⟩
      next =>
        refine .inl ⟨⟨g', run, fun node => ?_, dangling⟩, by simpa [integer] using integers⟩
        simp only [keys, Dict.mem_keys_set, List.exists_mem_cons_iff, or_assoc, eq_comm]
      next =>
        have ⟨other, member, bad⟩ := wrong
        exact .inr ⟨failed, other, List.mem_cons_of_mem token member, bad⟩
    next =>
      have ⟨message, failed⟩ := declareNode_error g integer
      exact .inr ⟨⟨message, by rw [failed]; rfl⟩, token, by simp, integer⟩

theorem readLinks_total (g : Graph) (lines : List (List Char)) :
    (∃ g', lines.foldlM readLink g = .ok g') ∧ (∀ line ∈ lines, ¬ Panics line) ∨
      lines.foldlM readLink g = .error .panic ∧ ∃ line ∈ lines, Panics line := by
  induction lines generalizing g with
  | nil => exact .inl ⟨⟨g, rfl⟩, by simp⟩
  | cons line rest ih =>
    rw [List.foldlM_cons]
    rcases readLink_total g line with ⟨⟨next, read⟩, fine⟩ | ⟨failed, bad⟩
    next =>
      rw [read]
      rcases ih next with ⟨⟨g', run⟩, others⟩ | ⟨failed, other, member, bad⟩
      next => exact .inl ⟨⟨g', run⟩, by simpa [fine] using others⟩
      next => exact .inr ⟨failed, other, List.mem_cons_of_mem line member, bad⟩
    next => exact .inr ⟨by rw [failed]; rfl, line, by simp, bad⟩

theorem readLinks_stated (g : Graph) {lines : List (List Char)}
    (legible : ∀ line ∈ lines, Legible line) :
    lines.foldlM readLink g = .ok ((lines.filterMap linkLine).foldl LinkLine.addTo g) := by
  induction lines generalizing g with
  | nil => rfl
  | cons line rest ih =>
    have later := fun g => ih g fun other member => legible other (List.mem_cons_of_mem line member)
    rw [List.foldlM_cons]
    cases reads : linkLine line with
    | none =>
      rw [readLink_silent g reads (legible line (by simp)), List.filterMap_cons_none reads]
      exact later g
    | some stated =>
      rw [readLink_stated g reads, List.filterMap_cons_some reads]
      exact later (stated.addTo g)

theorem LinkLine.addTo_neighbors (g : Graph) (stated : LinkLine) (x : Int) :
    (stated.addTo g).neighbors x = g.neighbors x ++ stated.neighborsOf x := by
  cases stated with
  | link u v => simp [addTo, neighborsOf, Graph.neighbors_addEdge]
  | dangling u edge => simp [addTo, neighborsOf, Graph.neighbors, addDanglingEdge]

theorem LinkLine.addTo_dangling (g : Graph) (stated : LinkLine) (x : Int) :
    (stated.addTo g).dangling x = g.dangling x ++ stated.danglingOf x := by
  cases stated with
  | link u v => simp [addTo, danglingOf, Graph.dangling, addEdge]
  | dangling u edge => simp [addTo, danglingOf, Graph.dangling_addDanglingEdge]

theorem LinkLine.addTo_keys {stated : LinkLine}
    (known : ∀ node ∈ stated.nodes, node ∈ g.adjacencyList.keys) :
    (stated.addTo g).adjacencyList.keys = g.adjacencyList.keys ∧
      ∀ node ∈ (stated.addTo g).danglingEdgeList.keys,
        node ∈ g.danglingEdgeList.keys ∨ node ∈ g.adjacencyList.keys := by
  cases stated with
  | link u v =>
    exact ⟨addEdge_keys (known u (by simp [nodes])) (known v (by simp [nodes])), fun _ => .inl⟩
  | dangling u edge =>
    refine ⟨rfl, fun node member => ?_⟩
    rcases Dict.mem_keys_set.mp member with old | same
    next => exact .inl old
    next => exact .inr (same ▸ known u (by simp [nodes]))

theorem addStated (g : Graph) {stated : List LinkLine}
    (known : ∀ one ∈ stated, ∀ node ∈ one.nodes, node ∈ g.adjacencyList.keys) :
    let g' := stated.foldl LinkLine.addTo g
    g'.adjacencyList.keys = g.adjacencyList.keys ∧
      (∀ node ∈ g'.danglingEdgeList.keys,
        node ∈ g.danglingEdgeList.keys ∨ node ∈ g.adjacencyList.keys) ∧
      (∀ x, g'.neighbors x = g.neighbors x ++ stated.flatMap (LinkLine.neighborsOf x)) ∧
      ∀ x, g'.dangling x = g.dangling x ++ stated.flatMap (LinkLine.danglingOf x) := by
  induction stated generalizing g with
  | nil => exact ⟨rfl, fun _ => .inl, by simp, by simp⟩
  | cons one rest ih =>
    have ⟨keys, dangling⟩ := LinkLine.addTo_keys (known one (by simp))
    have ⟨keys', dangling', neighbors, entries⟩ := ih (one.addTo g) fun other member => by
      rw [keys]
      exact known other (List.mem_cons_of_mem one member)
    refine ⟨keys'.trans keys, fun node member => ?_, fun x => ?_, fun x => ?_⟩
    next =>
      rcases dangling' node member with old | known
      next => exact dangling node old
      next => exact .inr (keys ▸ known)
    next => rw [List.foldl_cons, neighbors, LinkLine.addTo_neighbors]; simp
    next => rw [List.foldl_cons, entries, LinkLine.addTo_dangling]; simp

-- What a node's lists hold comes from lines that name the node.
theorem Faithful.stated_declared {text : String} (faithful : Faithful text g) {line : List Char}
    (member : line ∈ linkLines text) {stated : LinkLine} (reads : linkLine line = some stated) :
    ∀ node ∈ stated.nodes, Declared text node := by
  have listed : stated ∈ statedLines text := List.mem_filterMap.mpr ⟨line, member, reads⟩
  have linked {node : Int} (other : Int) (here : other ∈ stated.neighborsOf node) :
      Declared text node := by
    have inside : other ∈ g.neighbors node := by
      rw [faithful.neighbors]
      exact List.mem_flatMap.mpr ⟨stated, listed, here⟩
    refine (faithful.keys node).mp ?_
    by_contra absent
    rw [g.neighbors_unlisted absent] at inside
    cases inside
  intro node named
  cases stated with
  | link u v =>
    simp only [LinkLine.nodes, List.mem_cons, List.not_mem_nil, or_false] at named
    rcases named with rfl | rfl
    next => exact linked v (by simp [LinkLine.neighborsOf])
    next => exact linked u (by simp [LinkLine.neighborsOf])
  | dangling u edge =>
    have same : node = u := by simpa [LinkLine.nodes] using named
    have inside : edge ∈ g.dangling node := by
      rw [faithful.dangling]
      exact List.mem_flatMap.mpr ⟨_, listed, by simp [LinkLine.danglingOf, same]⟩
    refine faithful.danglingKeys node ?_
    by_contra absent
    rw [g.dangling_unlisted absent] at inside
    cases inside

theorem faithful_of_legible {text : String} {declared : Graph}
    (header : ∀ token ∈ fields (firstLine text), Integer token)
    (run : (fields (firstLine text)).foldlM declareNode newGraph = .ok declared)
    (keys : ∀ node, node ∈ declared.adjacencyList.keys ↔ Declared text node)
    (none : declared.danglingEdgeList = Dict.empty)
    (links : (linkLines text).foldlM readLink declared = .ok g)
    (legible : ∀ line ∈ linkLines text, Legible line ∧
      ∀ stated, linkLine line = some stated → ∀ node ∈ stated.nodes, Declared text node) :
    Faithful text g := by
  have read := readLinks_stated declared fun line member => (legible line member).1
  have result : (statedLines text).foldl LinkLine.addTo declared = g :=
    Except.ok.inj (read.symm.trans links)
  have known : ∀ one ∈ statedLines text, ∀ node ∈ one.nodes,
      node ∈ declared.adjacencyList.keys := by
    intro one member node named
    have ⟨line, inside, reads⟩ := List.mem_filterMap.mp member
    exact (keys node).mpr ((legible line inside).2 one reads node named)
  have ⟨sameKeys, dangling, neighbors, entries⟩ := addStated declared known
  rw [result] at sameKeys dangling neighbors entries
  have unlinked : ∀ x, declared.neighbors x = [] :=
    Monadic.foldlM_keeps (P := fun g : Graph => ∀ u, g.neighbors u = [])
      (fun _ _ _ none _ declared => declareNode_keeps declared none) (fun _ => rfl) run
  refine ⟨header, fun line member => (legible line member).1, ?_, ?_, ?_, ?_⟩
  next => exact fun node => sameKeys ▸ keys node
  next =>
    intro node member
    rcases dangling node member with old | known
    next => rw [none] at old; cases old
    next => exact (keys node).mp known
  next => intro node; rw [neighbors, unlinked]; rfl
  next =>
    intro node
    rw [entries, Graph.dangling, none]
    rfl

/-- When the reader either refuses a file or returns what it says. -/
theorem readsFaithfully_iff (text : String) : ReadsFaithfully text ↔ Readable text := by
  unfold ReadsFaithfully Readable
  rw [readGraphFromFile_eq]
  rcases declareNodes_total newGraph (fields (firstLine text)) with
    ⟨⟨declared, run, keys, none⟩, header⟩ | ⟨⟨message, failed⟩, wrong⟩
  next =>
    have noWrong : ¬ ∃ token ∈ fields (firstLine text), ¬ Integer token :=
      fun ⟨token, member, bad⟩ => bad (header token member)
    have named : ∀ node, node ∈ declared.adjacencyList.keys ↔ Declared text node := by
      intro node
      rw [keys]
      constructor
      next =>
        intro given
        have ⟨token, member, same⟩ := given.resolve_left (by simp [newGraph])
        exact ⟨token, member, header token member, same⟩
      next => exact fun ⟨token, member, _, same⟩ => .inr ⟨token, member, same⟩
    rw [run]
    rcases readLinks_total declared (linkLines text) with ⟨⟨g, links⟩, fine⟩ | ⟨failed, bad⟩
    next =>
      simp only [links, bind, Except.bind, noWrong, false_or]
      cases long : tooLong text with
      | true => simpa using fine
      | false =>
        simp only [Bool.false_eq_true, if_false, false_or]
        constructor
        next =>
          intro faithful
          refine ⟨fine, fun line member => ⟨faithful.legible line member, fun stated reads => ?_⟩⟩
          exact faithful.stated_declared member reads
        next =>
          exact fun given => faithful_of_legible header run named none links given.2
    next =>
      have ⟨line, member, panics⟩ := bad
      simp only [failed, bind, Except.bind, noWrong, false_or, false_iff]
      exact fun given => given.1 line member panics
  next =>
    simp only [failed, bind, Except.bind, true_iff]
    exact .inl wrong

-- A token that is no number becomes node 0, and a cut-off external token ends the agent.
theorem readsFaithfully_fails :
    ¬ ReadsFaithfully "1 2\n1 x\n" ∧ ¬ ReadsFaithfully "1\n1 2_external_3" := by
  constructor
  next =>
    have lines : linkLines "1 2\n1 x\n" = ["1 x".toList] := rfl
    have illegible : ¬ Legible "1 x".toList := by decide
    have ⟨g, loaded⟩ : ∃ g, readGraphFromFile "1 2\n1 x\n" = .ok g := ⟨_, rfl⟩
    rw [ReadsFaithfully, loaded]
    exact fun faithful => illegible (faithful.legible _ (by simp [lines]))
  next =>
    have crash : readGraphFromFile "1\n1 2_external_3" = .error .panic := rfl
    rw [ReadsFaithfully, crash]
    exact id

end Files

end SplitNN.Agent
