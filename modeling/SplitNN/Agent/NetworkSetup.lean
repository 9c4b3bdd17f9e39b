import Mathlib
import SplitNN.Agent.Plan
import SplitNN.Shared.Monadic

set_option autoImplicit false

namespace SplitNN.Agent

-- What a sequential set-up asks of the node manager and the link manager.
inductive Op where
  | setupNode (nodeId : Int)
  | setupBbNs
  | enterBbNs (bbnsIndex : Nat)
  | setupLink (edge : PlannedLink)
  deriving DecidableEq

inductive SetupError where
  | failed (op : Op)
  | divideByZero
  | indexOutOfRange
  deriving DecidableEq

-- Whether an operation fails may depend on everything that was done before.
abbrev Failures := List Op → Op → Bool

def perform (fails : Failures) (trace : List Op) (op : Op) : Except SetupError (List Op) :=
  if fails trace op then .error (.failed op) else .ok (trace ++ [op])

-- The divisions of a progress report, whose text is left out.
def reportProgress (total i : Nat) : Except SetupError Unit :=
  let perReport := total / 100
  if 0 < perReport ∧ i % perReport = 0 ∧ total = 0 then .error .divideByZero else .ok ()

def linkPerBackBoneNs (g : Graph) (backBoneNum : Nat) : Nat :=
  (g.getEdgeNum + backBoneNum - 1) / backBoneNum

structure LinkState where
  trace : List Op
  curLinkNum : Nat
  curBbnsIndex : Nat

def setupNode (fails : Failures) (nodeNum : Nat) (trace : List Op) (node : Int × Nat) :
    Except SetupError (List Op) := do
  reportProgress nodeNum node.2
  perform fails trace (.setupNode node.1)

def enterOnDemand (fails : Failures) (linkPerBackBoneNs : Nat) (st : LinkState) :
    Except SetupError LinkState :=
  if linkPerBackBoneNs = 0 then .error .divideByZero
  else if st.curLinkNum % linkPerBackBoneNs = 0 then do
    let trace ← perform fails st.trace (.enterBbNs st.curBbnsIndex)
    return { st with trace := trace, curBbnsIndex := st.curBbnsIndex + 1 }
  else .ok st

def setupEdge (fails : Failures) (linkNum linkPerBackBoneNs : Nat) (st : LinkState)
    (edge : PlannedLink) : Except SetupError LinkState := do
  let st ← enterOnDemand fails linkPerBackBoneNs st
  reportProgress linkNum st.curLinkNum
  let trace ← perform fails st.trace (.setupLink edge)
  return { st with trace := trace, curLinkNum := st.curLinkNum + 1 }

def setupStep (fails : Failures) (linkNum linkPerBackBoneNs : Nat)
    (edgeOrder : List (List PlannedLink)) (st : LinkState) (i : Nat) :
    Except SetupError LinkState :=
  match edgeOrder[i]? with
  | none => .error .indexOutOfRange
  -- The namespace index starts again at every node, the link number does not.
  | some edges =>
    edges.foldlM (setupEdge fails linkNum linkPerBackBoneNs) { st with curBbnsIndex := 0 }

-- `NetworkSetup` with `Parallel = 0`: the operations in their order.
def networkSetup (fails : Failures) (g : Graph) (nodeOrder : List Int)
    (edgeOrder : List (List PlannedLink)) (backBoneNum : Nat) : Except SetupError (List Op) :=
  if backBoneNum = 0 then .error .divideByZero
  else do
    let trace ← nodeOrder.zipIdx.foldlM (setupNode fails g.getNodeNum) []
    let trace ← (List.replicate backBoneNum Op.setupBbNs).foldlM (perform fails) trace
    let st ← (List.range nodeOrder.length).foldlM
      (setupStep fails g.getEdgeNum (linkPerBackBoneNs g backBoneNum) edgeOrder) ⟨trace, 0, 0⟩
    return st.trace

section Observation

def observe (seen : Option Nat × List (Option Nat × PlannedLink)) :
    Op → Option Nat × List (Option Nat × PlannedLink)
  | .enterBbNs bbnsIndex => (some bbnsIndex, seen.2)
  | .setupLink edge => (seen.1, seen.2 ++ [(seen.1, edge)])
  | _ => seen

def currentBbns (trace : List Op) : Option Nat := (trace.foldl observe (none, [])).1

def linkPlacements (trace : List Op) : List (Option Nat × PlannedLink) :=
  (trace.foldl observe (none, [])).2

theorem observe_enter (trace : List Op) (bbnsIndex : Nat) :
    currentBbns (trace ++ [.enterBbNs bbnsIndex]) = some bbnsIndex ∧
      linkPlacements (trace ++ [.enterBbNs bbnsIndex]) = linkPlacements trace := by
  simp [currentBbns, linkPlacements, observe]

theorem observe_link (trace : List Op) (edge : PlannedLink) :
    currentBbns (trace ++ [.setupLink edge]) = currentBbns trace ∧
      linkPlacements (trace ++ [.setupLink edge]) =
        linkPlacements trace ++ [(currentBbns trace, edge)] := by
  simp [currentBbns, linkPlacements, observe]

end Observation

section Multiples

def entersBefore (L k : Nat) : Nat := (k + L - 1) / L

theorem entersBefore_zero {L : Nat} (positive : 0 < L) : entersBefore L 0 = 0 :=
  Nat.div_eq_of_lt (by omega)

theorem entersBefore_due {L k : Nat} (positive : 0 < L) (due : k % L = 0) :
    entersBefore L k = k / L := by
  have whole := Nat.div_add_mod k L
  rw [due] at whole
  apply Nat.div_eq_of_lt_le
  · rw [Nat.mul_comm]
    omega
  · rw [Nat.mul_comm, Nat.mul_succ]
    omega

theorem entersBefore_succ {L : Nat} (positive : 0 < L) (k : Nat) :
    entersBefore L (k + 1) = k / L + 1 := by
  have shift : k + 1 + L - 1 = k + L := by omega
  rw [entersBefore, shift, Nat.add_div_right k positive]

theorem entersBefore_waiting {L k : Nat} (positive : 0 < L) (waiting : k % L ≠ 0) :
    entersBefore L k = k / L + 1 := by
  cases k with
  | zero => simp at waiting
  | succ k =>
    rw [entersBefore_succ positive, Nat.succ_div]
    have apart : ¬ L ∣ k + 1 := fun divides => waiting (Nat.mod_eq_zero_of_dvd divides)
    simp [apart]

theorem entersBefore_mono {L j k : Nat} (le : j ≤ k) : entersBefore L j ≤ entersBefore L k :=
  Nat.div_le_div_right (by omega)

theorem entersBefore_eq_zero {L k : Nat} (positive : 0 < L) : entersBefore L k = 0 ↔ k = 0 := by
  cases k with
  | zero => simp [entersBefore_zero positive]
  | succ k => simp [entersBefore_succ positive]

end Multiples

section Run

-- The number of the first link of the step that holds link `k`.
def stepStart {α : Type} : List (List α) → Nat → Nat
  | [], _ => 0
  | edges :: rest, k =>
    if k < edges.length then 0 else edges.length + stepStart rest (k - edges.length)

theorem stepStart_step {α : Type} (before after : List (List α)) (edges : List α) {k : Nat}
    (low : before.flatten.length ≤ k) (high : k < before.flatten.length + edges.length) :
    stepStart (before ++ edges :: after) k = before.flatten.length := by
  induction before generalizing k with
  | nil =>
    have first : k < edges.length := by simpa using high
    simp [stepStart, first]
  | cons head rest ih =>
    simp only [List.flatten_cons, List.length_append] at low high
    have later : ¬ k < head.length := by omega
    rw [List.cons_append, stepStart, if_neg later, ih (by omega) (by omega)]
    simp

-- The namespace index that link `k` gets when the index counts from its step's first link.
def bbnsOf (L : Nat) (starts : Nat → Nat) (k : Nat) : Nat :=
  k / L - entersBefore L (starts (k / L * L))

theorem bbnsOf_due {L : Nat} (starts : Nat → Nat) {k : Nat} (due : k % L = 0) :
    bbnsOf L starts k = k / L - entersBefore L (starts k) := by
  rw [bbnsOf, Nat.div_mul_cancel (Nat.dvd_of_mod_eq_zero due)]

theorem bbnsOf_waiting {L : Nat} (starts : Nat → Nat) {k : Nat} (waiting : (k + 1) % L ≠ 0) :
    bbnsOf L starts (k + 1) = bbnsOf L starts k := by
  have apart : ¬ L ∣ k + 1 := fun divides => waiting (Nat.mod_eq_zero_of_dvd divides)
  have same : (k + 1) / L = k / L := by simp [Nat.succ_div, apart]
  rw [bbnsOf, bbnsOf, same]

structure Placed (L : Nat) (starts : Nat → Nat) (edges : List PlannedLink) (setUp trace : List Op) :
    Prop where
  grown : ∃ rest, trace = setUp ++ rest ∧
    ∀ op ∈ rest, (∃ k < edges.length, op = .enterBbNs (bbnsOf L starts k)) ∨
      ∃ edge, op = .setupLink edge
  links : linkPlacements trace =
    edges.zipIdx.map fun link => (some (bbnsOf L starts link.2), link.1)
  current : ∀ k, edges.length = k + 1 → currentBbns trace = some (bbnsOf L starts k)

variable {fails : Failures} (succeeds : ∀ trace op, fails trace op = false)
include succeeds

theorem perform_ok (trace : List Op) (op : Op) : perform fails trace op = .ok (trace ++ [op]) := by
  simp [perform, succeeds]

omit succeeds in
theorem reportProgress_ok (total i : Nat) : reportProgress total i = .ok () := by
  have guarded : ¬ (0 < total / 100 ∧ i % (total / 100) = 0 ∧ total = 0) := by
    intro due
    omega
  simp only [reportProgress]
  rw [if_neg guarded]

theorem enterOnDemand_placed {L S : Nat} (positive : 0 < L) {starts : Nat → Nat}
    {edges : List PlannedLink} {setUp : List Op} {st : LinkState}
    (placed : Placed L starts edges setUp st.trace) (number : st.curLinkNum = edges.length)
    (step : starts edges.length = S) (started : S ≤ edges.length)
    (index : st.curBbnsIndex = entersBefore L edges.length - entersBefore L S) :
    ∃ st', enterOnDemand fails L st = .ok st' ∧ st'.curLinkNum = edges.length ∧
      st'.curBbnsIndex = entersBefore L (edges.length + 1) - entersBefore L S ∧
      currentBbns st'.trace = some (bbnsOf L starts edges.length) ∧
      linkPlacements st'.trace = linkPlacements st.trace ∧
      ∃ entering, st'.trace = st.trace ++ entering ∧
        ∀ op ∈ entering, op = .enterBbNs (bbnsOf L starts edges.length) := by
  have mono : entersBefore L S ≤ entersBefore L edges.length := entersBefore_mono started
  have divides : L ≠ 0 := Nat.ne_of_gt positive
  by_cases due : edges.length % L = 0
  next =>
    have due' : st.curLinkNum % L = 0 := number ▸ due
    have here : st.curBbnsIndex = bbnsOf L starts edges.length := by
      rw [bbnsOf_due starts due, step, index, entersBefore_due positive due]
    have observed := observe_enter st.trace st.curBbnsIndex
    refine ⟨{ st with
      trace := st.trace ++ [.enterBbNs st.curBbnsIndex]
      curBbnsIndex := st.curBbnsIndex + 1 }, ?_, number, ?_, ?_, observed.2,
      [.enterBbNs st.curBbnsIndex], rfl, ?_⟩
    · rw [enterOnDemand, if_neg divides, if_pos due', perform_ok succeeds]
      rfl
    · rw [entersBefore_due positive due] at index mono
      rw [entersBefore_succ positive]
      change st.curBbnsIndex + 1 = _
      omega
    · rw [← here]
      exact observed.1
    · intro op member
      rw [List.mem_singleton.mp member, here]
  next =>
    have due' : ¬ st.curLinkNum % L = 0 := number ▸ due
    refine ⟨st, ?_, number, ?_, ?_, rfl, [], (List.append_nil _).symm, nofun⟩
    · rw [enterOnDemand, if_neg divides, if_neg due']
    · rw [entersBefore_waiting positive due] at index
      rw [entersBefore_succ positive]
      exact index
    · cases length : edges.length with
      | zero => simp [length] at due
      | succ k =>
        rw [length] at due
        rw [bbnsOf_waiting starts due]
        exact placed.current k length

theorem setupEdge_placed {L S : Nat} (positive : 0 < L) {starts : Nat → Nat}
    {edges : List PlannedLink} {setUp : List Op} {st : LinkState} (linkNum : Nat)
    (edge : PlannedLink) (placed : Placed L starts edges setUp st.trace)
    (number : st.curLinkNum = edges.length) (step : starts edges.length = S)
    (started : S ≤ edges.length)
    (index : st.curBbnsIndex = entersBefore L edges.length - entersBefore L S) :
    ∃ st', setupEdge fails linkNum L st edge = .ok st' ∧
      Placed L starts (edges ++ [edge]) setUp st'.trace ∧ st'.curLinkNum = edges.length + 1 ∧
      st'.curBbnsIndex = entersBefore L (edges.length + 1) - entersBefore L S := by
  have ⟨entered, enters, entersNumber, entersIndex, current, links, entering, grown, only⟩ :=
    enterOnDemand_placed succeeds positive placed number step started index
  have observed := observe_link entered.trace edge
  refine ⟨{ entered with
    trace := entered.trace ++ [.setupLink edge]
    curLinkNum := entered.curLinkNum + 1 }, ?_, ⟨?_, ?_, ?_⟩, ?_, entersIndex⟩
  · simp only [setupEdge, enters, reportProgress_ok, perform_ok succeeds, Except.bind, bind, pure,
      Except.pure]
  · have ⟨rest, whole, allowed⟩ := placed.grown
    have last : edges.length < (edges ++ [edge]).length := by simp
    refine ⟨rest ++ entering ++ [.setupLink edge], by simp [grown, whole], ?_⟩
    intro op member
    rcases List.mem_append.mp member with before | link
    · rcases List.mem_append.mp before with old | enter
      · rcases allowed op old with ⟨k, bound, same⟩ | link
        · exact .inl ⟨k, bound.trans last, same⟩
        · exact .inr link
      · exact .inl ⟨edges.length, last, only op enter⟩
    · exact .inr ⟨edge, List.mem_singleton.mp link⟩
  · rw [observed.2, links, placed.links, current]
    simp [List.zipIdx_append]
  · intro k length
    have last : k = edges.length := by simpa using length.symm
    rw [observed.1, current, last]
  · change entered.curLinkNum + 1 = _
    rw [entersNumber]

theorem setupStep_placed {L : Nat} {starts : Nat → Nat} (linkNum : Nat) {setUp : List Op}
    (start : Nat) (links : List PlannedLink) (positive : links ≠ [] → 0 < L)
    (done : List PlannedLink) {st : LinkState} {edges : List PlannedLink}
    (placed : Placed L starts edges setUp st.trace)
    (number : st.curLinkNum = edges.length) (inside : edges.length = start + done.length)
    (step : ∀ k, start ≤ k → k < start + done.length + links.length → starts k = start)
    (index : st.curBbnsIndex = entersBefore L edges.length - entersBefore L start) :
    ∃ st', links.foldlM (setupEdge fails linkNum L) st = .ok st' ∧
      Placed L starts (edges ++ links) setUp st'.trace ∧
      st'.curLinkNum = (edges ++ links).length := by
  induction links generalizing st edges done with
  | nil => exact ⟨st, rfl, by simpa using placed, by simpa using number⟩
  | cons edge rest ih =>
    simp only [List.length_cons] at step
    obtain ⟨next, run, placed', number', index'⟩ := setupEdge_placed succeeds
      (positive (by simp)) linkNum edge placed number (step edges.length (by omega) (by omega))
      (by omega) index
    obtain ⟨last, later, placed'', number''⟩ := ih
      (fun _ => positive (by simp)) (done ++ [edge]) placed' (by simp [number']) (by simp; omega)
      (by
        intro k low high
        apply step k low
        simp only [List.length_append, List.length_singleton] at high
        omega)
      (by simpa using index')
    refine ⟨last, ?_, by simpa using placed'', by simpa using number''⟩
    rw [List.foldlM_cons, run]
    exact later

theorem setupSteps_placed {L : Nat} (linkNum : Nat) {setUp : List Op}
    {steps : List (List PlannedLink)} (positive : steps.flatten ≠ [] → 0 < L)
    (before rest : List (List PlannedLink)) (whole : steps = before ++ rest) {st : LinkState}
    (placed : Placed L (stepStart steps) before.flatten setUp st.trace)
    (number : st.curLinkNum = before.flatten.length) :
    ∃ st', rest.foldlM (fun st edges =>
        edges.foldlM (setupEdge fails linkNum L) { st with curBbnsIndex := 0 }) st = .ok st' ∧
      Placed L (stepStart steps) steps.flatten setUp st'.trace := by
  induction rest generalizing st before with
  | nil =>
    rw [List.append_nil] at whole
    exact ⟨st, rfl, whole ▸ placed⟩
  | cons edges rest ih =>
    have inStep (k : Nat) (low : before.flatten.length ≤ k)
        (high : k < before.flatten.length + ([] : List PlannedLink).length + edges.length) :
        stepStart steps k = before.flatten.length := by
      rw [whole]
      exact stepStart_step before rest edges low high
    have some_edge (nonempty : edges ≠ []) : 0 < L := by
      apply positive
      rw [whole]
      simp [nonempty]
    let fromZero : LinkState := { st with curBbnsIndex := 0 }
    have placedZero : Placed L (stepStart steps) before.flatten setUp fromZero.trace := placed
    obtain ⟨next, run, placed', number'⟩ := setupStep_placed succeeds linkNum
      before.flatten.length edges some_edge [] placedZero number rfl inStep (by simp [fromZero])
    have moved : (before ++ [edges]).flatten = before.flatten ++ edges := by simp
    obtain ⟨last, later, done⟩ := ih (before ++ [edges]) (by simp [whole]) (moved ▸ placed')
      (moved ▸ number')
    refine ⟨last, ?_, done⟩
    rw [List.foldlM_cons, run]
    exact later

omit succeeds in
theorem setupStep_range (fails : Failures) (linkNum L : Nat) (edgeOrder : List (List PlannedLink))
    {n : Nat} (enough : n ≤ edgeOrder.length) (st : LinkState) :
    (List.range n).foldlM (setupStep fails linkNum L edgeOrder) st =
      (edgeOrder.take n).foldlM (fun st edges =>
        edges.foldlM (setupEdge fails linkNum L) { st with curBbnsIndex := 0 }) st := by
  induction n with
  | zero => rfl
  | succ n ih =>
    have found : edgeOrder[n]? = some edgeOrder[n] := List.getElem?_eq_getElem (by omega)
    rw [List.range_succ, List.take_add_one, List.foldlM_append, List.foldlM_append, ih (by omega),
      found]
    congr 1
    funext st
    simp [setupStep, found]

theorem setupNodes_ok (nodeNum : Nat) (nodes : List (Int × Nat)) (trace : List Op) :
    nodes.foldlM (setupNode fails nodeNum) trace =
      .ok (trace ++ nodes.map fun node => .setupNode node.1) := by
  induction nodes generalizing trace with
  | nil => simp [pure, Except.pure]
  | cons node rest ih =>
    have step : setupNode fails nodeNum trace node = .ok (trace ++ [.setupNode node.1]) := by
      simp only [setupNode, reportProgress_ok, perform_ok succeeds, bind, Except.bind]
    rw [List.foldlM_cons, step]
    exact (ih _).trans (by simp)

theorem performs_ok (ops trace : List Op) :
    ops.foldlM (perform fails) trace = .ok (trace ++ ops) := by
  induction ops generalizing trace with
  | nil => simp [pure, Except.pure]
  | cons op rest ih =>
    rw [List.foldlM_cons, perform_ok succeeds]
    exact (ih _).trans (by simp)

omit succeeds in
theorem linkPerBackBoneNs_pos {g : Graph} {backBoneNum : Nat} (some_bbns : 0 < backBoneNum)
    (some_link : 0 < g.getEdgeNum) : 0 < linkPerBackBoneNs g backBoneNum :=
  Nat.div_pos (by omega) some_bbns

def setUpOps (nodeOrder : List Int) (backBoneNum : Nat) : List Op :=
  nodeOrder.map Op.setupNode ++ List.replicate backBoneNum Op.setupBbNs

omit succeeds in
theorem setUpOps_view (nodeOrder : List Int) (backBoneNum : Nat) :
    linkPlacements (setUpOps nodeOrder backBoneNum) = [] := by
  have quiet (ops : List Op) (other : ∀ op ∈ ops, observe (none, []) op = (none, [])) :
      ops.foldl observe (none, []) = (none, []) := by
    induction ops with
    | nil => rfl
    | cons op rest ih =>
      rw [List.foldl_cons, other op (by simp)]
      exact ih fun op member => other op (List.mem_cons_of_mem _ member)
  rw [linkPlacements, quiet]
  intro op member
  cases List.mem_append.mp member with
  | inl node =>
    obtain ⟨id, -, rfl⟩ := List.mem_map.mp node
    rfl
  | inr bbns =>
    rw [List.eq_of_mem_replicate bbns]
    rfl

theorem networkSetup_placed (g : Graph) {nodeOrder : List Int}
    {edgeOrder : List (List PlannedLink)} {backBoneNum : Nat} (some_bbns : 0 < backBoneNum)
    (enough : nodeOrder.length ≤ edgeOrder.length)
    (bounded : (edgeOrder.take nodeOrder.length).flatten.length ≤ g.getEdgeNum) :
    ∃ trace, networkSetup fails g nodeOrder edgeOrder backBoneNum = .ok trace ∧
      Placed (linkPerBackBoneNs g backBoneNum) (stepStart (edgeOrder.take nodeOrder.length))
        (edgeOrder.take nodeOrder.length).flatten (setUpOps nodeOrder backBoneNum) trace := by
  let steps := edgeOrder.take nodeOrder.length
  have positive (some_link : steps.flatten ≠ []) : 0 < linkPerBackBoneNs g backBoneNum := by
    have count := List.length_pos_iff.mpr some_link
    exact linkPerBackBoneNs_pos some_bbns (lt_of_lt_of_le count bounded)
  let begun : LinkState := ⟨setUpOps nodeOrder backBoneNum, 0, 0⟩
  have start : Placed (linkPerBackBoneNs g backBoneNum) (stepStart steps) [].flatten
      (setUpOps nodeOrder backBoneNum) begun.trace := by
    exact ⟨⟨[], by simp [begun], by simp⟩, setUpOps_view nodeOrder backBoneNum, by simp⟩
  obtain ⟨st, run, placed⟩ := setupSteps_placed succeeds g.getEdgeNum positive [] steps rfl
    start rfl
  refine ⟨st.trace, ?_, placed⟩
  have nodes : nodeOrder.zipIdx.map (fun node => Op.setupNode node.1) =
      nodeOrder.map Op.setupNode := by
    rw [← List.zipIdx_map_fst 0 nodeOrder, List.map_map]
    simp
  rw [networkSetup, if_neg (Nat.ne_of_gt some_bbns), setupNodes_ok succeeds]
  simp only [bind, Except.bind, performs_ok succeeds, List.nil_append, nodes,
    setupStep_range fails _ _ edgeOrder enough]
  simp only [begun, setUpOps, steps] at run
  rw [run]
  rfl

end Run

section Divisions

open Monadic (bind_ne_error foldlM_ne_error)

variable {fails : Failures}

theorem perform_divides (trace : List Op) (op : Op) :
    perform fails trace op ≠ .error .divideByZero := by
  unfold perform
  split <;> simp

theorem reportProgress_divides (total i : Nat) : reportProgress total i ≠ .error .divideByZero := by
  simp [reportProgress_ok]

theorem setupEdge_divides {linkNum L : Nat} (positive : 0 < L) (st : LinkState)
    (edge : PlannedLink) : setupEdge fails linkNum L st edge ≠ .error .divideByZero := by
  have entered : enterOnDemand fails L st ≠ .error .divideByZero := by
    rw [enterOnDemand, if_neg (Nat.ne_of_gt positive)]
    split
    next => exact bind_ne_error (perform_divides _ _) (by simp [pure, Except.pure])
    next => simp
  apply bind_ne_error entered
  intro next
  apply bind_ne_error (reportProgress_divides _ _)
  intro _
  exact bind_ne_error (perform_divides _ _) (by simp [pure, Except.pure])

theorem setupStep_divides {linkNum L : Nat} {edgeOrder : List (List PlannedLink)} {i : Nat}
    (positive : ∀ edges, edgeOrder[i]? = some edges → edges ≠ [] → 0 < L) (st : LinkState) :
    setupStep fails linkNum L edgeOrder st i ≠ .error .divideByZero := by
  unfold setupStep
  split
  next => simp
  next edges found =>
    apply foldlM_ne_error
    intro st edge member
    exact setupEdge_divides (positive edges found (List.ne_nil_of_mem member)) st edge

theorem networkSetup_divides (g : Graph) {nodeOrder : List Int}
    {edgeOrder : List (List PlannedLink)} {backBoneNum : Nat} (some_bbns : 0 < backBoneNum)
    (bounded : (edgeOrder.take nodeOrder.length).flatten.length ≤ g.getEdgeNum) :
    networkSetup fails g nodeOrder edgeOrder backBoneNum ≠ .error .divideByZero := by
  rw [networkSetup, if_neg (Nat.ne_of_gt some_bbns)]
  apply bind_ne_error
  · apply foldlM_ne_error
    intro trace node _
    exact bind_ne_error (reportProgress_divides _ _) fun _ => perform_divides _ _
  · intro trace
    apply bind_ne_error (foldlM_ne_error (fun trace op _ => perform_divides trace op) trace)
    intro trace
    refine bind_ne_error (foldlM_ne_error ?_ _) (by simp [pure, Except.pure])
    intro st i member
    apply setupStep_divides
    intro edges found nonempty
    -- A link of the plan is a link of the graph, so each namespace gets at least one.
    have taken : edges ∈ edgeOrder.take nodeOrder.length :=
      List.mem_of_getElem? ((List.getElem?_take_of_lt (List.mem_range.mp member)).trans found)
    have ⟨edge, listed⟩ := List.exists_mem_of_ne_nil edges nonempty
    have some_link := List.length_pos_of_mem (List.mem_flatten.mpr ⟨edges, taken, listed⟩)
    exact linkPerBackBoneNs_pos some_bbns (lt_of_lt_of_le some_link bounded)

end Divisions

section Spared

open Monadic (bind_eq_ok)

variable {σ α : Type} {fails free : Failures}

-- No operation of the trace fails where it stands.
def Spared (fails : Failures) (trace : List Op) : Prop :=
  ∀ before op after, trace = before ++ op :: after → fails before op = false

theorem Spared.initial {trace next : List Op} (spared : Spared fails next)
    (grown : trace <+: next) : Spared fails trace := by
  obtain ⟨rest, rfl⟩ := grown
  rintro before op after rfl
  exact spared before op (after ++ rest) (by simp)

/-- What one step does is done again where the operations of its trace do not fail. -/
def Repeats (fails : Failures) (trace : σ → List Op)
    (first again : σ → α → Except SetupError σ) : Prop :=
  ∀ st x next, first st x = .ok next →
    trace st <+: trace next ∧ (Spared fails (trace next) → again st x = .ok next)

theorem Repeats.foldlM {trace : σ → List Op} {first again : σ → α → Except SetupError σ}
    (each : Repeats fails trace first again) :
    Repeats fails trace (fun st (xs : List α) => xs.foldlM first st)
      (fun st (xs : List α) => xs.foldlM again st) := by
  intro st xs last run
  dsimp only at run ⊢
  induction xs generalizing st with
  | nil =>
    cases run
    exact ⟨List.prefix_rfl, fun _ => rfl⟩
  | cons x rest ih =>
    rw [List.foldlM_cons] at run
    obtain ⟨next, step, later⟩ := bind_eq_ok.mp run
    obtain ⟨grown, repeated⟩ := each st x next step
    obtain ⟨grown', repeated'⟩ := ih next later
    refine ⟨grown.trans grown', fun spared => ?_⟩
    rw [List.foldlM_cons, repeated (spared.initial grown')]
    exact repeated' spared

end Spared

section Results

/-- Nodes and namespaces come first, then every link once, each in a namespace of the range. -/
structure SetsUpOnce (nodeOrder : List Int) (edgeOrder : List (List PlannedLink))
    (backBoneNum : Nat) (trace : List Op) : Prop where
  nodesFirst : ∃ rest, trace = setUpOps nodeOrder backBoneNum ++ rest ∧
    ∀ op ∈ rest, (∃ i < backBoneNum, op = .enterBbNs i) ∨ ∃ edge, op = .setupLink edge
  links : (linkPlacements trace).map Prod.snd = (edgeOrder.take nodeOrder.length).flatten
  entered : ∀ placement ∈ linkPlacements trace, ∃ i < backBoneNum, placement.1 = some i

structure FillsInOrder (edgeNum L : Nat) (trace : List Op) : Prop where
  placed : ∀ j k, ((linkPlacements trace)[k]?).map Prod.fst = some (some j) ↔
    j * L ≤ k ∧ k < min ((j + 1) * L) edgeNum
  used : ∀ i, .enterBbNs i ∈ trace → i < (edgeNum + L - 1) / L

theorem getEdgeNum_le (g : Graph) {backBoneNum : Nat} (some_bbns : 0 < backBoneNum) :
    g.getEdgeNum ≤ backBoneNum * linkPerBackBoneNs g backBoneNum := by
  have whole := Nat.div_add_mod (g.getEdgeNum + backBoneNum - 1) backBoneNum
  have rest := Nat.mod_lt (g.getEdgeNum + backBoneNum - 1) some_bbns
  rw [linkPerBackBoneNs]
  omega

theorem bbnsOf_lt (g : Graph) {backBoneNum : Nat} (some_bbns : 0 < backBoneNum) {k : Nat}
    (bound : k < g.getEdgeNum) (starts : Nat → Nat) :
    bbnsOf (linkPerBackBoneNs g backBoneNum) starts k < backBoneNum := by
  have share : k / linkPerBackBoneNs g backBoneNum < backBoneNum :=
    Nat.div_lt_of_lt_mul (lt_of_lt_of_le bound (by
      rw [Nat.mul_comm]
      exact getEdgeNum_le g some_bbns))
  exact lt_of_le_of_lt (Nat.sub_le _ _) share

theorem setUpOps_no_enter {nodeOrder : List Int} {backBoneNum i : Nat} :
    .enterBbNs i ∉ setUpOps nodeOrder backBoneNum := by
  simp [setUpOps]

theorem Placed.getElem? {L : Nat} {starts : Nat → Nat} {edges : List PlannedLink}
    {setUp trace : List Op} (placed : Placed L starts edges setUp trace) (k : Nat) :
    (linkPlacements trace)[k]? = (edges[k]?).map fun edge => (some (bbnsOf L starts k), edge) := by
  rw [placed.links]
  simp [List.getElem?_zipIdx, Function.comp_def]

theorem Placed.fillsInOrder {L : Nat} {starts : Nat → Nat} {edges : List PlannedLink}
    {nodeOrder : List Int} {backBoneNum : Nat} {trace : List Op}
    (placed : Placed L starts edges (setUpOps nodeOrder backBoneNum) trace) (positive : 0 < L)
    (direct : ∀ k < edges.length, bbnsOf L starts k = k / L) :
    FillsInOrder edges.length L trace := by
  constructor
  case placed =>
    intro j k
    rw [placed.getElem?, Option.map_map]
    by_cases bound : k < edges.length
    next =>
      rw [List.getElem?_eq_getElem bound, Option.map_some]
      simp only [Function.comp, Option.some.injEq, direct k bound, lt_min_iff, bound, and_true]
      rw [Nat.div_eq_iff positive, Nat.succ_mul]
      omega
    next =>
      rw [List.getElem?_eq_none (by omega)]
      simp [bound]
  case used =>
    intro i member
    obtain ⟨rest, traced, allowed⟩ := placed.grown
    rw [traced] at member
    have entered : .enterBbNs i ∈ rest :=
      (List.mem_append.mp member).resolve_left setUpOps_no_enter
    cases allowed _ entered with
    | inl enter =>
      obtain ⟨k, bound, same⟩ := enter
      obtain rfl := Op.enterBbNs.inj same
      have last : entersBefore L (k + 1) ≤ entersBefore L edges.length := entersBefore_mono bound
      rw [entersBefore_succ positive] at last
      rw [direct k bound]
      exact last
    | inr link =>
      obtain ⟨edge, same⟩ := link
      cases same

/-- A sequential set-up stays in the range of its namespaces and sets every link up once. -/
theorem networkSetup_setsUpOnce {fails : Failures} (succeeds : ∀ trace op, fails trace op = false)
    (g : Graph) {nodeOrder : List Int} {edgeOrder : List (List PlannedLink)} {backBoneNum : Nat}
    (some_bbns : 0 < backBoneNum) (enough : nodeOrder.length ≤ edgeOrder.length)
    (bounded : (edgeOrder.take nodeOrder.length).flatten.length ≤ g.getEdgeNum) :
    ∃ trace, networkSetup fails g nodeOrder edgeOrder backBoneNum = .ok trace ∧
      SetsUpOnce nodeOrder edgeOrder backBoneNum trace ∧
      ∀ before links after, edgeOrder.take nodeOrder.length = before ++ links :: after →
        before.flatten = [] → after.flatten = [] → links.length = g.getEdgeNum →
        0 < g.getEdgeNum →
        FillsInOrder g.getEdgeNum (linkPerBackBoneNs g backBoneNum) trace := by
  obtain ⟨trace, run, placed⟩ := networkSetup_placed succeeds g some_bbns enough bounded
  have inRange (k : Nat) (bound : k < (edgeOrder.take nodeOrder.length).flatten.length) :
      bbnsOf (linkPerBackBoneNs g backBoneNum) (stepStart (edgeOrder.take nodeOrder.length)) k <
        backBoneNum := bbnsOf_lt g some_bbns (lt_of_lt_of_le bound bounded) _
  refine ⟨trace, run, ⟨?_, ?_, ?_⟩, ?_⟩
  · obtain ⟨rest, whole, allowed⟩ := placed.grown
    refine ⟨rest, whole, fun op member => ?_⟩
    cases allowed op member with
    | inl enter =>
      obtain ⟨k, bound, same⟩ := enter
      exact Or.inl ⟨_, inRange k bound, same⟩
    | inr link => exact Or.inr link
  · rw [placed.links, List.map_map]
    exact List.zipIdx_map_fst 0 _
  · intro placement member
    rw [placed.links] at member
    obtain ⟨⟨edge, k⟩, listed, rfl⟩ := List.mem_map.mp member
    have bound := List.snd_lt_of_mem_zipIdx listed
    exact ⟨_, inRange k (by simpa using bound), rfl⟩
  · intro before links after whole noneBefore noneAfter all some_link
    have positive := linkPerBackBoneNs_pos some_bbns some_link
    have total : (edgeOrder.take nodeOrder.length).flatten.length = g.getEdgeNum := by
      simp [whole, noneBefore, noneAfter, all]
    rw [← total]
    refine placed.fillsInOrder positive fun k _ => ?_
    have below := Nat.div_mul_le_self k (linkPerBackBoneNs g backBoneNum)
    have start := stepStart_step before after links
      (k := k / linkPerBackBoneNs g backBoneNum * linkPerBackBoneNs g backBoneNum)
      (by simp [noneBefore]) (by simp only [noneBefore, List.length_nil, total] at *; omega)
    rw [bbnsOf, whole, start, noneBefore, List.length_nil, entersBefore_zero positive,
      Nat.sub_zero]

def noFailure : Failures := fun _ _ => false

def sampleLinks : List PlannedLink :=
  [(1, 2, -1, -1), (1, 2, -1, -1), (2, 3, -1, -1), (2, 7, 1, 4097)]

theorem networkSetup_setsUpOnce_sample :
    ∃ trace, networkSetup noFailure sampleGraph [1, 2, 3] [[], [], sampleLinks] 2 = .ok trace ∧
      SetsUpOnce [1, 2, 3] [[], [], sampleLinks] 2 trace ∧
      FillsInOrder sampleGraph.getEdgeNum (linkPerBackBoneNs sampleGraph 2) trace := by
  have steps : ([1, 2, 3] : List Int).length ≤ [[], [], sampleLinks].length := by decide
  obtain ⟨trace, run, once, fills⟩ := networkSetup_setsUpOnce
    (fun _ _ => rfl : ∀ trace op, noFailure trace op = false) sampleGraph
    (show 0 < 2 by decide) steps (by decide)
  exact ⟨trace, run, once, fills [[], []] sampleLinks [] rfl rfl rfl (by decide) (by decide)⟩

end Results

end SplitNN.Agent
