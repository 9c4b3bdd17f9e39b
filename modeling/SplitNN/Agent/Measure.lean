import Mathlib

set_option autoImplicit false

namespace SplitNN.Agent

-- The calls of a measurement to the node manager, the link manager and the kernel.
inductive MeasureOp where
  | initNodes
  | initLinks
  | getNetns
  | setNetns
  | setupNode (nodeId : Int)
  | cleanNode (nodeId : Int)
  | setupBbNs
  | enterBbNs (bbnsIndex : Int)
  | setupLink (nodeIdI nodeIdJ serverIdI serverIdJ : Int)
  | cleanAllLinks
  | cleanAllBbNs
  | syncNtlk (serverId : Int)
  | deleteLinks
  | deleteNodes
  deriving DecidableEq

inductive MeasureError where
  | failed (op : MeasureOp)
  | divideByZero
  | negativeLength
  deriving DecidableEq

abbrev MeasureFailures := List MeasureOp → MeasureOp → Bool

-- An operation whose error is returned; those whose error is ignored are only appended.
def attempt (fails : MeasureFailures) (trace : List MeasureOp) (op : MeasureOp) :
    Except MeasureError (List MeasureOp) :=
  if fails trace op then .error (.failed op) else .ok (trace ++ [op])

def attemptAll (fails : MeasureFailures) (trace ops : List MeasureOp) :
    Except MeasureError (List MeasureOp) :=
  ops.foldlM (attempt fails) trace

-- `for i := 0; i < n; i += 1`
def counted (n : Int) : List Int := (List.range n.toNat).map Int.ofNat

-- `int(maxSample / (sampleNum - 1))`
def sampleStep (sampleNum maxSample : Int) : Except MeasureError Int :=
  if sampleNum - 1 = 0 then .error .divideByZero else .ok (maxSample.tdiv (sampleNum - 1))

-- "Prepare p nodes for test i if needed"
def prepareNodes (fails : MeasureFailures) (sampleStep : Int) (st : List MeasureOp × Int)
    (i : Int) : Except MeasureError (List MeasureOp × Int) :=
  let (trace, p) := st
  if 0 < i then do
    let trace ← attemptAll fails trace ((counted sampleStep).map fun j => .setupNode (p + j + 2))
    return (trace, p + sampleStep)
  else .ok st

def nodeSample (fails : MeasureFailures) (sampleStep linkNum : Int)
    (st : List MeasureOp × Int) (i : Int) : Except MeasureError (List MeasureOp × Int) := do
  let (trace, p) ← prepareNodes fails sampleStep st i
  let trace ← attempt fails trace (.enterBbNs 0)
  let trace ← attemptAll fails trace ((counted linkNum).map fun _ => .setupLink 0 1 (-1) (-1))
  return (trace ++ [.setNetns, .cleanAllLinks, .syncNtlk 0], p)

def nodeMeasure (fails : MeasureFailures) (sampleNum maxSample linkNum : Int) :
    Except MeasureError (List MeasureOp) := do
  let trace ← attempt fails [.initNodes, .initLinks] .getNetns
  let trace ← attemptAll fails trace ((counted 2).map .setupNode)
  let trace ← attempt fails trace .setupBbNs
  let step ← sampleStep sampleNum maxSample
  let (trace, p) ← (counted sampleNum).foldlM (nodeSample fails step linkNum) (trace, 0)
  -- The last loop starts at node 2 and ends before node `p + 2`.
  let trace ← attemptAll fails (trace ++ [.cleanAllBbNs, .syncNtlk 0])
    ((counted p).map fun j => .cleanNode (2 + j))
  return trace ++ [.deleteLinks, .deleteNodes]

def linkMeasure (fails : MeasureFailures) (sampleNum maxSample : Int) :
    Except MeasureError (List MeasureOp) := do
  let step ← sampleStep sampleNum maxSample
  let trace ← attempt fails [.initNodes, .initLinks] .getNetns
  let bigNodeNum := 2 * sampleNum
  let trace ← attemptAll fails trace ((counted bigNodeNum).map .setupNode)
  let trace ← attempt fails trace .setupBbNs
  let trace ← attempt fails trace (.enterBbNs 0)
  let trace ← (counted sampleNum).foldlM (fun trace i =>
    attemptAll fails trace ((counted step).map fun _ => .setupLink (i * 2) (i * 2 + 1) (-1) (-1)))
    trace
  let trace ← attemptAll fails (trace ++ [.cleanAllLinks, .setNetns, .cleanAllBbNs, .syncNtlk 0])
    ((counted bigNodeNum).map .cleanNode)
  return trace ++ [.syncNtlk 0, .deleteLinks, .deleteNodes]

-- The slice of the samples is made before the first link, and its length must not be negative.
def constMeasure (fails : MeasureFailures) (sampleNum : Int) :
    Except MeasureError (List MeasureOp) := do
  let trace := [.initNodes, .initLinks, .getNetns]
  let trace ← attemptAll fails trace ((counted 2).map .setupNode)
  let trace ← attempt fails trace .setupBbNs
  let trace ← attempt fails trace (.enterBbNs 0)
  if sampleNum < 0 then throw .negativeLength
  let trace ← (counted sampleNum).foldlM (fun trace _ =>
    attemptAll fails trace [.setupLink 0 1 (-1) (-1), .cleanAllLinks]) trace
  let trace ← attemptAll fails (trace ++ [.setNetns, .cleanAllBbNs, .syncNtlk 0])
    ((counted 2).map .cleanNode)
  return trace ++ [.syncNtlk 0, .deleteLinks, .deleteNodes]

inductive Measurement where
  | node (sampleNum maxSample linkNum : Int)
  | link (sampleNum maxSample : Int)
  | const (sampleNum : Int)
  deriving DecidableEq

namespace Measurement

def run (fails : MeasureFailures) : Measurement → Except MeasureError (List MeasureOp)
  | node sampleNum maxSample linkNum => nodeMeasure fails sampleNum maxSample linkNum
  | link sampleNum maxSample => linkMeasure fails sampleNum maxSample
  | const sampleNum => constMeasure fails sampleNum

def Admitted : Measurement → Prop
  | node sampleNum maxSample linkNum => 2 ≤ sampleNum ∧ 1 ≤ maxSample ∧ 1 ≤ linkNum
  | link sampleNum maxSample => 2 ≤ sampleNum ∧ 1 ≤ maxSample
  | const sampleNum => 2 ≤ sampleNum

def ofNodes : Measurement → Bool
  | node .. => true
  | _ => false

end Measurement

section Ids

def setupIds (trace : List MeasureOp) : List Int :=
  trace.filterMap fun | .setupNode nodeId => some nodeId | _ => none

def cleanIds (trace : List MeasureOp) : List Int :=
  trace.filterMap fun | .cleanNode nodeId => some nodeId | _ => none

/-- The nodes that were set up are different, and they are the nodes that were cleaned. -/
structure CleansUp (trace : List MeasureOp) : Prop where
  distinct : (setupIds trace).Nodup
  balanced : (setupIds trace : Multiset Int) = cleanIds trace

theorem setupIds_append (trace more : List MeasureOp) :
    setupIds (trace ++ more) = setupIds trace ++ setupIds more :=
  List.filterMap_append

theorem cleanIds_append (trace more : List MeasureOp) :
    cleanIds (trace ++ more) = cleanIds trace ++ cleanIds more :=
  List.filterMap_append

theorem ids_setupNodes (ids : List Int) (nodeId : Int → Int) :
    setupIds (ids.map fun i => .setupNode (nodeId i)) = ids.map nodeId ∧
      cleanIds (ids.map fun i => .setupNode (nodeId i)) = [] := by
  induction ids with
  | nil => exact ⟨rfl, rfl⟩
  | cons i rest ih =>
    simp_all [setupIds, cleanIds]

theorem ids_cleanNodes (ids : List Int) (nodeId : Int → Int) :
    setupIds (ids.map fun i => .cleanNode (nodeId i)) = [] ∧
      cleanIds (ids.map fun i => .cleanNode (nodeId i)) = ids.map nodeId := by
  induction ids with
  | nil => exact ⟨rfl, rfl⟩
  | cons i rest ih =>
    simp_all [setupIds, cleanIds]

def Neutral (ops : List MeasureOp) : Prop := setupIds ops = [] ∧ cleanIds ops = []

end Ids

section Run

def neverFails : MeasureFailures := fun _ _ => false

theorem attempt_ok (trace : List MeasureOp) (op : MeasureOp) :
    attempt neverFails trace op = .ok (trace ++ [op]) := rfl

theorem attemptAll_ok (trace ops : List MeasureOp) :
    attemptAll neverFails trace ops = .ok (trace ++ ops) := by
  induction ops generalizing trace with
  | nil => simp [attemptAll, pure, Except.pure]
  | cons op rest ih =>
    rw [attemptAll, List.foldlM_cons, attempt_ok]
    change attemptAll neverFails (trace ++ [op]) rest = _
    rw [ih, List.append_assoc, List.singleton_append]

theorem counted_append {m n : Int} (left : 0 ≤ m) (right : 0 ≤ n) :
    counted (m + n) = counted m ++ (counted n).map fun i => m + i := by
  have total : (m + n).toNat = m.toNat + n.toNat := Int.toNat_add left right
  rw [counted, total, List.range_add, List.map_append, List.map_map]
  congr 1
  rw [counted, List.map_map]
  refine List.map_congr_left fun i _ => ?_
  simp only [Function.comp_apply, Int.ofNat_eq_natCast, Nat.cast_add, Int.toNat_of_nonneg left]

theorem counted_nodup (n : Int) : (counted n).Nodup :=
  List.nodup_range.map fun _ _ same => Int.ofNat.inj same

theorem neutral_map {ops : Int → MeasureOp} (each : ∀ i, Neutral [ops i]) (ids : List Int) :
    Neutral (ids.map ops) := by
  induction ids with
  | nil => exact ⟨rfl, rfl⟩
  | cons i rest ih =>
    have split : (i :: rest).map ops = [ops i] ++ rest.map ops := rfl
    rw [split]
    constructor
    · rw [setupIds_append, (each i).1, ih.1, List.nil_append]
    · rw [cleanIds_append, (each i).2, ih.2, List.nil_append]

theorem neutral_flatMap {ops : Int → List MeasureOp} (each : ∀ i, Neutral (ops i))
    (ids : List Int) : Neutral (ids.flatMap ops) := by
  induction ids with
  | nil => exact ⟨rfl, rfl⟩
  | cons i rest ih =>
    rw [List.flatMap_cons]
    constructor
    · rw [setupIds_append, (each i).1, ih.1, List.nil_append]
    · rw [cleanIds_append, (each i).2, ih.2, List.nil_append]

theorem foldlM_attemptAll (ops : Int → List MeasureOp) (ids : List Int) (trace : List MeasureOp) :
    ids.foldlM (fun trace i => attemptAll neverFails trace (ops i)) trace =
      .ok (trace ++ ids.flatMap ops) := by
  induction ids generalizing trace with
  | nil => simp [pure, Except.pure]
  | cons i rest ih =>
    rw [List.foldlM_cons, attemptAll_ok]
    change rest.foldlM _ (trace ++ ops i) = _
    rw [ih, List.append_assoc, List.flatMap_cons]

end Run

section NodeMeasure

structure Prepared (trace : List MeasureOp) (p : Int) : Prop where
  forward : 0 ≤ p
  setup : setupIds trace = counted (2 + p)
  clean : cleanIds trace = []

theorem Prepared.append {trace ops : List MeasureOp} {p : Int} (prepared : Prepared trace p)
    (neutral : Neutral ops) : Prepared (trace ++ ops) p where
  forward := prepared.forward
  setup := by rw [setupIds_append, neutral.1, List.append_nil, prepared.setup]
  clean := by rw [cleanIds_append, neutral.2, List.append_nil, prepared.clean]

theorem prepareNodes_ok {step : Int} (forward : 0 ≤ step) {trace : List MeasureOp} {p : Int}
    (prepared : Prepared trace p) (i : Int) : ∃ trace' p',
    prepareNodes neverFails step (trace, p) i = .ok (trace', p') ∧ Prepared trace' p' := by
  by_cases later : 0 < i
  next =>
    have ⟨setup, clean⟩ := ids_setupNodes (counted step) fun j => p + j + 2
    refine ⟨trace ++ (counted step).map fun j => MeasureOp.setupNode (p + j + 2), p + step, ?_, ?_⟩
    · simp only [prepareNodes, later, if_true, attemptAll_ok]
      rfl
    · constructor
      case forward => exact add_nonneg prepared.forward forward
      case setup =>
        have places : (counted step).map (fun j => p + j + 2) =
            (counted step).map fun j => 2 + p + j :=
          List.map_congr_left fun j _ => by ring
        rw [setupIds_append, setup, prepared.setup, places, ← add_assoc,
          counted_append (add_nonneg (by decide) prepared.forward) forward]
      case clean => rw [cleanIds_append, clean, prepared.clean, List.nil_append]
  next => exact ⟨trace, p, by simp [prepareNodes, later], prepared⟩

theorem nodeSample_ok {step linkNum : Int} (forward : 0 ≤ step) {trace : List MeasureOp} {p : Int}
    (prepared : Prepared trace p) (i : Int) : ∃ trace' p',
    nodeSample neverFails step linkNum (trace, p) i = .ok (trace', p') ∧ Prepared trace' p' := by
  have ⟨trace', p', run, prepared'⟩ := prepareNodes_ok forward prepared i
  have enter : Neutral [MeasureOp.enterBbNs 0] := ⟨rfl, rfl⟩
  have links : Neutral ((counted linkNum).map fun _ => .setupLink 0 1 (-1) (-1)) :=
    neutral_map (fun _ => ⟨rfl, rfl⟩) _
  have clean : Neutral [MeasureOp.setNetns, .cleanAllLinks, .syncNtlk 0] := ⟨rfl, rfl⟩
  refine ⟨_, p', ?_, ((prepared'.append enter).append links).append clean⟩
  simp only [nodeSample, run, attempt_ok, attemptAll_ok, bind, Except.bind, pure, Except.pure]

theorem nodeSamples_ok {step linkNum : Int} (forward : 0 ≤ step) (rounds : List Int)
    {trace : List MeasureOp} {p : Int} (prepared : Prepared trace p) : ∃ trace' p',
    rounds.foldlM (nodeSample neverFails step linkNum) (trace, p) = .ok (trace', p') ∧
      Prepared trace' p' := by
  induction rounds generalizing trace p with
  | nil => exact ⟨trace, p, rfl, prepared⟩
  | cons i rest ih =>
    have ⟨next, nextP, first, kept⟩ := @nodeSample_ok step linkNum forward trace p prepared i
    have ⟨last, lastP, later, prepared'⟩ := ih kept
    exact ⟨last, lastP, by rw [List.foldlM_cons, first]; exact later, prepared'⟩

theorem sampleStep_ok {sampleNum maxSample : Int} (several : 2 ≤ sampleNum)
    (positive : 1 ≤ maxSample) :
    ∃ step, 0 ≤ step ∧ sampleStep sampleNum maxSample = .ok step := by
  refine ⟨maxSample.tdiv (sampleNum - 1), Int.tdiv_nonneg (by omega) (by omega), ?_⟩
  rw [sampleStep, if_neg (by omega)]

theorem nodeMeasure_leaks {sampleNum maxSample linkNum : Int} (several : 2 ≤ sampleNum)
    (positive : 1 ≤ maxSample) : ∃ trace,
    nodeMeasure neverFails sampleNum maxSample linkNum = .ok trace ∧
      (setupIds trace).Nodup ∧ setupIds trace = 0 :: 1 :: cleanIds trace := by
  have ⟨step, forward, divided⟩ := sampleStep_ok several positive
  have start : Prepared ([MeasureOp.initNodes, .initLinks] ++ [MeasureOp.getNetns] ++
    (counted 2).map MeasureOp.setupNode ++ [MeasureOp.setupBbNs]) 0 :=
    ⟨le_refl 0, by decide, by decide⟩
  have ⟨trace, p, run, prepared⟩ :=
    @nodeSamples_ok step linkNum forward (counted sampleNum) _ _ start
  have ⟨cleanSetup, cleaned⟩ := ids_cleanNodes (counted p) fun j => 2 + j
  refine ⟨trace ++ [MeasureOp.cleanAllBbNs, .syncNtlk 0] ++
    ((counted p).map fun j => MeasureOp.cleanNode (2 + j)) ++
    [MeasureOp.deleteLinks, .deleteNodes], ?_, ?_, ?_⟩
  · simp only [nodeMeasure, attempt_ok, attemptAll_ok, divided, bind, Except.bind, pure,
      Except.pure, run]
  · rw [setupIds_append, setupIds_append, setupIds_append, cleanSetup, prepared.setup]
    simpa [setupIds] using counted_nodup (2 + p)
  · have two : counted 2 = [0, 1] := by decide
    rw [setupIds_append, setupIds_append, setupIds_append, cleanSetup, prepared.setup,
      cleanIds_append, cleanIds_append, cleanIds_append, cleaned, prepared.clean,
      counted_append (by decide) prepared.forward, two]
    simp [setupIds, cleanIds]

end NodeMeasure

section CleanUp

theorem CleansUp.of_counted {trace : List MeasureOp} {n : Int} (setup : setupIds trace = counted n)
    (clean : cleanIds trace = counted n) : CleansUp trace where
  distinct := setup ▸ counted_nodup n
  balanced := by rw [setup, clean]

theorem ids_counted (n : Int) :
    setupIds ((counted n).map MeasureOp.setupNode) = counted n ∧
      cleanIds ((counted n).map MeasureOp.setupNode) = [] ∧
      setupIds ((counted n).map MeasureOp.cleanNode) = [] ∧
      cleanIds ((counted n).map MeasureOp.cleanNode) = counted n := by
  have ⟨setup, noClean⟩ := ids_setupNodes (counted n) id
  have ⟨noSetup, clean⟩ := ids_cleanNodes (counted n) id
  rw [List.map_id] at setup clean
  exact ⟨setup, noClean, noSetup, clean⟩

theorem linkMeasure_cleansUp {sampleNum maxSample : Int} (several : 2 ≤ sampleNum)
    (positive : 1 ≤ maxSample) : ∃ trace,
    linkMeasure neverFails sampleNum maxSample = .ok trace ∧ CleansUp trace := by
  have ⟨step, _, divided⟩ := sampleStep_ok several positive
  let links : Int → List MeasureOp := fun i =>
    (counted step).map fun _ => .setupLink (i * 2) (i * 2 + 1) (-1) (-1)
  have neutral : Neutral ((counted sampleNum).flatMap links) :=
    neutral_flatMap (fun i => neutral_map (fun _ => ⟨rfl, rfl⟩) _) _
  have ⟨setup, noClean, noSetup, clean⟩ := ids_counted (2 * sampleNum)
  have run : linkMeasure neverFails sampleNum maxSample = .ok
      ([MeasureOp.initNodes, .initLinks] ++ [MeasureOp.getNetns] ++
        (counted (2 * sampleNum)).map MeasureOp.setupNode ++ [MeasureOp.setupBbNs] ++
        [MeasureOp.enterBbNs 0] ++ (counted sampleNum).flatMap links ++
        [MeasureOp.cleanAllLinks, .setNetns, .cleanAllBbNs, .syncNtlk 0] ++
        (counted (2 * sampleNum)).map MeasureOp.cleanNode ++
        [MeasureOp.syncNtlk 0, .deleteLinks, .deleteNodes]) := by
    have samples := foldlM_attemptAll links (counted sampleNum)
    simp only [linkMeasure, attempt_ok, attemptAll_ok, divided, bind, Except.bind, pure,
      Except.pure, links] at samples ⊢
    rw [samples]
  refine ⟨_, run, CleansUp.of_counted (n := 2 * sampleNum) ?_ ?_⟩
  · simp only [setupIds_append, setup, noSetup, neutral.1]
    simp [setupIds]
  · simp only [cleanIds_append, clean, noClean, neutral.2]
    simp [cleanIds]

theorem constMeasure_cleansUp {sampleNum : Int} (several : 2 ≤ sampleNum) : ∃ trace,
    constMeasure neverFails sampleNum = .ok trace ∧ CleansUp trace := by
  let sample : Int → List MeasureOp := fun _ => [.setupLink 0 1 (-1) (-1), .cleanAllLinks]
  have neutral : Neutral ((counted sampleNum).flatMap sample) :=
    neutral_flatMap (fun _ => ⟨rfl, rfl⟩) _
  have ⟨setup, noClean, noSetup, clean⟩ := ids_counted 2
  have run : constMeasure neverFails sampleNum = .ok
      ([MeasureOp.initNodes, .initLinks, .getNetns] ++ (counted 2).map MeasureOp.setupNode ++
        [MeasureOp.setupBbNs] ++ [MeasureOp.enterBbNs 0] ++ (counted sampleNum).flatMap sample ++
        [MeasureOp.setNetns, .cleanAllBbNs, .syncNtlk 0] ++ (counted 2).map MeasureOp.cleanNode ++
        [MeasureOp.syncNtlk 0, .deleteLinks, .deleteNodes]) := by
    have samples := foldlM_attemptAll sample (counted sampleNum)
    have length : ¬ sampleNum < 0 := by omega
    simp only [constMeasure, attempt_ok, attemptAll_ok, bind, Except.bind, pure, Except.pure,
      length, if_false, sample] at samples ⊢
    rw [samples]
  refine ⟨_, run, CleansUp.of_counted (n := 2) ?_ ?_⟩
  · simp only [setupIds_append, setup, noSetup, neutral.1]
    simp [setupIds]
  · simp only [cleanIds_append, clean, noClean, neutral.2]
    simp [cleanIds]

/-- Every measurement but that of the nodes. -/
theorem measurement_cleansUp_iff {m : Measurement} (admitted : m.Admitted) :
    (∃ trace, m.run neverFails = .ok trace ∧ CleansUp trace) ↔ m.ofNodes = false := by
  cases m with
  | node sampleNum maxSample linkNum =>
    have ⟨several, positive, _⟩ := admitted
    have ⟨trace, run, _, leak⟩ := @nodeMeasure_leaks sampleNum maxSample linkNum several positive
    simp only [Measurement.run, Measurement.ofNodes, run, Bool.true_eq_false, iff_false,
      Except.ok.injEq]
    rintro ⟨_, rfl, cleansUp⟩
    have sizes := congrArg Multiset.card cleansUp.balanced
    rw [leak, Multiset.coe_card, Multiset.coe_card, List.length_cons, List.length_cons] at sizes
    omega
  | link sampleNum maxSample =>
    exact ⟨fun _ => rfl, fun _ => linkMeasure_cleansUp admitted.1 admitted.2⟩
  | const sampleNum => exact ⟨fun _ => rfl, fun _ => constMeasure_cleansUp admitted⟩

theorem measurement_cleansUp_iff_link :
    (∃ trace, (Measurement.link 3 5).run neverFails = .ok trace ∧ CleansUp trace) ↔
      (Measurement.link 3 5).ofNodes = false :=
  measurement_cleansUp_iff (m := .link 3 5) ⟨by decide, by decide⟩

-- Two samples, two nodes between them: nodes 0 and 1 stay.
theorem node_measure_leaves_two : ∃ trace,
    (Measurement.node 2 2 1).run neverFails = .ok trace ∧ setupIds trace = [0, 1, 2, 3] ∧
      cleanIds trace = [2, 3] ∧ ¬ CleansUp trace := by
  refine ⟨_, rfl, by decide, by decide, fun cleansUp => ?_⟩
  exact absurd (congrArg Multiset.card cleansUp.balanced) (by decide)

end CleanUp

end SplitNN.Agent
