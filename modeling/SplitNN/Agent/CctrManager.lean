import SplitNN.Agent.GoctrManager
import SplitNN.Agent.NetworkSetup

set_option autoImplicit false

namespace SplitNN.Agent.CctrManager

open Text GoctrManager

-- What one run of the command did: what `container_run_inner` returned, unless the command failed
-- before it wrote anything, and the text of `pid.txt` afterwards, if there is one.
structure CommandReply where
  containerRunInner : Option Int
  pidText : Option (List Char)

def containerRun (pid : Int) : Int := if pid < 0 then -1 else if pid = 0 then -1 else pid

-- What `write_pid_to_file` leaves.
def pidFileText (pid : Int) : List Char := itoa pid ++ ['\n']

def CommandReply.containerRun (reply : CommandReply) : Option Int :=
  reply.containerRunInner.map CctrManager.containerRun

def CommandReply.Started (reply : CommandReply) (pid : Int) : Prop :=
  0 < pid ∧ reply.containerRun = some pid

structure Replies where
  mkdirAll : List Char → Option (List Char)
  run : List (List Char) → CommandReply

structure System where
  files : List Char → Option (List Char)
  nodeId2Pid : Dict Int Int

section Source

variable (paths : Dirs) (volumeOptMap : Dict Int (List Char))

def runArgs (nodeId : Int) : List (List Char) :=
  let pidFileArg := "--pid-file=".toList ++ paths.pidFilePath nodeId
  match volumeOptMap.get? nodeId with
  | none => ["run".toList, paths.baseDir nodeId, nodeName nodeId, paths.imageRootfsPath, pidFileArg]
  | some volumeOpt =>
    ["run".toList, paths.baseDir nodeId, nodeName nodeId, paths.imageRootfsPath,
      "--volume=".toList ++ volumeOpt, pidFileArg]

def getNodePid (files : List Char → Option (List Char)) (nodeId : Int) : Int × Option NodeError :=
  pidOfFile (paths.pidFilePath nodeId) (files (paths.pidFilePath nodeId))

-- What `Run` of the command returns is dropped.
def setupNode (replies : Replies) (nodeId : Int) (s : System) : Option NodeError × System :=
  match replies.mkdirAll (paths.baseDir nodeId) with
  | some err => (some (.system err), s)
  | none =>
    let reply := replies.run (runArgs paths volumeOptMap nodeId)
    let files := Function.update s.files (paths.pidFilePath nodeId) reply.pidText
    match getNodePid paths files nodeId with
    | (_, some err) => (some err, { s with files })
    | (pid, none) => (none, ⟨files, s.nodeId2Pid.set nodeId pid⟩)

end Source

/-- A set-up that reports no error has recorded the pid of the container it started. -/
def ReportsStarted (paths : Dirs) (volumeOptMap : Dict Int (List Char)) (replies : Replies)
    (nodeId : Int) (s : System) : Prop :=
  (setupNode paths volumeOptMap replies nodeId s).1 = none →
    ∃ pid, (replies.run (runArgs paths volumeOptMap nodeId)).Started pid ∧
      (setupNode paths volumeOptMap replies nodeId s).2.nodeId2Pid.get? nodeId = some pid

/-- `pid.txt` is missing, or its first line is no number or the pid of the started container. -/
def CommandReply.PidFileRight (reply : CommandReply) : Prop :=
  ∀ text, reply.pidText = some text →
    ∃ line, (scan (64 * 1024) ⟨text, false⟩).1 = some line ∧
      ∀ pid, atoi line = (pid, none) → reply.Started pid

section Calls

variable {paths : Dirs} {volumeOptMap : Dict Int (List Char)} {replies : Replies} {nodeId : Int}

theorem setupNode_none {s : System} :
    (setupNode paths volumeOptMap replies nodeId s).1 = none ↔
      replies.mkdirAll (paths.baseDir nodeId) = none ∧
      ∃ text, (replies.run (runArgs paths volumeOptMap nodeId)).pidText = some text ∧
        (readPid text).2 = none := by
  unfold setupNode
  cases made : replies.mkdirAll (paths.baseDir nodeId) with
  | some err => simp
  | none =>
    cases left : (replies.run (runArgs paths volumeOptMap nodeId)).pidText with
    | none => simp [getNodePid, pidOfFile, left]
    | some text =>
      simp only [getNodePid, pidOfFile, left, Function.update_self, true_and, Option.some.injEq,
        exists_eq_left']
      split
      next found => simp [found]
      next found => simp [found]

theorem setupNode_recorded {s : System} {text : List Char} {pid : Int}
    (made : replies.mkdirAll (paths.baseDir nodeId) = none)
    (left : (replies.run (runArgs paths volumeOptMap nodeId)).pidText = some text)
    (read : readPid text = (pid, none)) :
    (setupNode paths volumeOptMap replies nodeId s).2.nodeId2Pid.get? nodeId = some pid := by
  simp [setupNode, made, getNodePid, pidOfFile, left, read]

-- An empty file is read without an error.
theorem readPid_none {text : List Char} {pid : Int} : readPid text = (pid, none) ↔
    (scan (64 * 1024) ⟨text, false⟩).1 = none ∧ pid = -1 ∨
      ∃ line, (scan (64 * 1024) ⟨text, false⟩).1 = some line ∧ atoi line = (pid, none) := by
  unfold readPid
  cases scanned : (scan (64 * 1024) ⟨text, false⟩).1 with
  | none => simp [eq_comm]
  | some line =>
    simp only [Option.some.injEq, exists_eq_left', reduceCtorEq, false_and, false_or]
    split
    next failed => simp [failed]
    next read => simp [read]

theorem CommandReply.pidFileRight_iff {reply : CommandReply} : reply.PidFileRight ↔
    ∀ text pid, reply.pidText = some text → readPid text = (pid, none) → reply.Started pid := by
  constructor
  · intro right text pid left read
    have ⟨line, scanned, started⟩ := right text left
    rcases readPid_none.mp read with ⟨none, _⟩ | ⟨line', scanned', number⟩
    · cases none.symm.trans scanned
    · cases scanned.symm.trans scanned'
      exact started pid number
  · intro started text left
    cases scanned : (scan (64 * 1024) ⟨text, false⟩).1 with
    | none =>
      have positive := (started text (-1) left (readPid_none.mpr (.inl ⟨scanned, rfl⟩))).1
      omega
    | some line =>
      exact ⟨line, rfl, fun pid number =>
        started text pid left (readPid_none.mpr (.inr ⟨line, scanned, number⟩))⟩

theorem reportsStarted_iff {s : System} : ReportsStarted paths volumeOptMap replies nodeId s ↔
    replies.mkdirAll (paths.baseDir nodeId) ≠ none ∨
      (replies.run (runArgs paths volumeOptMap nodeId)).PidFileRight := by
  constructor
  · intro reports
    by_cases made : replies.mkdirAll (paths.baseDir nodeId) = none
    next =>
      right
      rw [CommandReply.pidFileRight_iff]
      intro text pid left read
      have ⟨recorded, started, stored⟩ :=
        reports (setupNode_none.mpr ⟨made, text, left, by rw [read]⟩)
      rw [setupNode_recorded made left read, Option.some.injEq] at stored
      exact stored ▸ started
    next => exact .inl made
  · intro condition passed
    have ⟨made, text, left, noError⟩ := setupNode_none.mp passed
    have right := condition.resolve_left (not_not.mpr made)
    have read : readPid text = ((readPid text).1, none) := Prod.ext rfl noError
    exact ⟨_, CommandReply.pidFileRight_iff.mp right text _ left read,
      setupNode_recorded made left read⟩

theorem pidFileRight_written {inner : Int} (fits : inner < 2 ^ 31) :
    CommandReply.PidFileRight ⟨some inner, some (pidFileText (containerRun inner))⟩ ↔
      0 < inner := by
  have range : containerRun inner = -1 ∨ 0 < containerRun inner ∧ containerRun inner < 2 ^ 31 := by
    unfold containerRun
    split <;> [skip; split] <;> omega
  have read := readPid_pidText ⟨range, .inl rfl⟩
  rw [CommandReply.pidFileRight_iff]
  constructor
  · intro started
    have positive := (started _ _ rfl read).1
    unfold containerRun at positive
    split at positive <;> [skip; split at positive] <;> omega
  · intro positive text pid left other
    cases left
    cases read.symm.trans other
    refine ⟨?_, rfl⟩
    unfold containerRun
    split <;> [skip; split] <;> omega

end Calls

section Setup

variable (paths : Dirs) (volumeOptMap : Dict Int (List Char)) (world : Nat → Replies)

def systemAfter (start : System) (trace : List Op) : System :=
  trace.zipIdx.foldl (fun s entry => match entry.1 with
    | .setupNode nodeId => (setupNode paths volumeOptMap (world entry.2) nodeId s).2
    | _ => s) start

-- The failures of a set-up with this node manager; those of the links are given.
def nodeFailures (start : System) (links : Failures) : Failures := fun trace op =>
  match op with
  | .setupNode nodeId =>
    (setupNode paths volumeOptMap (world trace.length) nodeId
      (systemAfter paths volumeOptMap world start trace)).1.isSome
  | op => links trace op

def SetUp (nodes : List Int) : Prop :=
  ∀ k nodeId, nodes[k]? = some nodeId →
    ∀ s, (setupNode paths volumeOptMap (world k) nodeId s).1 = none

end Setup

section Runs

variable {paths : Dirs} {volumeOptMap : Dict Int (List Char)} {world : Nat → Replies}
  {start : System} {links : Failures}

theorem reportProgress_node (total i : Nat) : reportProgress total i = .ok () := by
  have fine : ¬ (0 < total / 100 ∧ i % (total / 100) = 0 ∧ total = 0) := by
    rintro ⟨large, _, rfl⟩
    simp at large
  simp only [reportProgress, if_neg fine]

theorem setupNodes_pass {before : List Int} (passed : SetUp paths volumeOptMap world before)
    (total : Nat) : before.zipIdx.foldlM
      (Agent.setupNode (nodeFailures paths volumeOptMap world start links) total) [] =
        .ok (before.map Op.setupNode) := by
  induction before using List.reverseRecOn with
  | nil => rfl
  | append_singleton earlier nodeId ih =>
    have known : SetUp paths volumeOptMap world earlier := by
      intro k other found
      have bound := (List.getElem?_eq_some_iff.mp found).1
      exact passed k other (by rw [List.getElem?_append_left bound, found])
    have last := passed earlier.length nodeId (by simp)
    rw [List.zipIdx_append, List.foldlM_append, ih known]
    simp [Agent.setupNode, reportProgress_node, perform, nodeFailures, last, bind, Except.bind,
      pure, Except.pure]

-- The set-up of the namespaces and links fails with an error of its own.
theorem perform_ne_node {fails : Failures} {trace : List Op} {op : Op} {nodeId : Int}
    (other : op ≠ .setupNode nodeId) :
    perform fails trace op ≠ .error (.failed (.setupNode nodeId)) := by
  unfold perform
  split <;> simp [other]

theorem setupStep_ne_node {fails : Failures} {linkNum perBbns : Nat}
    {edgeOrder : List (List PlannedLink)} {nodeId : Int} (st : LinkState) (i : Nat) :
    setupStep fails linkNum perBbns edgeOrder st i ≠ .error (.failed (.setupNode nodeId)) := by
  unfold setupStep
  split
  next => simp
  next edges _ =>
    apply Monadic.foldlM_ne_error
    intro st edge _
    apply Monadic.bind_ne_error
    · unfold enterOnDemand
      split
      next => simp
      next =>
        split
        next => exact Monadic.bind_ne_error (perform_ne_node nofun) fun _ => nofun
        next => simp
    · intro st
      apply Monadic.bind_ne_error
      · simp [reportProgress_node]
      · intro _
        exact Monadic.bind_ne_error (perform_ne_node nofun) fun _ => nofun

theorem networkSetup_node_error {fails : Failures} {g : Graph} {nodeOrder : List Int}
    {edgeOrder : List (List PlannedLink)} {backBoneNum : Nat} (some_bbns : 0 < backBoneNum)
    {nodeId : Int} :
    networkSetup fails g nodeOrder edgeOrder backBoneNum = .error (.failed (.setupNode nodeId)) ↔
      nodeOrder.zipIdx.foldlM (Agent.setupNode fails g.getNodeNum) [] =
        .error (.failed (.setupNode nodeId)) := by
  rw [networkSetup, if_neg (by omega)]
  cases nodes : nodeOrder.zipIdx.foldlM (Agent.setupNode fails g.getNodeNum) [] with
  | error err => simp [bind, Except.bind]
  | ok trace =>
    simp only [reduceCtorEq, iff_false]
    apply Monadic.bind_ne_error (by simp)
    intro trace
    apply Monadic.bind_ne_error
    · apply Monadic.foldlM_ne_error
      intro trace op member
      rw [List.eq_of_mem_replicate member]
      exact perform_ne_node (by simp)
    · intro trace
      apply Monadic.bind_ne_error
      · exact Monadic.foldlM_ne_error (fun st i _ => setupStep_ne_node st i) _
      · intro st
        simp [pure, Except.pure]

def StopsAt (fails : Failures) (g : Graph) (before : List Int) (nodeId : Int)
    (backBoneNum : Nat) : Prop :=
  ∀ after edgeOrder, networkSetup fails g (before ++ nodeId :: after) edgeOrder backBoneNum =
    .error (.failed (.setupNode nodeId))

theorem stopsAt_iff {g : Graph} {before : List Int} {nodeId : Int} {backBoneNum : Nat}
    (some_bbns : 0 < backBoneNum) (passed : SetUp paths volumeOptMap world before) :
    StopsAt (nodeFailures paths volumeOptMap world start links) g before nodeId backBoneNum ↔
      (setupNode paths volumeOptMap (world before.length) nodeId
        (systemAfter paths volumeOptMap world start (before.map Op.setupNode))).1 ≠ none := by
  have step : Agent.setupNode (nodeFailures paths volumeOptMap world start links) g.getNodeNum
      (before.map Op.setupNode) (nodeId, before.length) =
        if (setupNode paths volumeOptMap (world before.length) nodeId
            (systemAfter paths volumeOptMap world start (before.map Op.setupNode))).1 ≠ none then
          .error (.failed (.setupNode nodeId))
        else .ok (before.map Op.setupNode ++ [.setupNode nodeId]) := by
    simp [Agent.setupNode, reportProgress_node, perform, nodeFailures, Option.isSome_iff_ne_none,
      bind, Except.bind]
  have run (after : List Int) : (before ++ nodeId :: after).zipIdx.foldlM
      (Agent.setupNode (nodeFailures paths volumeOptMap world start links) g.getNodeNum) [] =
        Agent.setupNode (nodeFailures paths volumeOptMap world start links) g.getNodeNum
          (before.map Op.setupNode) (nodeId, before.length) >>= fun trace =>
            (after.zipIdx (before.length + 1)).foldlM (Agent.setupNode
              (nodeFailures paths volumeOptMap world start links) g.getNodeNum) trace := by
    rw [List.zipIdx_append, List.foldlM_append, setupNodes_pass passed, List.zipIdx_cons,
      Nat.zero_add]
    rfl
  simp only [StopsAt, networkSetup_node_error some_bbns, run, step]
  constructor
  · intro stops fine
    have last := stops [] []
    simp [fine, bind, Except.bind, pure, Except.pure] at last
  · intro failed after _
    rw [if_pos failed]
    rfl

end Runs

/-- What decides whether a node that did not start is noticed: by the call, by the whole set-up,
and for the pid files that the command itself writes. -/
theorem setupNode_reports_iff (paths : Dirs) (volumeOptMap : Dict Int (List Char)) :
    (∀ replies nodeId s, ReportsStarted paths volumeOptMap replies nodeId s ↔
      replies.mkdirAll (paths.baseDir nodeId) ≠ none ∨
        (replies.run (runArgs paths volumeOptMap nodeId)).PidFileRight) ∧
    (∀ world start links g before nodeId backBoneNum, 0 < backBoneNum →
      SetUp paths volumeOptMap world before →
      (∀ pid, ¬ ((world before.length).run (runArgs paths volumeOptMap nodeId)).Started pid) →
      (StopsAt (nodeFailures paths volumeOptMap world start links) g before nodeId backBoneNum ↔
        (world before.length).mkdirAll (paths.baseDir nodeId) ≠ none ∨
          ((world before.length).run (runArgs paths volumeOptMap nodeId)).PidFileRight)) ∧
    ∀ inner : Int, inner < 2 ^ 31 →
      (CommandReply.PidFileRight ⟨some inner, some (pidFileText (containerRun inner))⟩ ↔
        0 < inner) := by
  refine ⟨fun _ _ _ => reportsStarted_iff, ?_, fun _ => pidFileRight_written⟩
  intro world start links g before nodeId backBoneNum some_bbns passed unstarted
  rw [stopsAt_iff some_bbns passed, ← reportsStarted_iff]
  constructor
  · intro failed reported
    exact absurd reported failed
  · intro reports reported
    have ⟨pid, started, _⟩ := reports reported
    exact unstarted pid started

def sampleDirs : Dirs where
  nodeTmpDir := "/tmp/splitnn/nodes".toList
  imgBundle := "/opt/splitnn/bundle".toList
  nodeTmpDir_clean := by decide
  imgBundle_clean := by decide
  nodeTmpDir_noOption := ⟨'/', "tmp/splitnn/nodes".toList, rfl, by decide⟩
  imgBundle_noOption := ⟨'/', "opt/splitnn/bundle".toList, rfl, by decide⟩

-- Every container is refused, and the command writes so.
def refused : Replies := ⟨fun _ => none, fun _ => ⟨some (-1), some (pidFileText (-1))⟩⟩

-- The command dies between the opening of the pid file and the writing.
def diedEarly : Replies := ⟨fun _ => none, fun _ => ⟨none, some []⟩⟩

def freshSystem : System := ⟨fun _ => none, Dict.empty⟩

theorem setupNode_reports_iff_refused :
    (StopsAt (nodeFailures sampleDirs Dict.empty (fun _ => refused) freshSystem noFailure)
        sampleGraph [] 1 1 ↔
      refused.mkdirAll (sampleDirs.baseDir 1) ≠ none ∨
        (refused.run (runArgs sampleDirs Dict.empty 1)).PidFileRight) ∧
    (CommandReply.PidFileRight ⟨some 7, some (pidFileText (containerRun 7))⟩ ↔ (0 : Int) < 7) := by
  have ⟨_, stops, written⟩ := setupNode_reports_iff sampleDirs Dict.empty
  refine ⟨stops (fun _ => refused) freshSystem noFailure sampleGraph [] 1 1 (by decide)
    (fun k nodeId found => by simp at found) (fun pid started => ?_), written 7 (by decide)⟩
  have ⟨positive, same⟩ := started
  cases same
  revert positive
  decide

-- The set-up of a node goes through with -1, from a refused container and from an empty file.
theorem refused_reported :
    ¬ ReportsStarted sampleDirs Dict.empty refused 1 freshSystem ∧
    ¬ StopsAt (nodeFailures sampleDirs Dict.empty (fun _ => refused) freshSystem noFailure)
      sampleGraph [] 1 1 ∧
    ¬ ReportsStarted sampleDirs Dict.empty diedEarly 1 freshSystem := by
  have wrong : ¬ CommandReply.PidFileRight ⟨some (-1), some (pidFileText (-1))⟩ := by
    have written := pidFileRight_written (show (-1 : Int) < 2 ^ 31 by decide)
    exact fun right => absurd (written.mp right) (by decide)
  have reported : ¬ ReportsStarted sampleDirs Dict.empty refused 1 freshSystem := by
    rw [reportsStarted_iff]
    rintro (failed | right)
    · exact failed rfl
    · exact wrong right
  refine ⟨reported, ?_, ?_⟩
  · rw [stopsAt_iff (by decide) (fun k nodeId found => by simp at found)]
    intro failed
    exact reported fun passed => absurd passed failed
  · rw [reportsStarted_iff]
    rintro (failed | right)
    · exact failed rfl
    · have ⟨line, scanned, _⟩ := right [] rfl
      cases scanned

end SplitNN.Agent.CctrManager
