import SplitNN.Agent.Goctr
import SplitNN.Shared.Dict
import SplitNN.Shared.Transition

set_option autoImplicit false

namespace SplitNN.Agent.GoctrManager

open Text Goctr

inductive NodeError where
  | text (message : String)
  | system (message : List Char)
  | atoi (error : AtoiError)
  deriving DecidableEq

-- The directories of a manager, which `Init` and the unpacking of the image have made; the
-- system makes none whose path holds a NUL, and a tool would take a path with a dash for an option.
structure Dirs where
  nodeTmpDir : List Char
  imgBundle : List Char
  nodeTmpDir_clean : '\x00' ∉ nodeTmpDir
  imgBundle_clean : '\x00' ∉ imgBundle
  nodeTmpDir_noOption : ∃ c rest, nodeTmpDir = c :: rest ∧ c ≠ '-'
  imgBundle_noOption : ∃ c rest, imgBundle = c :: rest ∧ c ≠ '-'

-- `path.Join` of a cleaned directory and one name.
def join (dir name : List Char) : List Char := dir ++ '/' :: name

def nodeName (nodeId : Int) : List Char := "node".toList ++ itoa nodeId

namespace Dirs

variable (paths : Dirs)

def imageRootfsPath : List Char := join paths.imgBundle "rootfs".toList

def baseDir (nodeId : Int) : List Char := join paths.nodeTmpDir (nodeName nodeId)

def pidFilePath (nodeId : Int) : List Char := join (paths.baseDir nodeId) "pid.txt".toList

def runLogFilePath (nodeId : Int) : List Char := join (paths.baseDir nodeId) "run.log".toList

def killLogFilePath (nodeId : Int) : List Char := join (paths.baseDir nodeId) "kill.log".toList

end Dirs

-- With the files that the paths lead to: each node has a pid file of its own, which is no log.
structure Paths extends Dirs where
  resolve : List Char → List Char
  pidFile_apart : ∀ m n, resolve (toDirs.pidFilePath m) = resolve (toDirs.pidFilePath n) → m = n
  runLog_apart : ∀ m n, resolve (toDirs.runLogFilePath m) ≠ resolve (toDirs.pidFilePath n)
  killLog_apart : ∀ m n, resolve (toDirs.killLogFilePath m) ≠ resolve (toDirs.pidFilePath n)

def Paths.pidFile (paths : Paths) (nodeId : Int) : List Char :=
  paths.resolve (paths.pidFilePath nodeId)

structure System where
  machine : Machine
  nodeId2Pid : Dict Int Int

structure Replies where
  opens : List Char → Bool
  flushes : List Char → Nat
  containerRunInner : RunArgs → Int × List Char
  clock : List Char → Nat
  mkdirAll : List Char → Option (List Char)
  getFromPid : Int → Except (List Char) Int

def Replies.answers (replies : Replies) (paths : Paths) : Answers where
  resolve := paths.resolve
  opens := replies.opens
  flushes := replies.flushes
  containerRunInner := replies.containerRunInner
  clock := replies.clock

section Source

-- A file that holds no line gives -1 with the error of the `os.Open` that succeeded: none.
def readPid (text : List Char) : Int × Option NodeError :=
  match (scan (64 * 1024) ⟨text, false⟩).1 with
  | none => (-1, none)
  | some line =>
    match atoi line with
    | (_, some err) => (-1, some (.atoi err))
    | (pid, none) => (pid, none)

-- What both node managers make of a pid file, if there is one.
def pidOfFile (pidFilePath : List Char) (text : Option (List Char)) : Int × Option NodeError :=
  match text with
  | none => (-1, some (.system
      ("open ".toList ++ pidFilePath ++ ": no such file or directory".toList)))
  | some text => readPid text

variable (paths : Paths) (replies : Replies)

def getNodePid (machine : Machine) (nodeId : Int) : Int × Option NodeError :=
  pidOfFile (paths.pidFilePath nodeId) (machine.files (paths.pidFile nodeId))

def runArgs (nodeId : Int) : List (List Char) :=
  [paths.baseDir nodeId, nodeName nodeId, paths.imageRootfsPath,
    "--pid-file=".toList ++ paths.pidFilePath nodeId, "-v".toList,
    "--log-file=".toList ++ paths.runLogFilePath nodeId]

def setupNode (nodeId : Int) (s : System) : Option NodeError × System :=
  match replies.mkdirAll (paths.baseDir nodeId) with
  | some err => (some (.system err), s)
  | none =>
    let (pid, machine) :=
      goctrRun (replies.answers paths) ((runArgs paths nodeId).map cString) s.machine
    if pid < 0 then (some (.text s!"goctr_run for node {nodeId} failed"), { s with machine })
    else (none, ⟨machine, s.nodeId2Pid.set nodeId pid⟩)

def getNodeNetNs (nodeId : Int) (s : System) : Int × Option NodeError :=
  match s.nodeId2Pid.get? nodeId with
  | none => (0, some (.text s!"trying to get a non-exist netns (node #{nodeId})"))
  | some pid =>
    match replies.getFromPid pid with
    | .error err => (-1, some (.system err))
    | .ok nodeNetns => (nodeNetns, none)

def cleanNode (nodeId : Int) (s : System) : Option NodeError × System :=
  match getNodePid paths s.machine nodeId with
  | (_, some err) => (some err, s)
  | (pid, none) =>
    let args := [itoa pid, "-v".toList, "--log-file=".toList ++ paths.killLogFilePath nodeId]
    let (ret, machine) := goctrKill (replies.answers paths) (args.map cString) s.machine
    if ret < 0 then (some (.text s!"goctr_kill for node {nodeId} failed"), { s with machine })
    else (none, { s with machine })

-- The command goes to `goctr_kill`, not to `goctr_exec`.
def nodeExec (nodeId : Int) (args : List (List Char)) (s : System) : Option NodeError × System :=
  match getNodePid paths s.machine nodeId with
  | (_, some err) => (some err, s)
  | (pid, none) =>
    let execArgs := ["exec".toList, itoa pid] ++ args
    let (ret, machine) := goctrKill (replies.answers paths) (execArgs.map cString) s.machine
    if ret < 0 then (some (.text s!"goctr_exec for node {nodeId} failed"), { s with machine })
    else (none, { s with machine })

end Source

inductive Call where
  | setupNode (nodeId : Int)
  | nodeExec (nodeId : Int) (args : List (List Char))
  | getNodeNetNs (nodeId : Int)
  | cleanNode (nodeId : Int)

def Call.perform (paths : Paths) (replies : Replies) (s : System) :
    Call → Option NodeError × System
  | .setupNode nodeId => GoctrManager.setupNode paths replies nodeId s
  | .nodeExec nodeId args => GoctrManager.nodeExec paths replies nodeId args s
  | .getNodeNetNs nodeId => ((GoctrManager.getNodeNetNs replies nodeId s).2, s)
  | .cleanNode nodeId => GoctrManager.cleanNode paths replies nodeId s

-- The container that a node's last set-up started, and whether the node was cleaned since.
structure Container where
  pid : Int
  cleaned : Bool
  deriving DecidableEq

structure Run where
  system : System
  containers : Int → Option Container

namespace Run

variable (paths : Paths) (replies : Replies)

def afterCall (s : Run) (err : Option NodeError) (system : System) : Call → Int → Option Container
  | .setupNode nodeId =>
    if err = none then
      Function.update s.containers nodeId
        ((system.nodeId2Pid.get? nodeId).map fun pid => ⟨pid, false⟩)
    else s.containers
  | .cleanNode nodeId =>
    Function.update s.containers nodeId
      ((s.containers nodeId).map fun container => { container with cleaned := true })
  | .nodeExec _ _ => s.containers
  | .getNodeNetNs _ => s.containers

def perform (call : Call) (s : Run) : Run :=
  let (err, system) := call.perform paths replies s.system
  ⟨system, s.afterCall err system call⟩

def Running (s : Run) (nodeId pid : Int) : Prop := s.containers nodeId = some ⟨pid, false⟩

/-- A node that was not cleaned since its last set-up runs, one that was does not. -/
def OnlyCleanKills (s : Run) : Prop :=
  ∀ nodeId container, s.containers nodeId = some container →
    (container.pid ∈ s.system.machine.alive ↔ container.cleaned = false)

-- A pid that is neither in use nor known from before.
def Fresh (s : Run) (pid : Int) : Prop :=
  (0 < pid ∧ pid < 2 ^ 31) ∧ pid ∉ s.system.machine.alive ∧
    (∀ nodeId, (getNodePid paths s.system.machine nodeId).1 ≠ pid) ∧
    ∀ nodeId container, s.containers nodeId = some container → container.pid ≠ pid

def RunSucceeds (s : Run) : Call → Prop
  | .setupNode nodeId => replies.mkdirAll (paths.baseDir nodeId) = none →
    replies.opens (paths.pidFilePath nodeId) = true ∧
      s.Fresh paths (goctrRun (replies.answers paths) ((runArgs paths nodeId).map cString)
        s.system.machine).1
  | _ => True

-- The files that `goctr_kill` opens as its log when it is given a command.
def logFiles (args : List (List Char)) : List (List Char) :=
  ((args.map cString).filter (startsWith "--log-file=".toList)).map fun arg =>
    paths.resolve (arg.drop 11)

-- The call does not hand `goctr_kill` the pid of a running node, nor the pid file of one as log.
def Harmless (s : Run) : Call → Prop
  | .nodeExec nodeId args =>
    ∀ other pid, s.Running other pid → other ≠ nodeId ∧
      ((getNodePid paths s.system.machine nodeId).2 = none →
        paths.pidFile other ∉ logFiles paths args)
  | _ => True

end Run

-- What an earlier run leaves in a pid file: `goctr_run`'s pid or -1, with a newline, or what
-- `Delete` wrote over it.
def PidText (pid : Int) (text : List Char) : Prop :=
  (pid = -1 ∨ 0 < pid ∧ pid < 2 ^ 31) ∧ (text = itoa pid ++ ['\n'] ∨ text = itoa pid)

def initial (paths : Paths) (s : Run) : Prop :=
  s.system.nodeId2Pid = Dict.empty ∧ s.containers = (fun _ => none) ∧
    s.system.machine.stderr = none ∧
    ∀ nodeId text, s.system.machine.files (paths.pidFile nodeId) = some text →
      ∃ pid, PidText pid text

def runs (paths : Paths) (allowed : Run → Call → Prop) : TransitionSystem Run where
  initial := initial paths
  step s s' := ∃ call replies, allowed s call ∧ s.RunSucceeds paths replies call ∧
    s' = s.perform paths replies call

section PathFacts

variable {paths : Paths}

theorem nodeName_clean (nodeId : Int) : '\x00' ∉ nodeName nodeId := by
  intro member
  rcases List.mem_append.mp member with front | digits
  next => simp at front
  next => exact absurd (itoa_chars digits) (by decide)

theorem baseDir_clean (nodeId : Int) : '\x00' ∉ paths.baseDir nodeId := by
  simp [Dirs.baseDir, join, paths.nodeTmpDir_clean, nodeName_clean]

theorem joined_clean {nodeId : Int} {name : List Char} (clean : '\x00' ∉ name) :
    '\x00' ∉ join (paths.baseDir nodeId) name := by
  simp [join, baseDir_clean, clean]

-- The file is no node's pid file.
def Paths.Ordinary (paths : Paths) (file : List Char) : Prop :=
  ∀ nodeId, file ≠ paths.pidFile nodeId

theorem not_logOption {path : List Char} (noOption : ∃ c rest, path = c :: rest ∧ c ≠ '-')
    (rest : List Char) : startsWith "--log-file=".toList (path ++ rest) = false := by
  obtain ⟨c, more, rfl, different⟩ := noOption
  simp [startsWith, List.isPrefixOf, different.symm]

end PathFacts

section ReadPid

theorem scan_last {limit : Nat} {line : List Char} (proper : Line limit line)
    (present : line ≠ []) : (scan limit ⟨line, false⟩).1 = some line := by
  have ⟨short, oneLine, clean⟩ := proper
  have taken : line.takeWhile (fun c => decide (c ≠ '\n')) = line := by
    rw [List.takeWhile_eq_self_iff]
    intro c member
    have different : c ≠ '\n' := fun same => oneLine (same ▸ member)
    simpa using different
  have room : ¬ limit ≤ byteLength line := by omega
  simp only [scan, taken, dropCR_line clean, if_neg present, if_neg room, Bool.false_eq_true,
    if_false]

theorem readPid_pidText {pid : Int} {text : List Char} (written : PidText pid text) :
    readPid text = (pid, none) := by
  have ⟨range, shape⟩ := written
  have line : Line (64 * 1024) (itoa pid) := itoa_line range (by decide)
  have scanned : (scan (64 * 1024) ⟨text, false⟩).1 = some (itoa pid) := by
    rcases shape with rfl | rfl
    next => rw [scan_line line []]
    next => exact scan_last line (itoa_ne_nil pid)
  have number : atoi (itoa pid) = (pid, none) := by
    rcases range with rfl | ⟨positive, fits⟩
    next => rfl
    next => exact atoi_itoa positive fits
  simp only [readPid, scanned, number]

theorem dropCR_letter {c : Char} (letter : c.isAlpha = true) (rest : List Char) :
    ∃ rest', dropCR (c :: rest) = c :: rest' := by
  unfold dropCR
  split
  next last =>
    cases rest with
    | nil =>
      have same : c = '\r' := by simpa using last
      subst same
      simp at letter
    | cons next more => exact ⟨(next :: more).dropLast, rfl⟩
  next => exact ⟨rest, rfl⟩

theorem readPid_logText {text : List Char} (log : LogText text) : (readPid text).1 = -1 := by
  rcases log with rfl | ⟨c, rest, rfl, letter⟩
  next => rfl
  next =>
    have sameLine : c ≠ '\n' := by rintro rfl; simp at letter
    have ⟨rest', cut⟩ := dropCR_letter letter (rest.takeWhile fun c => decide (c ≠ '\n'))
    have line : (c :: rest).takeWhile (fun c => decide (c ≠ '\n')) =
        c :: rest.takeWhile fun c => decide (c ≠ '\n') := by
      rw [List.takeWhile_cons_of_pos (by simpa using sameLine)]
    have number := atoi_letter letter rest'
    simp only [readPid, scan, line, cut, List.cons_ne_nil, if_false, Bool.false_eq_true]
    split
    next => rfl
    next line' found =>
      split at found
      next => cases found
      next =>
        have same := Option.some.inj found
        rw [← same, number]

end ReadPid

section Invariant

variable {paths : Paths} {s : Run} {targets : List Char → Prop} {m m' : Machine}

theorem getNodePid_file {nodeId : Int} {text : List Char}
    (found : m.files (paths.pidFile nodeId) = some text) :
    getNodePid paths m nodeId = readPid text := by
  rw [getNodePid, found, pidOfFile]

theorem getNodePid_hasLog {nodeId : Int} (log : m.HasLog (paths.pidFile nodeId)) :
    (getNodePid paths m nodeId).1 = -1 := by
  have ⟨text, found, isLog⟩ := log
  rw [getNodePid_file found, readPid_logText isLog]

theorem getNodePid_logged (logged : Logged targets m m') {nodeId : Int}
    (stderr : m.StderrLogs (paths.pidFile nodeId)) :
    (getNodePid paths m' nodeId).1 = (getNodePid paths m nodeId).1 ∨
      (getNodePid paths m' nodeId).1 = -1 := by
  rcases logged.files _ stderr with same | ⟨log, _⟩
  next => exact .inl (by rw [getNodePid, getNodePid, same])
  next => exact .inr (getNodePid_hasLog log)

structure Invariant (paths : Paths) (s : Run) : Prop where
  pidFiles : ∀ nodeId text, s.system.machine.files (paths.pidFile nodeId) = some text →
    (∃ pid, PidText pid text) ∨ LogText text
  stderr : ∀ nodeId, s.system.machine.StderrLogs (paths.pidFile nodeId)
  running : ∀ nodeId pid, s.Running nodeId pid → pid ∈ s.system.machine.alive ∧
    ∃ text, s.system.machine.files (paths.pidFile nodeId) = some text ∧ PidText pid text
  cleaned : ∀ nodeId pid, s.containers nodeId = some ⟨pid, true⟩ → pid ∉ s.system.machine.alive
  apart : ∀ nodeId pid other, s.Running nodeId pid → other ≠ nodeId →
    (getNodePid paths s.system.machine other).1 ≠ pid

theorem Invariant.onlyCleanKills (inv : Invariant paths s) : s.OnlyCleanKills := by
  intro nodeId container started
  have ⟨pid, cleaned⟩ := container
  cases cleaned with
  | false => simpa using (inv.running nodeId pid started).1
  | true => simpa using inv.cleaned nodeId pid started

theorem Invariant.positive (inv : Invariant paths s) {nodeId pid : Int}
    (running : s.Running nodeId pid) : 0 < pid :=
  s.system.machine.alive_pos pid (inv.running nodeId pid running).1

theorem Invariant.named (inv : Invariant paths s) {nodeId pid : Int}
    (running : s.Running nodeId pid) : getNodePid paths s.system.machine nodeId = (pid, none) := by
  have ⟨_, text, found, written⟩ := inv.running nodeId pid running
  rw [getNodePid_file found, readPid_pidText written]

theorem Invariant.cAtoi_named (inv : Invariant paths s) (nodeId : Int) :
    cAtoi (itoa (getNodePid paths s.system.machine nodeId).1) =
        (getNodePid paths s.system.machine nodeId).1 ∧
      (getNodePid paths s.system.machine nodeId).1 ≠ 0 := by
  have minus : cAtoi (itoa (-1)) = -1 ∧ (-1 : Int) ≠ 0 := by decide
  cases found : s.system.machine.files (paths.pidFile nodeId) with
  | none => simpa only [getNodePid, pidOfFile, found] using minus
  | some text =>
    rw [getNodePid_file found]
    rcases inv.pidFiles nodeId text found with ⟨pid, written⟩ | log
    next =>
      rw [readPid_pidText written]
      rcases written.1 with rfl | ⟨positive, fits⟩
      next => exact minus
      next => exact ⟨cAtoi_itoa positive fits, positive.ne'⟩
    next => simpa only [readPid_logText log] using minus

theorem Invariant.logged (inv : Invariant paths s) {x : Int}
    (logged : Logged targets (s.system.machine.kill x) m') (nodeId2Pid : Dict Int Int)
    {containers : Int → Option Container}
    (kept : ∀ nodeId pid, containers nodeId = some ⟨pid, false⟩ →
      s.Running nodeId pid ∧ pid ≠ x ∧ ¬ targets (paths.pidFile nodeId))
    (dead : ∀ nodeId pid, containers nodeId = some ⟨pid, true⟩ →
      s.containers nodeId = some ⟨pid, true⟩ ∨ pid = x) :
    Invariant paths ⟨⟨m', nodeId2Pid⟩, containers⟩ where
  pidFiles := by
    intro nodeId text found
    rcases logged.files _ (inv.stderr nodeId) with same | ⟨⟨log, logged, isLog⟩, _⟩
    next => exact inv.pidFiles nodeId text (same.symm.trans found)
    next => exact .inr (Option.some.inj (logged.symm.trans found) ▸ isLog)
  stderr := fun nodeId => logged.stderr _ (inv.stderr nodeId)
  running := by
    intro nodeId pid running
    have ⟨before, other, untouched⟩ := kept nodeId pid running
    have ⟨alive, text, found, written⟩ := inv.running nodeId pid before
    refine ⟨?_, text, ?_, written⟩
    next =>
      show pid ∈ m'.alive
      simp [logged.alive, Machine.kill, alive, other]
    next =>
      rcases logged.files _ (inv.stderr nodeId) with same | ⟨_, target | ⟨log, logged, isLog⟩⟩
      next => exact same.trans found
      next => exact absurd target untouched
      next =>
        have sameText : log = text := Option.some.inj (logged.symm.trans found)
        have read := readPid_logText isLog
        rw [sameText, readPid_pidText written] at read
        have positive := inv.positive before
        have minus : pid = -1 := read
        omega
  cleaned := by
    intro nodeId pid cleaned
    have gone : pid ∉ s.system.machine.alive ∨ pid = x :=
      (dead nodeId pid cleaned).imp_left (inv.cleaned nodeId pid)
    show pid ∉ m'.alive
    rcases gone with absent | same
    next => simp [logged.alive, Machine.kill, absent]
    next => simp [logged.alive, Machine.kill, same]
  apart := by
    intro nodeId pid other running different
    have ⟨before, _, _⟩ := kept nodeId pid running
    have old := inv.apart nodeId pid other before different
    have positive := inv.positive before
    rcases getNodePid_logged logged (inv.stderr other) with same | log
    next => exact fun now => old (same.symm.trans now)
    next =>
      intro now
      rw [log] at now
      omega

theorem kill_zero (m : Machine) : m.kill 0 = m :=
  kill_absent fun member => absurd (m.alive_pos 0 member) (by omega)

theorem Invariant.logs (inv : Invariant paths s) (logged : Logged targets s.system.machine m')
    (nodeId2Pid : Dict Int Int)
    (untouched : ∀ nodeId pid, s.Running nodeId pid → ¬ targets (paths.pidFile nodeId)) :
    Invariant paths ⟨⟨m', nodeId2Pid⟩, s.containers⟩ := by
  rw [← kill_zero s.system.machine] at logged
  refine inv.logged logged nodeId2Pid ?_ fun _ _ cleaned => .inl cleaned
  intro nodeId pid running
  exact ⟨running, (inv.positive running).ne', untouched nodeId pid running⟩

theorem Fresh_logged {pid : Int} (fresh : s.Fresh paths pid) (inv : Invariant paths s)
    (logged : Logged targets s.system.machine m') (nodeId2Pid : Dict Int Int) :
    Run.Fresh paths ⟨⟨m', nodeId2Pid⟩, s.containers⟩ pid := by
  have ⟨range, unused, unnamed, unknown⟩ := fresh
  refine ⟨range, logged.alive ▸ unused, ?_, unknown⟩
  intro nodeId now
  rcases getNodePid_logged logged (inv.stderr nodeId) with same | log
  next => exact unnamed nodeId (same.symm.trans now)
  next =>
    have positive := range.1
    have : pid = -1 := now.symm.trans log
    omega

theorem write_pidFile (nodeId other : Int) (text : List Char) :
    (m.write (paths.pidFile nodeId) text).files (paths.pidFile other) =
      if other = nodeId then some text else m.files (paths.pidFile other) := by
  rw [write_files]
  by_cases same : other = nodeId
  next => simp [same]
  next =>
    have different : paths.pidFile other ≠ paths.pidFile nodeId :=
      fun files => same (paths.pidFile_apart other nodeId files)
    simp [same, different]

theorem updated_cases {containers : Int → Option Container} {nodeId other : Int}
    {value : Option Container} {container : Container}
    (found : Function.update containers nodeId value other = some container) :
    other = nodeId ∧ value = some container ∨
      other ≠ nodeId ∧ containers other = some container := by
  by_cases same : other = nodeId
  next =>
    rw [same, Function.update_self] at found
    exact .inl ⟨same, found⟩
  next =>
    rw [Function.update_of_ne same] at found
    exact .inr ⟨same, found⟩

theorem Invariant.started (inv : Invariant paths s) (nodeId : Int) {pid : Int}
    (fresh : s.Fresh paths pid)
    (stderr : ∀ nodeId, s.system.machine.stderrFile ≠ some (paths.pidFile nodeId))
    (nodeId2Pid : Dict Int Int) :
    Invariant paths ⟨⟨(s.system.machine.start pid fresh.1.1).write (paths.pidFile nodeId)
      (itoa pid ++ ['\n']), nodeId2Pid⟩,
      Function.update s.containers nodeId (some ⟨pid, false⟩)⟩ := by
  have range := fresh.1
  obtain ⟨unused, unnamed, unknown⟩ := fresh.2
  have written : PidText pid (itoa pid ++ ['\n']) := ⟨.inr range, .inl rfl⟩
  have named : ∀ other, other ≠ nodeId →
      getNodePid paths ((s.system.machine.start pid fresh.1.1).write (paths.pidFile nodeId)
        (itoa pid ++ ['\n'])) other = getNodePid paths s.system.machine other := by
    intro other different
    simp only [getNodePid, write_pidFile, if_neg different]
    rfl
  refine ⟨?_, ?_, ?_, ?_, ?_⟩
  next =>
    intro other text found
    rw [write_pidFile] at found
    split at found
    next => exact .inl ⟨pid, Option.some.inj found ▸ written⟩
    next => exact inv.pidFiles other text found
  next =>
    intro other pending here
    have goes : s.system.machine.stderr = some ⟨paths.pidFile other, pending⟩ := here
    exact absurd (by rw [Machine.stderrFile, goes]; rfl) (stderr other)
  next =>
    intro other pid' running
    rcases updated_cases running with ⟨same, this⟩ | ⟨different, before⟩
    next =>
      have samePid : pid' = pid := congrArg Container.pid (Option.some.inj this).symm
      subst same samePid
      exact ⟨List.mem_cons_self, _, by rw [write_pidFile, if_pos rfl], written⟩
    next =>
      obtain ⟨alive, text, found, writtenBefore⟩ := inv.running other pid' before
      refine ⟨List.mem_cons_of_mem pid alive, text, ?_, writtenBefore⟩
      rw [write_pidFile, if_neg different]
      exact found
  next =>
    intro other pid' cleaned
    rcases updated_cases cleaned with ⟨_, this⟩ | ⟨_, before⟩
    next => cases congrArg Container.cleaned (Option.some.inj this)
    next =>
      have different : pid' ≠ pid := unknown other _ before
      have gone := inv.cleaned other pid' before
      exact fun alive => (List.mem_cons.mp alive).elim different gone
  next =>
    intro other pid' third running different
    rcases updated_cases running with ⟨same, this⟩ | ⟨_, before⟩
    next =>
      have samePid : pid' = pid := congrArg Container.pid (Option.some.inj this).symm
      rw [named third (same ▸ different), samePid]
      exact unnamed third
    next =>
      by_cases new : third = nodeId
      next =>
        have read : getNodePid paths ((s.system.machine.start pid fresh.1.1).write
            (paths.pidFile nodeId) (itoa pid ++ ['\n'])) third = (pid, none) := by
          rw [getNodePid_file (by rw [write_pidFile, if_pos new]), readPid_pidText written]
        rw [read]
        exact fun same : pid = pid' => unused (same ▸ (inv.running other pid' before).1)
      next =>
        rw [named third new]
        exact inv.apart other pid' third before different

section Arguments

theorem itoa_clean (n : Int) : '\x00' ∉ itoa n := fun member =>
  absurd (itoa_chars member) (by decide)

theorem runArgs_cString (nodeId : Int) : (runArgs paths nodeId).map cString =
    [paths.baseDir nodeId, nodeName nodeId, paths.imageRootfsPath] ++
      runOptions (paths.pidFilePath nodeId) (paths.runLogFilePath nodeId) := by
  have image : '\x00' ∉ paths.imageRootfsPath := by
    simp [Dirs.imageRootfsPath, join, paths.imgBundle_clean]
  have pidFile : '\x00' ∉ paths.pidFilePath nodeId := joined_clean (by decide)
  have log : '\x00' ∉ paths.runLogFilePath nodeId := joined_clean (by decide)
  have pidOption : '\x00' ∉ "--pid-file=".toList ++ paths.pidFilePath nodeId := by
    simpa using pidFile
  have logOption : '\x00' ∉ "--log-file=".toList ++ paths.runLogFilePath nodeId := by
    simpa using log
  simp only [runArgs, List.map_cons, List.map_nil, cString_clean (baseDir_clean nodeId),
    cString_clean (nodeName_clean nodeId), cString_clean image, cString_clean pidOption,
    cString_clean logOption]
  rfl

theorem runArgs_plain (nodeId : Int) :
    ∀ arg ∈ [paths.baseDir nodeId, nodeName nodeId, paths.imageRootfsPath],
      startsWith "--log-file=".toList arg = false := by
  intro arg member
  simp only [List.mem_cons, List.not_mem_nil, or_false] at member
  rcases member with rfl | rfl | rfl
  next => exact not_logOption paths.nodeTmpDir_noOption _
  next => exact not_logOption ⟨'n', "ode".toList, rfl, by decide⟩ _
  next => exact not_logOption paths.imgBundle_noOption _

end Arguments

section Calls

variable {replies : Replies} {nodeId : Int}

theorem Invariant.setupNode (inv : Invariant paths s)
    (succeeds : s.RunSucceeds paths replies (.setupNode nodeId)) :
    Invariant paths (s.perform paths replies (.setupNode nodeId)) := by
  cases made : replies.mkdirAll (paths.baseDir nodeId) with
  | some err =>
    have unchanged : s.perform paths replies (.setupNode nodeId) = s := by
      simp [Run.perform, Call.perform, GoctrManager.setupNode, made, Run.afterCall]
    rw [unchanged]
    exact inv
  | none =>
    have ⟨opened, fresh⟩ := succeeds made
    have positive := fresh.1.1
    have argv := @runArgs_cString paths nodeId
    have log : paths.Ordinary (paths.resolve (paths.runLogFilePath nodeId)) :=
      paths.runLog_apart nodeId
    have plain : ∀ arg ∈ [paths.baseDir nodeId, nodeName nodeId, paths.imageRootfsPath],
        startsWith "--log-file=".toList arg = true → paths.Ordinary (paths.resolve (arg.drop 11)) :=
      fun arg member starts =>
        absurd (starts.symm.trans (runArgs_plain nodeId arg member)) (by decide)
    have ⟨parsed, logged, stderr, written⟩ := goctrRun_spec (m := s.system.machine)
      (replies.answers paths) plain log
      (by rw [← argv]) positive opened
    rw [← argv] at written
    have apart : ∀ other, parsed.stderrFile ≠ some (paths.pidFile other) := by
      intro other here
      have goes : paths.resolve (paths.runLogFilePath nodeId) = paths.pidFile other := by
        simpa [here, eq_comm, Replies.answers] using stderr
      exact log other goes
    have quiet := inv.logs logged s.system.nodeId2Pid fun other _ _ target => target other rfl
    have started := quiet.started nodeId
      (Fresh_logged fresh inv logged s.system.nodeId2Pid) apart s.system.nodeId2Pid
    have nonnegative : ¬ (goctrRun (replies.answers paths) ((runArgs paths nodeId).map cString)
      s.system.machine).1 < 0 := by omega
    have done := started.logs written
      (s.system.nodeId2Pid.set nodeId (goctrRun (replies.answers paths)
        ((runArgs paths nodeId).map cString) s.system.machine).1) fun _ _ _ impossible => impossible
    simpa [Run.perform, Call.perform, GoctrManager.setupNode, made, Run.afterCall, nonnegative,
      Dict.get?_set] using done

theorem marked_cases {other pid : Int} {cleaned : Bool}
    (found : Function.update s.containers nodeId
      ((s.containers nodeId).map fun container => { container with cleaned := true }) other =
        some ⟨pid, cleaned⟩) :
    other = nodeId ∧ cleaned = true ∧ (∃ before, s.containers nodeId = some ⟨pid, before⟩) ∨
      other ≠ nodeId ∧ s.containers other = some ⟨pid, cleaned⟩ := by
  refine (updated_cases found).imp_left ?_
  rintro ⟨same, updated⟩
  obtain ⟨⟨pid', before⟩, started, marked⟩ := Option.map_eq_some_iff.mp updated
  have samePid : pid' = pid := congrArg Container.pid marked
  have flag : true = cleaned := congrArg Container.cleaned marked
  exact ⟨same, flag.symm, before, samePid ▸ started⟩

theorem killLog_target (paths : Paths) (nodeId : Int) : ∀ arg ∈ ["-v".toList,
    "--log-file=".toList ++ paths.killLogFilePath nodeId],
      startsWith "--log-file=".toList arg = true →
        paths.Ordinary (paths.resolve (arg.drop 11)) := by
  intro arg member starts
  simp only [List.mem_cons, List.not_mem_nil, or_false] at member
  rcases member with rfl | rfl
  next => exact absurd starts (by decide)
  next => exact paths.killLog_apart nodeId

theorem cleanNode_machine {pid : Int}
    (named : getNodePid paths s.system.machine nodeId = (pid, none)) :
    (GoctrManager.cleanNode paths replies nodeId s.system).2 =
      ⟨(goctrKill (replies.answers paths) (itoa pid :: ["-v".toList,
        "--log-file=".toList ++ paths.killLogFilePath nodeId]) s.system.machine).2,
        s.system.nodeId2Pid⟩ := by
  have log : '\x00' ∉ paths.killLogFilePath nodeId := joined_clean (by decide)
  have logOption : '\x00' ∉ "--log-file=".toList ++ paths.killLogFilePath nodeId := by
    simpa using log
  have verbose : '\x00' ∉ "-v".toList := by decide
  simp only [GoctrManager.cleanNode, named, List.map_cons, List.map_nil,
    cString_clean (itoa_clean pid), cString_clean verbose, cString_clean logOption]
  split <;> rfl

theorem Invariant.cleanNode (inv : Invariant paths s) :
    Invariant paths (s.perform paths replies (.cleanNode nodeId)) := by
  cases named : getNodePid paths s.system.machine nodeId with
  | mk pid err =>
    cases err with
    | some err =>
      have idle : Logged (fun _ => False) (s.system.machine.kill 0) s.system.machine := by
        rw [kill_zero]
        exact .refl _
      have absent : ∀ pid', ¬ s.Running nodeId pid' := by
        intro pid' running
        have found := inv.named running
        rw [named] at found
        cases congrArg Prod.snd found
      have unchanged : GoctrManager.cleanNode paths replies nodeId s.system =
          (some err, s.system) := by
        simp only [GoctrManager.cleanNode, named]
      simp only [Run.perform, Call.perform, unchanged, Run.afterCall]
      refine inv.logged idle s.system.nodeId2Pid ?_ ?_
      next =>
        intro other pid' running
        rcases marked_cases running with ⟨_, flag, _⟩ | ⟨_, before⟩
        next => cases flag
        next => exact ⟨before, (inv.positive before).ne', id⟩
      next =>
        intro other pid' cleaned
        rcases marked_cases cleaned with ⟨same, _, before, started⟩ | ⟨_, before⟩
        next =>
          cases before with
          | false => exact absurd started (absent pid')
          | true => exact .inl (same ▸ started)
        next => exact .inl before
    | none =>
      have number := inv.cAtoi_named nodeId
      rw [named] at number
      have found : cAtoi (itoa pid) ≠ 0 := number.1.symm ▸ number.2
      have killed := goctrKill_spec (m := s.system.machine) (replies.answers paths) (itoa pid) found
        (killLog_target paths nodeId)
      rw [number.1] at killed
      simp only [Run.perform, Call.perform, Run.afterCall, cleanNode_machine named]
      refine inv.logged killed s.system.nodeId2Pid ?_ ?_
      next =>
        intro other pid' running
        rcases marked_cases running with ⟨_, flag, _⟩ | ⟨different, before⟩
        next => cases flag
        next =>
          have apart := inv.apart other pid' nodeId before different.symm
          rw [named] at apart
          exact ⟨before, fun same => apart same.symm, fun target => target other rfl⟩
      next =>
        intro other pid' cleaned
        rcases marked_cases cleaned with ⟨same, _, before, started⟩ | ⟨_, before⟩
        next =>
          cases before with
          | false =>
            have found := inv.named started
            rw [named] at found
            exact .inr (congrArg Prod.fst found).symm
          | true => exact .inl (same ▸ started)
        next => exact .inl before

theorem logFiles_target (args : List (List Char)) : ∀ arg ∈ args.map cString,
    startsWith "--log-file=".toList arg = true →
      paths.resolve (arg.drop 11) ∈ Run.logFiles paths args := by
  intro arg member starts
  exact List.mem_map.mpr ⟨arg, List.mem_filter.mpr ⟨member, starts⟩, rfl⟩

-- `atoi` reads the word `exec` as 0, so that the next argument is taken for the pid to kill.
theorem nodeExec_machine (inv : Invariant paths s) (replies : Replies) (args : List (List Char))
    {pid : Int}
    (named : getNodePid paths s.system.machine nodeId = (pid, none)) :
    (GoctrManager.nodeExec paths replies nodeId args s.system).2.nodeId2Pid =
        s.system.nodeId2Pid ∧
      Logged (fun file => file ∈ Run.logFiles paths args) (s.system.machine.kill pid)
        (GoctrManager.nodeExec paths replies nodeId args s.system).2.machine := by
  have number := inv.cAtoi_named nodeId
  rw [named] at number
  have word : '\x00' ∉ "exec".toList := by decide
  have found : cAtoi (itoa pid) ≠ 0 := number.1.symm ▸ number.2
  have killed : Logged (fun file => file ∈ Run.logFiles paths args) _ _ :=
    goctrKill_spec (m := s.system.machine) (replies.answers paths) (itoa pid) found
      (logFiles_target args)
  rw [number.1, ← goctrKill_skip (replies.answers paths) "exec".toList (by decide)] at killed
  simp only [GoctrManager.nodeExec, named, List.cons_append, List.nil_append, List.map_cons,
    cString_clean word, cString_clean (itoa_clean pid)]
  split
  next => exact ⟨rfl, killed⟩
  next => exact ⟨rfl, killed⟩

theorem nodeExec_refused {args : List (List Char)} {pid : Int} {err : NodeError}
    (named : getNodePid paths s.system.machine nodeId = (pid, some err)) :
    s.perform paths replies (.nodeExec nodeId args) = s := by
  simp only [Run.perform, Call.perform, GoctrManager.nodeExec, named, Run.afterCall]

theorem Invariant.nodeExec (inv : Invariant paths s) (replies : Replies)
    {args : List (List Char)} (harmless : s.Harmless paths (.nodeExec nodeId args)) :
    Invariant paths (s.perform paths replies (.nodeExec nodeId args)) := by
  cases named : getNodePid paths s.system.machine nodeId with
  | mk pid err =>
    cases err with
    | some err =>
      rw [nodeExec_refused named]
      exact inv
    | none =>
      have ⟨_, killed⟩ := nodeExec_machine inv replies args named
      refine inv.logged killed _ ?_ fun _ _ cleaned => .inl cleaned
      intro other pid' running
      have ⟨different, untouched⟩ := harmless other pid' running
      have apart := inv.apart other pid' nodeId running different.symm
      rw [named] at apart untouched
      exact ⟨running, fun same => apart same.symm, untouched rfl⟩

-- Where the node runs, the command kills it.
theorem nodeExec_onlyCleanKills (inv : Invariant paths s) (args : List (List Char)) :
    (s.perform paths replies (.nodeExec nodeId args)).OnlyCleanKills ↔
      ∀ pid, ¬ s.Running nodeId pid := by
  cases named : getNodePid paths s.system.machine nodeId with
  | mk pid err =>
    cases err with
    | some err =>
      rw [nodeExec_refused named]
      refine ⟨fun _ pid' running => ?_, fun _ => inv.onlyCleanKills⟩
      have found := inv.named running
      rw [named] at found
      cases congrArg Prod.snd found
    | none =>
      obtain ⟨_, killed⟩ := nodeExec_machine inv replies args named
      have alive : ∀ other, other ∈ (s.perform paths replies
          (.nodeExec nodeId args)).system.machine.alive ↔
            other ∈ s.system.machine.alive ∧ other ≠ pid := by
        intro other
        show other ∈ (GoctrManager.nodeExec paths replies nodeId args s.system).2.machine.alive ↔ _
        simp [killed.alive, Machine.kill]
      constructor
      next =>
        intro keeps pid' running
        have found := inv.named running
        rw [named] at found
        have survives := (keeps nodeId ⟨pid', false⟩ running).mpr rfl
        exact ((alive pid').mp survives).2 (congrArg Prod.fst found).symm
      next =>
        intro stopped other container started
        rw [alive]
        obtain ⟨pid', cleaned⟩ := container
        have before := inv.onlyCleanKills other ⟨pid', cleaned⟩ started
        cases cleaned with
        | true =>
          have gone : pid' ∉ s.system.machine.alive := by simpa using before
          simp [gone]
        | false =>
          have different : nodeId ≠ other := fun same => stopped pid' (same ▸ started)
          have apart := inv.apart other pid' nodeId started different
          rw [named] at apart
          simpa using ⟨before.mpr rfl, fun same => apart same.symm⟩

theorem nodeExec_hasLog (inv : Invariant paths s) {args : List (List Char)} {pid : Int}
    (named : getNodePid paths s.system.machine nodeId = (pid, none)) {other : Int}
    (opens : ∀ path, replies.opens path = true)
    (target : paths.pidFile other ∈ Run.logFiles paths args) :
    (s.perform paths replies (.nodeExec nodeId args)).system.machine.HasLog
      (paths.pidFile other) := by
  have number := inv.cAtoi_named nodeId
  rw [named] at number
  have ⟨arg, selected, path⟩ := List.mem_map.mp target
  have ⟨member, starts⟩ := List.mem_filter.mp selected
  have stderr := inv.stderr other
  rw [← path] at stderr ⊢
  have found : cAtoi (itoa pid) ≠ 0 := number.1.symm ▸ number.2
  have log := goctrKill_hasLog (replies.answers paths) (itoa pid) found member starts
    (opens (arg.drop 11)) stderr
  rw [← goctrKill_skip (replies.answers paths) "exec".toList (by decide)] at log
  have word : '\x00' ∉ "exec".toList := by decide
  simp only [Run.perform, Call.perform, GoctrManager.nodeExec, named, List.cons_append,
    List.nil_append, List.map_cons, cString_clean word, cString_clean (itoa_clean pid)]
  split
  next => exact log
  next => exact log

-- A pid file that became a log names no process, and its node is not killed any more.
theorem cleanNode_misses {pid : Int} (running : s.Running nodeId pid)
    (alive : pid ∈ s.system.machine.alive)
    (log : s.system.machine.HasLog (paths.pidFile nodeId)) :
    ¬ (s.perform paths replies (.cleanNode nodeId)).OnlyCleanKills := by
  have positive := s.system.machine.alive_pos pid alive
  have minus := getNodePid_hasLog log
  have survives : pid ∈ (s.perform paths replies (.cleanNode nodeId)).system.machine.alive := by
    cases named : getNodePid paths s.system.machine nodeId with
    | mk read err =>
      have same : read = -1 := by simpa [named] using minus
      cases err with
      | some err =>
        simp only [Run.perform, Call.perform, GoctrManager.cleanNode, named]
        exact alive
      | none =>
        subst same
        have killed := goctrKill_spec (m := s.system.machine) (replies.answers paths) (itoa (-1))
          (by decide) (killLog_target paths nodeId)
        have number : cAtoi (itoa (-1)) = -1 := by decide
        have different : pid ≠ -1 := by omega
        simp only [Run.perform, Call.perform, cleanNode_machine named, killed.alive, number]
        simp [Machine.kill, alive, different]
  intro keeps
  have marked : (s.perform paths replies (.cleanNode nodeId)).containers nodeId =
      some ⟨pid, true⟩ := by
    have started : s.containers nodeId = some ⟨pid, false⟩ := running
    simp [Run.perform, Run.afterCall, started]
  cases (keeps nodeId ⟨pid, true⟩ marked).mp survives

theorem nodeExec_harmless_iff (inv : Invariant paths s)
    (opens : ∀ path, replies.opens path = true) (args : List (List Char)) :
    s.Harmless paths (.nodeExec nodeId args) ↔
      (s.perform paths replies (.nodeExec nodeId args)).OnlyCleanKills ∧
        ∀ other, ((s.perform paths replies (.nodeExec nodeId args)).perform paths replies
          (.cleanNode other)).OnlyCleanKills := by
  constructor
  next =>
    intro harmless
    have after := inv.nodeExec replies harmless
    exact ⟨after.onlyCleanKills, fun other => after.cleanNode.onlyCleanKills⟩
  next =>
    intro ⟨now, cleaned⟩ other pid running
    have stopped := (nodeExec_onlyCleanKills inv args).mp now
    refine ⟨fun same => stopped pid (same ▸ running), fun noError target => ?_⟩
    have named : getNodePid paths s.system.machine nodeId =
      ((getNodePid paths s.system.machine nodeId).1, none) := Prod.ext rfl noError
    have log := nodeExec_hasLog inv named opens target
    have alive := (now other ⟨pid, false⟩ running).mpr rfl
    have still : (s.perform paths replies (.nodeExec nodeId args)).Running other pid := running
    exact cleanNode_misses still alive log (cleaned other)

theorem Invariant.perform (inv : Invariant paths s) {call : Call}
    (harmless : s.Harmless paths call) (succeeds : s.RunSucceeds paths replies call) :
    Invariant paths (s.perform paths replies call) := by
  cases call with
  | setupNode nodeId => exact inv.setupNode succeeds
  | nodeExec nodeId args => exact inv.nodeExec _ harmless
  | getNodeNetNs nodeId => exact inv
  | cleanNode nodeId => exact inv.cleanNode

end Calls

theorem initial_invariant (start : initial paths s) : Invariant paths s := by
  have ⟨_, containers, stderr, left⟩ := start
  refine ⟨fun nodeId text found => .inl (left nodeId text found), ?_, ?_, ?_, ?_⟩
  next => exact fun nodeId pending here => by simp [stderr] at here
  next => exact fun nodeId pid running => by simp [Run.Running, containers] at running
  next => exact fun nodeId pid cleaned => by simp [containers] at cleaned
  next => exact fun nodeId pid other running => by simp [Run.Running, containers] at running

theorem reachable_invariant (reachable : (runs paths (Run.Harmless paths)).Reachable s) :
    Invariant paths s := by
  refine reachable.invariant (P := Invariant paths) (fun _ start => initial_invariant start) ?_
  intro s s' inv ⟨call, replies, harmless, succeeds, performed⟩
  rw [performed]
  exact inv.perform harmless succeeds

end Invariant

/-- As long as `NodeExec` is not used on a running node, nor with the pid file of one as its log,
only `CleanNode` kills; any other `NodeExec` call breaks this at once or by a later `CleanNode`. -/
theorem harmless_onlyCleanKills {paths : Paths} {s : Run}
    (reachable : (runs paths (Run.Harmless paths)).Reachable s) :
    s.OnlyCleanKills ∧ ∀ replies nodeId args, (∀ path, replies.opens path = true) →
      (s.Harmless paths (.nodeExec nodeId args) ↔
        (s.perform paths replies (.nodeExec nodeId args)).OnlyCleanKills ∧
          ∀ other, ((s.perform paths replies (.nodeExec nodeId args)).perform paths replies
            (.cleanNode other)).OnlyCleanKills) :=
  ⟨(reachable_invariant reachable).onlyCleanKills, fun _ _ args opens =>
    nodeExec_harmless_iff (reachable_invariant reachable) opens args⟩

section Concrete

def sampleDirs : Dirs where
  nodeTmpDir := "/t/nodes".toList
  imgBundle := "/t/img".toList
  nodeTmpDir_clean := by decide
  imgBundle_clean := by decide
  nodeTmpDir_noOption := ⟨'/', "t/nodes".toList, rfl, by decide⟩
  imgBundle_noOption := ⟨'/', "t/img".toList, rfl, by decide⟩

-- No file of these directories has a second name.
def samplePaths : Paths where
  toDirs := sampleDirs
  resolve := fun path => path
  pidFile_apart m n same := by
    have names := (List.cons.inj (List.append_cancel_left (List.append_cancel_right same))).2
    exact itoa_injective (List.append_cancel_left names)
  runLog_apart m n same := by
    have last := congrArg List.getLast? same
    simp [Dirs.runLogFilePath, Dirs.pidFilePath, join] at last
  killLog_apart m n same := by
    have last := congrArg List.getLast? same
    simp [Dirs.killLogFilePath, Dirs.pidFilePath, join] at last

def sampleReplies : Replies where
  opens := fun _ => true
  flushes := List.length
  containerRunInner := fun _ => (7, [])
  clock := fun _ => 0
  mkdirAll := fun _ => none
  getFromPid := fun _ => .ok 3

def sampleStart : Run where
  system := ⟨⟨fun _ => none, [], by simp, none, false⟩, Dict.empty⟩
  containers := fun _ => none

def sampleSetUp : Run := sampleStart.perform samplePaths sampleReplies (.setupNode 1)

theorem sampleStart_initial : initial samplePaths sampleStart :=
  ⟨rfl, rfl, rfl, fun _ _ found => by cases found⟩

theorem sampleSetUp_succeeds :
    sampleStart.RunSucceeds samplePaths sampleReplies (.setupNode 1) := by
  intro _
  refine ⟨rfl, by decide, by decide, ?_, fun _ _ found => by cases found⟩
  exact fun nodeId => show (-1 : Int) ≠ _ by decide

theorem harmless_onlyCleanKills_clean :
    (sampleSetUp.perform samplePaths sampleReplies (.cleanNode 1)).OnlyCleanKills :=
  (@harmless_onlyCleanKills samplePaths _
    (.next (.next (.start sampleStart_initial)
      ⟨.setupNode 1, sampleReplies, trivial, sampleSetUp_succeeds, rfl⟩)
      ⟨.cleanNode 1, sampleReplies, trivial, trivial, rfl⟩)).1

theorem exec_kills : ∃ s, (runs samplePaths fun _ _ => True).Reachable s ∧ ¬ s.OnlyCleanKills := by
  refine ⟨sampleSetUp.perform samplePaths sampleReplies (.nodeExec 1 ["ls".toList]), ?_, ?_⟩
  next =>
    exact .next (.next (.start sampleStart_initial)
      ⟨.setupNode 1, sampleReplies, trivial, sampleSetUp_succeeds, rfl⟩)
      ⟨.nodeExec 1 ["ls".toList], sampleReplies, trivial, trivial, rfl⟩
  next =>
    intro keeps
    have survives := keeps 1 ⟨7, false⟩ (by decide +kernel)
    revert survives
    decide +kernel

end Concrete

end SplitNN.Agent.GoctrManager
