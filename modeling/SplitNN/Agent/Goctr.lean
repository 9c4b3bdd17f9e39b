import SplitNN.Shared.CText

set_option autoImplicit false

-- The container tool `goctr.c` as the agent calls it: argument vectors in, processes and files out.
namespace SplitNN.Agent.Goctr

open Text

-- The C library's `stderr` once it goes to a file, with the text that it has not written out yet.
structure Stream where
  file : List Char
  pending : List Char

-- Files go by the names that the system gives them, not by the paths that lead to them.
structure Machine where
  files : List Char → Option (List Char)
  alive : List Int
  alive_pos : ∀ pid ∈ alive, 0 < pid
  stderr : Option Stream
  verboseMode : Bool

structure RunArgs where
  baseDir : Option (List Char)
  hostname : Option (List Char)
  imgRootfsDir : Option (List Char)
  volumeSrc : Option (List Char)
  volumeTgt : Option (List Char)
  netnsPath : Option (List Char)
  pidFilePath : Option (List Char)

-- What the machine answers to one call: the file that a path leads to and whether it can be opened
-- for writing, how much of a text the C library writes out unasked, what `container_run_inner`
-- returns with its error text, and the clock.
structure Answers where
  resolve : List Char → List Char
  opens : List Char → Bool
  flushes : List Char → Nat
  containerRunInner : RunArgs → Int × List Char
  clock : List Char → Nat

def Machine.write (file text : List Char) (m : Machine) : Machine :=
  { m with files := Function.update m.files file (some text) }

def Machine.append (file text : List Char) (m : Machine) : Machine :=
  m.write file ((m.files file).getD [] ++ text)

def Machine.fflush (m : Machine) : Machine :=
  match m.stderr with
  | none => m
  | some ⟨file, pending⟩ => { m.append file pending with stderr := some ⟨file, []⟩ }

def Machine.start (pid : Int) (positive : 0 < pid) (m : Machine) : Machine :=
  { m with
    alive := pid :: m.alive
    alive_pos := List.forall_mem_cons.mpr ⟨positive, m.alive_pos⟩ }

def Machine.kill (pid : Int) (m : Machine) : Machine :=
  { m with
    alive := m.alive.filter fun other => other ≠ pid
    alive_pos := fun other member => m.alive_pos other (List.mem_of_mem_filter member) }

section Source

variable (answers : Answers)

def Machine.say (message : List Char) (m : Machine) : Machine :=
  match m.stderr with
  | none => m
  | some ⟨file, pending⟩ =>
    let text := pending ++ message
    { m.append file (text.take (answers.flushes text)) with
      stderr := some ⟨file, text.drop (answers.flushes text)⟩ }

def Machine.freopen (path : List Char) (m : Machine) : Machine :=
  let m := m.fflush
  let file := answers.resolve path
  if answers.opens path then { m.write file [] with stderr := some ⟨file, []⟩ }
  else { m with stderr := none }

def verboseOutputTs (tsName : List Char) (m : Machine) : Machine :=
  if m.verboseMode then
    (m.say answers
      (tsName ++ ": ".toList ++ Nat.toDigits 10 (answers.clock tsName) ++ " ns\n".toList)).fflush
  else m

-- Both calls of the source reopen `stderr`.
def redirectStdoutStderr (logFilePath : List Char) (m : Machine) : Machine :=
  let failed := "Error: Could not redirect stderr to ".toList ++ logFilePath ++ ".\n".toList
  let m := m.freopen answers logFilePath
  let m := if answers.opens logFilePath then m else m.say answers failed
  let m := m.freopen answers logFilePath
  if answers.opens logFilePath then m else m.say answers failed

def writePidToFile (pidFilePath : List Char) (pid : Int) (m : Machine) : Machine :=
  if answers.opens pidFilePath then m.write (answers.resolve pidFilePath) (itoa pid ++ ['\n'])
  else m.say answers "Failed to open PID file\n".toList

def containerRun (args : RunArgs) (m : Machine) : Int × Machine :=
  if args.baseDir = none ∨ args.hostname = none ∨ args.imgRootfsDir = none then
    (-1, m.say answers "Empty base_dir or hostname\n".toList)
  else
    let (pid, chdErr) := answers.containerRunInner args
    if negative : pid < 0 then (-1, m.say answers ("Parent error: ".toList ++ chdErr ++ ['\n']))
    else if zero : pid = 0 then (-1, m.say answers ("Child error: ".toList ++ chdErr ++ ['\n']))
    else (pid, m.start pid (by omega))

def containerKill (pid : Int) (m : Machine) : Int × Machine :=
  let invalid := "Error: Invalid PID '".toList ++ itoa pid ++ "'.\n".toList
  if pid ≤ 0 then (-1, m.say answers invalid)
  else if pid ∈ m.alive then (0, m.kill pid)
  else (-1, m.say answers invalid)

def startsWith (option arg : List Char) : Bool := option.isPrefixOf arg

-- One round of `goctr_run`'s loop over its arguments.
def runArg (args : RunArgs × Machine) (arg : List Char) : RunArgs × Machine :=
  let (a, m) := args
  if startsWith "--netns=".toList arg then ({ a with netnsPath := some (arg.drop 8) }, m)
  else if startsWith "--pid-file=".toList arg then
    ({ a with pidFilePath := some (arg.drop 11) }, m)
  else if startsWith "--volume=".toList arg then
    let volumeOpt := arg.drop 9
    if ':' ∈ volumeOpt then
      ({ a with
          volumeSrc := some (volumeOpt.takeWhile fun c => c ≠ ':')
          volumeTgt := some ((volumeOpt.dropWhile fun c => c ≠ ':').drop 1) }, m)
    else (a, m.say answers "Invalid volume option format. Expected 'src:tgt'\n".toList)
  else if startsWith "-V".toList arg then (a, { m with verboseMode := true })
  else if startsWith "--log-file=".toList arg then
    (a, redirectStdoutStderr answers (arg.drop 11) m)
  else if a.baseDir = none then ({ a with baseDir := some arg }, m)
  else if a.hostname = none then ({ a with hostname := some arg }, m)
  else if a.imgRootfsDir = none then ({ a with imgRootfsDir := some arg }, m)
  else (a, m.say answers "Error: Too many arguments for 'run' operation.\n".toList)

def goctrRun (argv : List (List Char)) (m : Machine) : Int × Machine :=
  let (args, m) := argv.foldl (runArg answers) (⟨none, none, none, none, none, none, none⟩, m)
  let m := verboseOutputTs answers "run_start_time".toList m
  let (pid, m) := containerRun answers args m
  let m := match args.pidFilePath with
    | none => m
    | some path => writePidToFile answers path pid m
  (pid, verboseOutputTs answers "run_total_time".toList m)

-- One round of `goctr_kill`'s loop: arguments count as options once a pid has been read.
def killArg (args : Int × Machine) (arg : List Char) : Int × Machine :=
  let (pid, m) := args
  if pid = 0 then (cAtoi arg, m)
  else if startsWith "-V".toList arg then (pid, { m with verboseMode := true })
  else if startsWith "--log-file=".toList arg then
    (pid, redirectStdoutStderr answers (arg.drop 11) m)
  else
    (pid, m.say answers
      ("Error: Too many arguments for 'run' operation ".toList ++ arg ++ ".\n".toList))

def goctrKill (argv : List (List Char)) (m : Machine) : Int × Machine :=
  let (pid, m) := argv.foldl (killArg answers) (0, m)
  let m := verboseOutputTs answers "kill_start_time".toList m
  let (ret, m) := containerKill answers pid m
  (ret, verboseOutputTs answers "kill_total_time".toList m)

end Source

section Logging

-- Every message of the tool starts with a letter, so no log reads as a number.
def Letter (message : List Char) : Prop := ∃ c rest, message = c :: rest ∧ c.isAlpha = true

def LogText (text : List Char) : Prop := text = [] ∨ Letter text

namespace Machine

def HasLog (m : Machine) (file : List Char) : Prop :=
  ∃ text, m.files file = some text ∧ LogText text

-- Where `stderr` goes a log stands, and stays one when the text in between is written.
def StderrLogs (m : Machine) (file : List Char) : Prop :=
  ∀ pending, m.stderr = some ⟨file, pending⟩ →
    ∃ text, m.files file = some text ∧ LogText text ∧ LogText (text ++ pending)

end Machine

-- What logging does to a machine: a file changes only into a log, and only where one of
-- `targets` is opened or a log already stands.
structure Logged (targets : List Char → Prop) (m m' : Machine) : Prop where
  alive : m'.alive = m.alive
  stderr : ∀ file, m.StderrLogs file → m'.StderrLogs file
  files : ∀ file, m.StderrLogs file → m'.files file = m.files file ∨
    m'.HasLog file ∧ (targets file ∨ m.HasLog file)

variable {targets : List Char → Prop} {m m' m'' : Machine}

theorem Logged.refl (m : Machine) : Logged targets m m where
  alive := rfl
  stderr := fun _ logs => logs
  files := fun _ _ => .inl rfl

theorem Logged.trans (first : Logged targets m m') (second : Logged targets m' m'') :
    Logged targets m m'' where
  alive := second.alive.trans first.alive
  stderr path logs := second.stderr path (first.stderr path logs)
  files path logs := by
    rcases second.files path (first.stderr path logs) with same | ⟨log, cause⟩
    next =>
      rcases first.files path logs with old | ⟨log, cause⟩
      next => exact .inl (same.trans old)
      next =>
        have ⟨text, found, isLog⟩ := log
        exact .inr ⟨⟨text, same.trans found, isLog⟩, cause⟩
    next =>
      refine .inr ⟨log, ?_⟩
      rcases cause with target | middle
      next => exact .inl target
      next =>
        rcases first.files path logs with old | ⟨_, cause⟩
        next =>
          have ⟨text, found, isLog⟩ := middle
          exact .inr ⟨text, old ▸ found, isLog⟩
        next => exact cause

theorem letter_append {message : List Char} (letter : Letter message) (rest : List Char) :
    Letter (message ++ rest) := by
  have ⟨c, tail, shape, alpha⟩ := letter
  exact ⟨c, tail ++ rest, by simp [shape], alpha⟩

theorem logText_append {text message : List Char} (log : LogText text) (letter : Letter message) :
    LogText (text ++ message) := by
  rcases log with empty | starts
  next => exact .inr (by simpa [empty] using letter)
  next => exact .inr (letter_append starts message)

theorem logText_of_append {text rest : List Char} (log : LogText (text ++ rest)) :
    LogText text := by
  cases text with
  | nil => exact .inl rfl
  | cons c text =>
    have ⟨c', rest', shape, alpha⟩ := log.resolve_left (by simp)
    exact .inr ⟨c, text, rfl, (List.cons.inj shape).1 ▸ alpha⟩

theorem write_files (m : Machine) (file other text : List Char) :
    (m.write file text).files other = if other = file then some text else m.files other := by
  simp [Machine.write, Function.update_apply]

theorem logged_append {file pending written waiting : List Char}
    (goes : m.stderr = some ⟨file, pending⟩) (grows : ∀ text, LogText text →
      LogText (text ++ pending) → LogText (text ++ written ++ waiting)) :
    Logged targets m { m.append file written with stderr := some ⟨file, waiting⟩ } := by
  have result : m.StderrLogs file → ∃ text, (m.append file written).files file =
      some text ∧ LogText text ∧ LogText (text ++ waiting) ∧ m.HasLog file := by
    intro logs
    have ⟨text, found, log, whole⟩ := logs pending goes
    have longer := grows text log whole
    refine ⟨text ++ written, ?_, logText_of_append longer, longer, text, found, log⟩
    rw [Machine.append, write_files, if_pos rfl, found]
    rfl
  refine ⟨rfl, fun other logs pending' here => ?_, fun other logs => ?_⟩
  next =>
    have ⟨same, waits⟩ := Stream.mk.inj (Option.some.inj here)
    subst same waits
    have ⟨text, found, log, longer, _⟩ := result logs
    exact ⟨text, found, log, longer⟩
  next =>
    by_cases same : other = file
    next =>
      subst same
      have ⟨text, found, log, _, before⟩ := result logs
      exact .inr ⟨⟨text, found, log⟩, .inr before⟩
    next =>
      have kept := write_files m file other ((m.files file).getD [] ++ written)
      rw [if_neg same] at kept
      exact .inl kept

theorem logged_fflush (m : Machine) : Logged targets m m.fflush := by
  unfold Machine.fflush
  split
  next => exact .refl m
  next file pending goes =>
    refine logged_append goes fun text _ whole => ?_
    rwa [List.append_nil]

theorem logged_verbose (m : Machine) : Logged targets m { m with verboseMode := true } :=
  ⟨rfl, fun _ logs => logs, fun _ _ => .inl rfl⟩

-- An argument that names a log names one of the targets.
def Answers.LogsTo (answers : Answers) (targets : List Char → Prop) (arg : List Char) : Prop :=
  startsWith "--log-file=".toList arg = true → targets (answers.resolve (arg.drop 11))

section Calls

variable (answers : Answers)

theorem logged_say {message : List Char} (letter : Letter message) :
    Logged targets m (m.say answers message) := by
  unfold Machine.say
  split
  next => exact .refl m
  next file pending goes =>
    refine logged_append goes fun text log whole => ?_
    rw [List.append_assoc, List.take_append_drop, ← List.append_assoc]
    exact logText_append whole letter

theorem logged_freopen {path : List Char} (target : targets (answers.resolve path)) :
    Logged targets m (m.freopen answers path) := by
  refine (logged_fflush m).trans ?_
  unfold Machine.freopen
  split
  next =>
    have log : (m.fflush.write (answers.resolve path) []).HasLog (answers.resolve path) :=
      ⟨[], by rw [write_files, if_pos rfl], .inl rfl⟩
    refine ⟨rfl, fun other _ pending here => ?_, fun other _ => ?_⟩
    next =>
      have ⟨same, waits⟩ := Stream.mk.inj (Option.some.inj here)
      subst same waits
      exact ⟨[], by rw [write_files, if_pos rfl], .inl rfl, .inl rfl⟩
    next =>
      by_cases same : other = answers.resolve path
      next =>
        subst same
        exact .inr ⟨log, .inl target⟩
      next =>
        have kept := write_files m.fflush (answers.resolve path) other []
        rw [if_neg same] at kept
        exact .inl kept
  next => exact ⟨rfl, fun other _ pending here => by simp at here, fun _ _ => .inl rfl⟩

theorem logged_redirect {path : List Char} (target : targets (answers.resolve path)) :
    Logged targets m (redirectStdoutStderr answers path m) := by
  have letter : Letter ("Error: Could not redirect stderr to ".toList ++ path ++ ".\n".toList) :=
    ⟨'E', _, rfl, by decide⟩
  have once := logged_freopen (m := m) answers target
  by_cases opened : answers.opens path = true
  next =>
    simp only [redirectStdoutStderr, opened, if_true]
    exact once.trans (logged_freopen answers target)
  next =>
    simp only [redirectStdoutStderr, opened, Bool.false_eq_true, if_false]
    exact ((once.trans (logged_say answers letter)).trans (logged_freopen answers target)).trans
      (logged_say answers letter)

-- The file that `stderr` goes to, if it goes to one.
def Machine.stderrFile (m : Machine) : Option (List Char) := m.stderr.map Stream.file

theorem fflush_stderrFile (m : Machine) : m.fflush.stderrFile = m.stderrFile := by
  unfold Machine.fflush
  split
  next => rfl
  next goes => simp [Machine.stderrFile, goes]

theorem say_stderrFile (message : List Char) (m : Machine) :
    (m.say answers message).stderrFile = m.stderrFile := by
  unfold Machine.say
  split
  next => rfl
  next goes => simp [Machine.stderrFile, goes]

theorem redirect_stderrFile (path : List Char) (m : Machine) :
    (redirectStdoutStderr answers path m).stderrFile ∈ [none, some (answers.resolve path)] := by
  by_cases opened : answers.opens path = true
  next => simp [redirectStdoutStderr, Machine.freopen, Machine.stderrFile, opened]
  next =>
    simp only [redirectStdoutStderr, opened, Bool.false_eq_true, if_false, say_stderrFile]
    simp [Machine.freopen, Machine.stderrFile, opened]

theorem logged_verboseOutputTs {tsName : List Char} (letter : Letter tsName) :
    Logged targets m (verboseOutputTs answers tsName m) := by
  unfold verboseOutputTs
  split
  next => exact (logged_say answers (by simpa using letter_append letter _)).trans (logged_fflush _)
  next => exact .refl m

theorem logged_runArg {arg : List Char} (args : RunArgs)
    (target : answers.LogsTo targets arg) :
    Logged targets m (runArg answers (args, m) arg).2 := by
  simp only [runArg]
  repeat' split
  all_goals first
    | exact .refl m
    | exact logged_verbose m
    | exact logged_say answers ⟨_, _, rfl, by decide⟩
    | exact logged_redirect answers (target ‹_›)

theorem logged_runArgs {argv : List (List Char)} (args : RunArgs)
    (target : ∀ arg ∈ argv, answers.LogsTo targets arg) :
    Logged targets m (argv.foldl (runArg answers) (args, m)).2 := by
  induction argv generalizing args m with
  | nil => exact .refl m
  | cons arg rest ih =>
    have first := logged_runArg (m := m) answers args (target arg (by simp))
    exact first.trans (ih _ fun other member => target other (List.mem_cons_of_mem arg member))

theorem killArg_pid {pid : Int} (found : pid ≠ 0) (arg : List Char) :
    (killArg answers (pid, m) arg).1 = pid := by
  simp only [killArg, found, if_false]
  repeat' split
  all_goals rfl

theorem logged_killArg {pid : Int} (found : pid ≠ 0) {arg : List Char}
    (target : answers.LogsTo targets arg) :
    Logged targets m (killArg answers (pid, m) arg).2 := by
  simp only [killArg, found, if_false]
  repeat' split
  next => exact logged_verbose m
  next => exact logged_redirect answers (target ‹_›)
  next => exact logged_say answers ⟨'E', _, rfl, by decide⟩

theorem killArgs_spec {pid : Int} (found : pid ≠ 0) {argv : List (List Char)}
    (target : ∀ arg ∈ argv, answers.LogsTo targets arg) :
    (argv.foldl (killArg answers) (pid, m)).1 = pid ∧
      Logged targets m (argv.foldl (killArg answers) (pid, m)).2 := by
  induction argv generalizing m with
  | nil => exact ⟨rfl, .refl m⟩
  | cons arg rest ih =>
    have kept := killArg_pid (m := m) answers found arg
    have first := logged_killArg (m := m) answers found (target arg (by simp))
    have later := ih (m := (killArg answers (pid, m) arg).2)
      fun other member => target other (List.mem_cons_of_mem arg member)
    have step : killArg answers (pid, m) arg = (pid, (killArg answers (pid, m) arg).2) :=
      Prod.ext kept rfl
    rw [List.foldl_cons, step]
    exact ⟨later.1, first.trans later.2⟩

theorem kill_absent {pid : Int} {m : Machine} (absent : pid ∉ m.alive) : m.kill pid = m := by
  have kept : (m.alive.filter fun other => other ≠ pid) = m.alive := by
    rw [List.filter_eq_self]
    intro other member
    have different : other ≠ pid := fun same => absent (same ▸ member)
    simpa using different
  cases m
  simpa [Machine.kill] using kept

theorem logged_containerKill (pid : Int) (m : Machine) :
    Logged targets (m.kill pid) (containerKill answers pid m).2 := by
  simp only [containerKill]
  split
  next low =>
    have absent : pid ∉ m.alive := fun member => absurd (m.alive_pos pid member) (by omega)
    rw [kill_absent absent]
    exact logged_say answers ⟨'E', _, rfl, by decide⟩
  next =>
    split
    next => exact .refl _
    next absent =>
      rw [kill_absent absent]
      exact logged_say answers ⟨'E', _, rfl, by decide⟩

theorem Logged.kill (logged : Logged targets m m') (pid : Int) :
    Logged targets (m.kill pid) (m'.kill pid) where
  alive := by simp only [Machine.kill, logged.alive]
  stderr := logged.stderr
  files := logged.files

theorem goctrKill_skip (arg : List Char) (zero : cAtoi arg = 0) (argv : List (List Char)) :
    goctrKill answers (arg :: argv) m = goctrKill answers argv m := by
  simp [goctrKill, killArg, zero]

theorem goctrKill_parsed {argv : List (List Char)} {pid : Int}
    (parsed : argv.foldl (killArg answers) (0, m) = (pid, m')) :
    Logged targets (m'.kill pid) (goctrKill answers argv m).2 := by
  have started : Logged targets m' (verboseOutputTs answers "kill_start_time".toList m') :=
    logged_verboseOutputTs answers ⟨'k', _, rfl, by decide⟩
  have killed := (started.kill pid).trans (logged_containerKill answers _ _)
  simp only [goctrKill, parsed]
  exact killed.trans (logged_verboseOutputTs answers ⟨'k', _, rfl, by decide⟩)

theorem killArgs_anyLog {pid : Int} (found : pid ≠ 0) (argv : List (List Char)) (m : Machine) :
    (argv.foldl (killArg answers) (pid, m)).1 = pid ∧
      Logged (fun _ => True) m (argv.foldl (killArg answers) (pid, m)).2 :=
  killArgs_spec answers found fun _ _ _ => trivial

theorem killArgs_first {arg : List Char} (found : cAtoi arg ≠ 0) (argv : List (List Char)) :
    (arg :: argv).foldl (killArg answers) (0, m) =
      (cAtoi arg, (argv.foldl (killArg answers) (cAtoi arg, m)).2) :=
  Prod.ext (killArgs_anyLog answers found argv m).1 rfl

-- The pid is the first argument that reads as one; what follows it can only redirect the log.
theorem goctrKill_spec (arg : List Char) (found : cAtoi arg ≠ 0) {argv : List (List Char)}
    (target : ∀ arg ∈ argv, answers.LogsTo targets arg) :
    Logged targets (m.kill (cAtoi arg)) (goctrKill answers (arg :: argv) m).2 :=
  ((killArgs_spec answers found target).2.kill _).trans
    (goctrKill_parsed answers (killArgs_first answers found argv))

theorem Logged.hasLog (logged : Logged targets m m') {path : List Char}
    (stderr : m.StderrLogs path) (log : m.HasLog path) : m'.HasLog path := by
  rcases logged.files path stderr with same | ⟨now, _⟩
  next =>
    have ⟨text, found, isLog⟩ := log
    exact ⟨text, same.trans found, isLog⟩
  next => exact now

theorem redirect_hasLog {path : List Char} (opened : answers.opens path = true) (m : Machine) :
    (redirectStdoutStderr answers path m).HasLog (answers.resolve path) := by
  refine ⟨[], ?_, .inl rfl⟩
  simp only [redirectStdoutStderr, Machine.freopen, opened, if_true]
  rw [write_files, if_pos rfl]

theorem killArgs_hasLog {pid : Int} (found : pid ≠ 0) {argv : List (List Char)} {arg : List Char}
    (member : arg ∈ argv) (starts : startsWith "--log-file=".toList arg = true)
    (opened : answers.opens (arg.drop 11) = true)
    (stderr : m.StderrLogs (answers.resolve (arg.drop 11))) :
    (argv.foldl (killArg answers) (pid, m)).2.HasLog (answers.resolve (arg.drop 11)) := by
  induction argv generalizing m with
  | nil => cases member
  | cons head rest ih =>
    have step : killArg answers (pid, m) head = (pid, (killArg answers (pid, m) head).2) :=
      Prod.ext (killArg_pid answers found head) rfl
    have first : Logged (fun _ => True) m (killArg answers (pid, m) head).2 :=
      logged_killArg answers found fun _ => trivial
    have still := first.stderr _ stderr
    rw [List.foldl_cons, step]
    rcases List.mem_cons.mp member with same | later
    next =>
      subst same
      have noFlag : startsWith "-V".toList arg = false := by
        have ⟨path, shape⟩ := List.isPrefixOf_iff_prefix.mp starts
        rw [← shape]
        rfl
      have now : (killArg answers (pid, m) arg).2.HasLog (answers.resolve (arg.drop 11)) := by
        simp only [killArg, found, if_false, noFlag, Bool.false_eq_true, starts, if_true]
        exact redirect_hasLog answers opened m
      have others := killArgs_anyLog answers found rest (killArg answers (pid, m) arg).2
      exact others.2.hasLog still now
    next => exact ih later still

theorem goctrKill_hasLog (first : List Char) (found : cAtoi first ≠ 0) {argv : List (List Char)}
    {arg : List Char} (member : arg ∈ argv) (starts : startsWith "--log-file=".toList arg = true)
    (opened : answers.opens (arg.drop 11) = true)
    (stderr : m.StderrLogs (answers.resolve (arg.drop 11))) :
    (goctrKill answers (first :: argv) m).2.HasLog (answers.resolve (arg.drop 11)) := by
  have parsed := killArgs_anyLog answers found argv m
  have still := parsed.2.stderr _ stderr
  have killed : Logged (fun _ => True) _ (goctrKill answers (first :: argv) m).2 :=
    goctrKill_parsed answers (killArgs_first answers found argv)
  exact killed.hasLog still (killArgs_hasLog answers found member starts opened stderr)

theorem containerRun_positive {args : RunArgs} (positive : 0 < (containerRun answers args m).1) :
    (containerRun answers args m).2 = m.start (containerRun answers args m).1 positive := by
  revert positive
  simp only [containerRun]
  repeat' split
  all_goals simp

theorem runArg_pidFile {path : List Char} (args : RunArgs × Machine) :
    (runArg answers args ("--pid-file=".toList ++ path)).1.pidFilePath = some path := rfl

theorem runArg_logFile {path : List Char} (args : RunArgs × Machine) :
    runArg answers args ("--log-file=".toList ++ path) =
      (args.1, redirectStdoutStderr answers path args.2) := rfl

theorem runArg_pidFilePath {arg : List Char}
    (other : startsWith "--pid-file=".toList arg = false) (args : RunArgs × Machine) :
    (runArg answers args arg).1.pidFilePath = args.1.pidFilePath := by
  simp only [runArg, other, Bool.false_eq_true, if_false]
  repeat' split
  all_goals rfl

theorem verboseOutputTs_stderrFile (tsName : List Char) (m : Machine) :
    (verboseOutputTs answers tsName m).stderrFile = m.stderrFile := by
  unfold verboseOutputTs
  split
  next => exact (fflush_stderrFile _).trans (say_stderrFile answers _ m)
  next => rfl

-- What `SetupNode` passes behind the three positional arguments.
def runOptions (pidFile logFile : List Char) : List (List Char) :=
  ["--pid-file=".toList ++ pidFile, "-v".toList, "--log-file=".toList ++ logFile]

theorem runOptions_parsed (argv : List (List Char)) (pidFile logFile : List Char)
    (args : RunArgs × Machine) :
    ((argv ++ runOptions pidFile logFile).foldl (runArg answers) args).1.pidFilePath =
        some pidFile ∧
      ((argv ++ runOptions pidFile logFile).foldl (runArg answers) args).2.stderrFile ∈
        [none, some (answers.resolve logFile)] := by
  simp only [runOptions, List.foldl_append, List.foldl_cons, List.foldl_nil, runArg_logFile]
  refine ⟨?_, redirect_stderrFile answers logFile _⟩
  rw [runArg_pidFilePath answers (by rfl), runArg_pidFile]

theorem runOptions_targets {argv : List (List Char)} (pidFile : List Char) {logFile : List Char}
    (target : ∀ arg ∈ argv, answers.LogsTo targets arg)
    (logTarget : targets (answers.resolve logFile)) : ∀ arg ∈ argv ++ runOptions pidFile logFile,
      answers.LogsTo targets arg := by
  intro arg member starts
  rcases List.mem_append.mp member with front | last
  next => exact target arg front starts
  next =>
    simp only [runOptions, List.mem_cons, List.not_mem_nil, or_false] at last
    rcases last with rfl | rfl | rfl
    next => exact absurd starts (by simp [startsWith])
    next => exact absurd starts (by decide)
    next => exact logTarget

theorem goctrRun_spec {argv : List (List Char)} {pidFile logFile : List Char} {pid : Int}
    (target : ∀ arg ∈ argv, answers.LogsTo targets arg)
    (logTarget : targets (answers.resolve logFile))
    (returned : (goctrRun answers (argv ++ runOptions pidFile logFile) m).1 = pid)
    (positive : 0 < pid) (opened : answers.opens pidFile = true) :
    ∃ parsed, Logged targets m parsed ∧ parsed.stderrFile ∈ [none, some (answers.resolve logFile)] ∧
      Logged (fun _ => False) ((parsed.start pid positive).write
        (answers.resolve pidFile) (itoa pid ++ ['\n']))
        (goctrRun answers (argv ++ runOptions pidFile logFile) m).2 := by
  have ⟨pidFilePath, stderr⟩ :=
    runOptions_parsed answers argv pidFile logFile (⟨none, none, none, none, none, none, none⟩, m)
  have parsed := logged_runArgs (m := m) answers ⟨none, none, none, none, none, none, none⟩
    (runOptions_targets answers pidFile target logTarget)
  have letter : Letter "run_start_time".toList := ⟨'r', _, rfl, by decide⟩
  have started := parsed.trans (logged_verboseOutputTs answers letter)
  subst returned
  refine ⟨_, started, (verboseOutputTs_stderrFile answers _ _).symm ▸ stderr, ?_⟩
  have ran := containerRun_positive answers positive
  simp only [goctrRun, pidFilePath] at ran ⊢
  simp only [writePidToFile, if_pos opened, ran]
  exact logged_verboseOutputTs answers ⟨'r', _, rfl, by decide⟩

end Calls

end Logging

end SplitNN.Agent.Goctr
