import Mathlib
import SplitNN.Shared.Transition

set_option autoImplicit false

-- Programs of atomic actions on a shared state, what one of them owes to the others, and what
-- then holds in every interleaving.

inductive Prog (σ ε α : Type) where
  | ret (value : α)
  | fail (error : ε)
  -- One atomic action; what follows depends on the state that the action saw.
  | act (change : σ → σ) (next : σ → Prog σ ε α)

namespace Prog

variable {σ ε α β : Type}

def bind : Prog σ ε α → (α → Prog σ ε β) → Prog σ ε β
  | .ret value, f => f value
  | .fail error, _ => .fail error
  | .act change next, f => .act change fun st => (next st).bind f

instance : Monad (Prog σ ε) where
  pure := .ret
  bind := Prog.bind

def atomic (f : σ → α × σ) : Prog σ ε α := .act (fun st => (f st).2) fun st => .ret (f st).1

def guarded (f : σ → Except ε σ) : Prog σ ε Unit :=
  .act (fun st => match f st with | .ok st' => st' | .error _ => st) fun st =>
    match f st with
    | .ok _ => .ret ()
    | .error error => .fail error

-- A call that reads the state and may fail.
def check (f : σ → Except ε α) : Prog σ ε α :=
  .act id fun st =>
    match f st with
    | .ok value => .ret value
    | .error error => .fail error

def finished : Prog σ ε α → Bool
  | .ret _ => true
  | .fail _ | .act _ _ => false

def failed : Prog σ ε α → Bool
  | .fail _ => true
  | .ret _ | .act _ _ => false

end Prog

-- What a program bears from the others, while it runs and while it does not, and what it promises
-- them.
structure Contract (σ : Type) where
  rely : σ → σ → Prop
  absent : σ → σ → Prop
  guarantee : σ → σ → Prop
  relyRefl : ∀ st, rely st st
  relyTrans : ∀ {st st' st'' : σ}, rely st st' → rely st' st'' → rely st st''
  relyAbsent : ∀ {st st' : σ}, rely st st' → absent st st'
  absentTrans : ∀ {st st' st'' : σ}, absent st st' → absent st' st'' → absent st st''

namespace Contract

variable {σ ε α β : Type} {contract : Contract σ} {Q : α → σ → Prop}

/-- From this state on the program keeps its promise, does not fail and ends in `Q`, whatever
the others do between its actions. -/
def Meets (contract : Contract σ) (Q : α → σ → Prop) : Prog σ ε α → σ → Prop
  | .ret value, st => ∀ st', contract.rely st st' → Q value st'
  | .fail _, _ => False
  | .act change next, st => ∀ st', contract.rely st st' →
      contract.guarantee st' (change st') ∧ Meets contract Q (next st') (change st')

theorem Meets.later {p : Prog σ ε α} {st st' : σ} (meets : contract.Meets Q p st)
    (others : contract.rely st st') : contract.Meets Q p st' := by
  cases p with
  | ret value => exact fun last more => meets last (contract.relyTrans others more)
  | fail error => exact meets
  | act change next => exact fun last more => meets last (contract.relyTrans others more)

theorem Meets.step {change : σ → σ} {next : σ → Prog σ ε α} {st : σ}
    (meets : contract.Meets Q (.act change next) st) :
    contract.guarantee st (change st) ∧ contract.Meets Q (next st) (change st) :=
  meets st (contract.relyRefl st)

theorem Meets.not_failed {p : Prog σ ε α} {st : σ} (meets : contract.Meets Q p st) :
    p.failed = false := by
  cases p with
  | ret | act => rfl
  | fail => exact meets.elim

theorem Meets.ended {p : Prog σ ε α} {Q : σ → Prop} {st : σ}
    (meets : contract.Meets (fun _ => Q) p st) (finished : p.finished = true) : Q st := by
  cases p with
  | ret value => exact meets st (contract.relyRefl st)
  | fail | act => cases finished

theorem Meets.bind {Q' : β → σ → Prop} {p : Prog σ ε α} {f : α → Prog σ ε β} {st : σ}
    (meets : contract.Meets (fun value st' => contract.Meets Q' (f value) st') p st) :
    contract.Meets Q' (p.bind f) st := by
  induction p generalizing st with
  | ret value => exact meets st (contract.relyRefl st)
  | fail error => exact meets
  | act change next ih =>
    intro last others
    have stepped := meets last others
    exact ⟨stepped.1, ih last stepped.2⟩

theorem meets_atomic {f : σ → α × σ} {st : σ} (does : ∀ st', contract.rely st st' →
    contract.guarantee st' (f st').2 ∧ ∀ last, contract.rely (f st').2 last → Q (f st').1 last) :
    contract.Meets Q (Prog.atomic f : Prog σ ε α) st :=
  does

theorem meets_guarded {Q : Unit → σ → Prop} {f : σ → Except ε σ} {st : σ}
    (does : ∀ st', contract.rely st st' → ∃ made, f st' = .ok made ∧
      contract.guarantee st' made ∧ ∀ last, contract.rely made last → Q () last) :
    contract.Meets Q (Prog.guarded f) st := by
  intro st' others
  obtain ⟨made, run, keeps, ends⟩ := does st' others
  simp only [run]
  exact ⟨keeps, ends⟩

theorem meets_check {f : σ → Except ε α} {st : σ} (does : ∀ st', contract.rely st st' →
    ∃ value, f st' = .ok value ∧ contract.guarantee st' st' ∧
      ∀ last, contract.rely st' last → Q value last) :
    contract.Meets Q (Prog.check f) st := by
  intro st' others
  obtain ⟨value, read, keeps, ends⟩ := does st' others
  simp only [read]
  exact ⟨keeps, ends⟩

end Contract

-- The thread that hands the programs out. It begins a batch when the one before is done, and
-- prepares the shared state for each program, unless it gives up.
structure Main (σ : Type) where
  begins : σ → σ
  prepares : Nat → σ → Option σ

-- A pool of workers that run one program for each name.
structure PoolRun (ι σ ε : Type) where
  shared : σ
  progs : ι → Prog σ ε Unit
  started : List ι
  prepared : Bool
  current : List ι
  later : List (List ι)

namespace PoolRun

variable {ι σ ε : Type} [DecidableEq ι]

def busy (st : PoolRun ι σ ε) : Nat := st.started.countP fun i => !(st.progs i).finished

-- A worker that takes a program on gets it as the shared state is at that moment.
inductive Step (numWorkers : Nat) (main : Main σ) (tasks : ι → σ → Prog σ ε Unit) :
    PoolRun ι σ ε → PoolRun ι σ ε → Prop where
  | act {st : PoolRun ι σ ε} {i : ι} {change : σ → σ} {next : σ → Prog σ ε Unit}
      (begun : i ∈ st.started) (at_ : st.progs i = .act change next) :
      Step numWorkers main tasks st { st with
        shared := change st.shared
        progs := Function.update st.progs i (next st.shared) }
  | batch {st : PoolRun ι σ ε} {batch : List ι} {later : List (List ι)}
      (at_ : st.later = batch :: later) (all : st.current = []) (done : st.busy = 0) :
      Step numWorkers main tasks st { st with
        shared := main.begins st.shared
        prepared := false
        current := batch
        later := later }
  | prepare {st : PoolRun ι σ ε} {i : ι} {rest : List ι} {shared : σ}
      (at_ : st.current = i :: rest) (unprepared : st.prepared = false)
      (prepares : main.prepares st.started.length st.shared = some shared) :
      Step numWorkers main tasks st { st with shared := shared, prepared := true }
  | take {st : PoolRun ι σ ε} {i : ι} {rest : List ι} (at_ : st.current = i :: rest)
      (prepared : st.prepared = true) (idle : st.busy < numWorkers) :
      Step numWorkers main tasks st { st with
        progs := Function.update st.progs i (tasks i st.shared)
        started := st.started ++ [i]
        prepared := false
        current := rest }

def start (shared : σ) (batches : List (List ι)) : PoolRun ι σ ε :=
  ⟨shared, fun _ => .ret (), [], false, [], batches⟩

def system (numWorkers : Nat) (main : Main σ) (tasks : ι → σ → Prog σ ε Unit) (shared : σ)
    (batches : List (List ι)) : TransitionSystem (PoolRun ι σ ε) where
  initial st := st = start shared batches
  step := Step numWorkers main tasks

-- The contracts of the programs and what they end in; and what holds of the shared state where a
-- batch begins after so many programs, and from its first program on.
structure Spec (ι σ : Type) where
  contracts : ι → Contract σ
  post : ι → σ → Prop
  between : Nat → σ → Prop
  within : σ → Prop

/-- The programs go together, and with a main thread that prepares something for the first of a
batch only. -/
structure Compatible (main : Main σ) (tasks : ι → σ → Prog σ ε Unit) (spec : Spec ι σ)
    (shared : σ) (batches : List (List ι)) : Prop where
  distinct : batches.flatten.Nodup
  others : ∀ i ∈ batches.flatten, ∀ j ∈ batches.flatten, i ≠ j → ∀ st st',
    (spec.contracts i).guarantee st st' → (spec.contracts j).rely st st'
  keeps : ∀ i ∈ batches.flatten, ∀ st st',
    (spec.contracts i).guarantee st st' → spec.within st → spec.within st'
  starts : ∀ i ∈ batches.flatten, ∀ st, (spec.contracts i).absent shared st → spec.within st →
    (spec.contracts i).Meets (fun _ => spec.post i) (tasks i st) st
  ends : ∀ i ∈ batches.flatten, ∀ st st',
    spec.post i st → (spec.contracts i).absent st st' → spec.post i st'
  begins : ∀ i ∈ batches.flatten, ∀ st, (spec.contracts i).absent st (main.begins st)
  prepares : ∀ i ∈ batches.flatten, ∀ count st st', main.prepares count st = some st' →
    (spec.contracts i).absent st st'
  between : ∀ count st, spec.between count st ∨ spec.within st →
    spec.between count (main.begins st)
  first : ∀ i ∈ batches.flatten, ∀ count st, spec.between count st →
    ∃ st', main.prepares count st = some st' ∧ spec.within st'
  calm : ∀ before sent i rest later, batches = before ++ (sent ++ i :: rest) :: later →
    sent ≠ [] → ∀ st, main.prepares (before.flatten ++ sent).length st = some st

-- Where the main thread is in its batches.
inductive Located (spec : Spec ι σ) (batches : List (List ι)) (st : PoolRun ι σ ε) : Prop where
  | unbegun (whole : batches = st.later) (none : st.current = []) (started : st.started = [])
      (between : spec.between 0 st.shared)
  | first (before : List (List ι)) (whole : batches = before ++ st.current :: st.later)
      (started : st.started = before.flatten) (quiet : st.busy = 0)
      (between : st.prepared = false → spec.between st.started.length st.shared)
      (within : st.prepared = true → spec.within st.shared)
  | amid (before : List (List ι)) (sent : List ι)
      (whole : batches = before ++ (sent ++ st.current) :: st.later)
      (started : st.started = before.flatten ++ sent) (some_sent : sent ≠ [])
      (within : spec.within st.shared)

/-- What every state of a run has: the programs that run meet their contracts, the others have
borne what was done meanwhile, and the shared state has come about by moves that somebody
promised. -/
structure Sound (main : Main σ) (spec : Spec ι σ) (shared : σ) (batches : List (List ι))
    (st : PoolRun ι σ ε) : Prop where
  located : Located spec batches st
  running : ∀ i ∈ st.started, (st.progs i).finished = false →
    (spec.contracts i).Meets (fun _ => spec.post i) (st.progs i) st.shared
  ended : ∀ i ∈ st.started, (st.progs i).finished = true → spec.post i st.shared
  waiting : ∀ i ∈ batches.flatten, i ∉ st.started → st.progs i = .ret () ∧
    (spec.contracts i).absent shared st.shared
  moved : Relation.ReflTransGen (fun st st' => st' = main.begins st ∨
    (∃ count, main.prepares count st = some st') ∨
    ∃ i ∈ batches.flatten, (spec.contracts i).guarantee st st') shared st.shared

variable {numWorkers : Nat} {main : Main σ} {tasks : ι → σ → Prog σ ε Unit} {spec : Spec ι σ}
  {shared : σ} {batches : List (List ι)} {st st' : PoolRun ι σ ε}

omit [DecidableEq ι] in
theorem Located.names (located : Located spec batches st) :
    batches.flatten = st.started ++ (st.current ++ st.later.flatten) := by
  cases located with
  | unbegun whole none started => simp [whole, none, started]
  | first _ whole started => simp [whole, started]
  | amid _ _ whole started => simp [whole, started]

omit [DecidableEq ι] in
theorem Located.member (located : Located spec batches st) {i : ι} (begun : i ∈ st.started) :
    i ∈ batches.flatten := by
  rw [located.names]
  exact List.mem_append_left _ begun

omit [DecidableEq ι] in
theorem busy_eq_zero : st.busy = 0 ↔ ∀ i ∈ st.started, (st.progs i).finished = true := by
  simp [busy, List.countP_eq_zero]

omit [DecidableEq ι] in
theorem Located.amid_of_busy (located : Located spec batches st) {i : ι} (begun : i ∈ st.started)
    (runs : (st.progs i).finished = false) : ∃ before sent,
      batches = before ++ (sent ++ st.current) :: st.later ∧ st.started = before.flatten ++ sent ∧
      sent ≠ [] ∧ spec.within st.shared := by
  cases located with
  | unbegun _ _ started => simp [started] at begun
  | first _ _ _ quiet => simp [busy_eq_zero.mp quiet i begun] at runs
  | amid before sent whole started some_sent within =>
    exact ⟨before, sent, whole, started, some_sent, within⟩

theorem Sound.act (compatible : Compatible main tasks spec shared batches)
    (sound : Sound main spec shared batches st) {i : ι} {change : σ → σ}
    {next : σ → Prog σ ε Unit} (begun : i ∈ st.started) (at_ : st.progs i = .act change next) :
    Sound main spec shared batches { st with
      shared := change st.shared
      progs := Function.update st.progs i (next st.shared) } := by
  obtain ⟨located, running, ended, waiting, moved⟩ := sound
  have runs : (st.progs i).finished = false := by simp [at_, Prog.finished]
  have member := located.member begun
  obtain ⟨promise, onwards⟩ := (at_ ▸ running i begun runs).step
  have stable {j : ι} (listed : j ∈ batches.flatten) (different : j ≠ i) :
      (spec.contracts j).rely st.shared (change st.shared) :=
    compatible.others i member j listed different.symm _ _ promise
  constructor
  case located =>
    obtain ⟨before, sent, whole, started, some_sent, within⟩ := located.amid_of_busy begun runs
    exact .amid before sent whole started some_sent (compatible.keeps i member _ _ promise within)
  case running =>
    intro j listed
    by_cases same : j = i
    next =>
      subst same
      simpa using fun _ => onwards
    next =>
      simpa [Function.update_of_ne same] using fun going =>
        (running j listed going).later (stable (located.member listed) same)
  case ended =>
    intro j listed
    by_cases same : j = i
    next =>
      subst same
      simp only [Function.update_self]
      intro finished
      exact onwards.ended finished
    next =>
      simpa [Function.update_of_ne same] using fun done =>
        compatible.ends j (located.member listed) _ _ (ended j listed done)
          ((spec.contracts j).relyAbsent (stable (located.member listed) same))
  case waiting =>
    intro j listed idle
    have different : j ≠ i := fun same => idle (same ▸ begun)
    obtain ⟨unbegun, bears⟩ := waiting j listed idle
    exact ⟨(Function.update_of_ne different _ _).trans unbegun, (spec.contracts j).absentTrans bears
      ((spec.contracts j).relyAbsent (stable listed different))⟩
  case moved => exact moved.tail (.inr (.inr ⟨i, member, promise⟩))

omit [DecidableEq ι] in
theorem Sound.quietly {next : σ} (compatible : Compatible main tasks spec shared batches)
    (sound : Sound main spec shared batches st) (quiet : st.busy = 0)
    (bears : ∀ i ∈ batches.flatten, (spec.contracts i).absent st.shared next)
    (moves : next = main.begins st.shared ∨ ∃ count, main.prepares count st.shared = some next)
    {prepared : Bool} {current : List ι} {later : List (List ι)}
    (located : Located spec batches { st with
      shared := next, prepared := prepared, current := current, later := later }) :
    Sound main spec shared batches { st with
      shared := next, prepared := prepared, current := current, later := later } where
  located := located
  running i begun runs := by simp [busy_eq_zero.mp quiet i begun] at runs
  ended i begun done :=
    compatible.ends i (located.member begun) _ _ (sound.ended i begun done)
      (bears i (located.member begun))
  waiting i listed idle :=
    ⟨(sound.waiting i listed idle).1,
      (spec.contracts i).absentTrans (sound.waiting i listed idle).2 (bears i listed)⟩
  moved := sound.moved.tail (or_assoc.mp (.inl moves))

omit [DecidableEq ι] in
theorem Located.batch (compatible : Compatible main tasks spec shared batches)
    (located : Located spec batches st) {batch : List ι} {later : List (List ι)}
    (at_ : st.later = batch :: later) (all : st.current = []) (done : st.busy = 0) :
    Located spec batches { st with
      shared := main.begins st.shared, prepared := false, current := batch, later := later } := by
  cases located with
  | unbegun whole none started between =>
    refine .first [] (by simp [whole, at_]) started done (fun _ => ?_) (by simp)
    rw [started]
    exact compatible.between 0 _ (.inl between)
  | first before whole started quiet between within =>
    refine .first (before ++ [[]]) (by simp [whole, at_, all]) (by simp [started]) done
      (fun _ => compatible.between _ _ ?_) (by simp)
    cases now : st.prepared with
    | false => exact .inl (between now)
    | true => exact .inr (within now)
  | amid before sent whole started _ within =>
    exact .first (before ++ [sent]) (by simp [whole, at_, all]) (by simp [started]) done
      (fun _ => compatible.between _ _ (.inr within)) (by simp)

omit [DecidableEq ι] in
theorem Sound.prepare (compatible : Compatible main tasks spec shared batches)
    (sound : Sound main spec shared batches st) {i : ι} {rest : List ι} {next : σ}
    (at_ : st.current = i :: rest) (unprepared : st.prepared = false)
    (prepares : main.prepares st.started.length st.shared = some next) :
    Sound main spec shared batches { st with shared := next, prepared := true } := by
  cases sound.located with
  | unbegun _ none => simp [none] at at_
  | first before whole started quiet between =>
    have member : i ∈ batches.flatten := by simp [whole, at_]
    obtain ⟨found, same, within⟩ := compatible.first i member _ _ (between unprepared)
    obtain rfl := Option.some.inj (same.symm.trans prepares)
    have bears (i : ι) (listed : i ∈ batches.flatten) :=
      compatible.prepares i listed _ _ _ prepares
    exact sound.quietly compatible quiet bears (.inr ⟨_, prepares⟩)
      (.first before whole started quiet (by simp) fun _ => within)
  | amid before sent whole started some_sent within =>
    have still := compatible.calm before sent i rest st.later (at_ ▸ whole) some_sent st.shared
    rw [← started] at still
    obtain rfl := Option.some.inj (still.symm.trans prepares)
    exact ⟨.amid before sent whole started some_sent within, sound.running, sound.ended,
      sound.waiting, sound.moved⟩

theorem Sound.take (compatible : Compatible main tasks spec shared batches)
    (sound : Sound main spec shared batches st) {i : ι} {rest : List ι}
    (at_ : st.current = i :: rest) (prepared : st.prepared = true) :
    Sound main spec shared batches { st with
      progs := Function.update st.progs i (tasks i st.shared)
      started := st.started ++ [i]
      prepared := false
      current := rest } := by
  obtain ⟨located, running, ended, waiting, moved⟩ := sound
  have names := located.names
  rw [at_] at names
  have member : i ∈ batches.flatten := by simp [names]
  have fresh : i ∉ st.started := by
    have distinct := compatible.distinct
    rw [names] at distinct
    exact fun begun => List.disjoint_of_nodup_append distinct begun (by simp)
  have within : spec.within st.shared := by
    cases located with
    | unbegun _ none => simp [none] at at_
    | first _ _ _ _ _ within => exact within prepared
    | amid _ _ _ _ _ within => exact within
  have others {j : ι} (begun : j ∈ st.started) : j ≠ i := fun same => fresh (same ▸ begun)
  have begins := compatible.starts i member _ (waiting i member fresh).2 within
  constructor
  case located =>
    cases located with
    | unbegun _ none => simp [none] at at_
    | first before whole started =>
      exact .amid before [i] (by simpa [at_] using whole) (by simp [started])
        (by simp) within
    | amid before sent whole started =>
      exact .amid before (sent ++ [i]) (by simpa [at_] using whole)
        (by simp [started]) (by simp) within
  case running =>
    intro j listed
    rcases List.mem_append.mp listed with begun | new
    · simpa [Function.update_of_ne (others begun)] using running j begun
    · obtain rfl := List.mem_singleton.mp new
      simpa using fun _ => begins
  case ended =>
    intro j listed
    rcases List.mem_append.mp listed with begun | new
    · simpa [Function.update_of_ne (others begun)] using ended j begun
    · obtain rfl := List.mem_singleton.mp new
      simpa using begins.ended
  case waiting =>
    intro j listed idle
    simp only [List.mem_append, List.mem_singleton, not_or] at idle
    obtain ⟨unbegun, bears⟩ := waiting j listed idle.1
    exact ⟨(Function.update_of_ne idle.2 _ _).trans unbegun, bears⟩
  case moved => exact moved

theorem Step.sound (compatible : Compatible main tasks spec shared batches)
    (sound : Sound main spec shared batches st) (step : Step numWorkers main tasks st st') :
    Sound main spec shared batches st' := by
  cases step with
  | act begun at_ => exact sound.act compatible begun at_
  | batch at_ all done =>
    exact sound.quietly compatible done (fun i listed => compatible.begins i listed _) (.inl rfl)
      (sound.located.batch compatible at_ all done)
  | prepare at_ unprepared prepares => exact sound.prepare compatible at_ unprepared prepares
  | take at_ prepared idle => exact sound.take compatible at_ prepared

/-- The rule for programs that run side by side. -/
theorem reachable_sound (compatible : Compatible main tasks spec shared batches)
    (between : spec.between 0 shared)
    (reachable : (system numWorkers main tasks shared batches).Reachable st) :
    Sound main spec shared batches st := by
  apply reachable.invariant
  · rintro state rfl
    refine ⟨.unbegun rfl rfl rfl between, by simp [start], by simp [start], fun i _ _ => ?_, .refl⟩
    exact ⟨rfl, (spec.contracts i).relyAbsent ((spec.contracts i).relyRefl shared)⟩
  · exact fun state state' sound step => step.sound compatible sound

def Done (st : PoolRun ι σ ε) : Prop :=
  st.current = [] ∧ st.later = [] ∧ ∀ i ∈ st.started, (st.progs i).finished = true

theorem busy_le (distinct : batches.flatten.Nodup)
    (reachable : (system numWorkers main tasks shared batches).Reachable st) :
    st.busy ≤ numWorkers := by
  have both : st.busy ≤ numWorkers ∧
      batches.flatten = st.started ++ (st.current ++ st.later.flatten) := by
    apply reachable.invariant
    · rintro state rfl
      simp [start, busy]
    rintro state state' ⟨bound, names⟩ step
    cases step with
    | @act i change next begun at_ =>
      refine ⟨(List.countP_mono_left fun j _ still => ?_).trans bound, names⟩
      by_cases same : j = i
      next => simp [same, at_, Prog.finished]
      next => simpa [Function.update_of_ne same] using still
    | batch at_ all done => exact ⟨bound, by simp [names, at_, all]⟩
    | prepare at_ unprepared prepares => exact ⟨bound, names⟩
    | @take i rest at_ prepared idle =>
      have fresh : i ∉ state.started := by
        rw [names, at_] at distinct
        exact fun begun => List.disjoint_of_nodup_append distinct begun (by simp)
      refine ⟨?_, by simp [names, at_]⟩
      let now (j : ι) : Bool :=
        !(Function.update state.progs i (tasks i state.shared) j).finished
      have old : state.started.countP now = state.busy := by
        apply List.countP_congr
        intro j begun
        have different : j ≠ i := fun same => fresh (same ▸ begun)
        simp only [now, Function.update_of_ne different]
      have one : [i].countP now ≤ 1 := List.countP_le_length
      change (state.started ++ [i]).countP now ≤ numWorkers
      rw [List.countP_append, old]
      omega
  exact both.1

omit [DecidableEq ι] in
theorem Sound.not_failed (sound : Sound main spec shared batches st) {i : ι}
    (member : i ∈ batches.flatten) : (st.progs i).failed = false := by
  by_cases begun : i ∈ st.started
  next =>
    cases finished : (st.progs i).finished with
    | false => exact (sound.running i begun finished).not_failed
    | true => cases at_ : st.progs i <;> simp_all [Prog.failed, Prog.finished]
  next =>
    rw [(sound.waiting i member begun).1]
    rfl

abbrev Moves (numWorkers : Nat) (main : Main σ) (tasks : ι → σ → Prog σ ε Unit) :
    PoolRun ι σ ε → PoolRun ι σ ε → Prop :=
  Relation.ReflTransGen (Step numWorkers main tasks)

theorem Sound.moves (compatible : Compatible main tasks spec shared batches)
    (sound : Sound main spec shared batches st) (moves : Moves numWorkers main tasks st st') :
    Sound main spec shared batches st' := by
  induction moves with
  | refl => exact sound
  | tail _ step ih => exact step.sound compatible ih

-- Nothing else than the programs and the shared state has changed.
structure SameMain (st st' : PoolRun ι σ ε) : Prop where
  started : st'.started = st.started
  prepared : st'.prepared = st.prepared
  current : st'.current = st.current
  later : st'.later = st.later

theorem Sound.finish (numWorkers : Nat)
    (compatible : Compatible main tasks spec shared batches)
    (sound : Sound main spec shared batches st) {i : ι} (begun : i ∈ st.started) :
    ∃ last, Moves numWorkers main tasks st last ∧ SameMain st last ∧
      (last.progs i).finished = true ∧ ∀ j, j ≠ i → last.progs j = st.progs j := by
  induction at_ : st.progs i generalizing st with
  | ret value => exact ⟨st, .refl, ⟨rfl, rfl, rfl, rfl⟩, by simp [at_, Prog.finished], by simp⟩
  | fail error =>
    simpa [at_, Prog.failed] using sound.not_failed (sound.located.member begun)
  | act change next ih =>
    have step : Step numWorkers main tasks st { st with
        shared := change st.shared
        progs := Function.update st.progs i (next st.shared) } := .act begun at_
    obtain ⟨last, moves, same, finished, others⟩ :=
      ih st.shared (sound.moves compatible (.single step)) begun (by simp)
    refine ⟨last, .head step moves, ⟨same.started, same.prepared, same.current, same.later⟩,
      finished, fun j different => ?_⟩
    rw [others j different]
    exact Function.update_of_ne different _ _

theorem Sound.finishAll (numWorkers : Nat)
    (compatible : Compatible main tasks spec shared batches)
    (sound : Sound main spec shared batches st) :
    ∃ last, Moves numWorkers main tasks st last ∧ SameMain st last ∧ last.busy = 0 := by
  have some_of (begun : List ι) (inside : ∀ i ∈ begun, i ∈ st.started) :
      ∃ last, Moves numWorkers main tasks st last ∧ SameMain st last ∧
        ∀ i ∈ begun, (last.progs i).finished = true := by
    induction begun with
    | nil => exact ⟨st, .refl, ⟨rfl, rfl, rfl, rfl⟩, by simp⟩
    | cons i rest ih =>
      obtain ⟨middle, moves, same, done⟩ :=
        ih fun j member => inside j (List.mem_cons_of_mem i member)
      obtain ⟨last, more, same', finished, others⟩ :=
        (sound.moves compatible moves).finish numWorkers compatible
          (same.started ▸ inside i (by simp))
      refine ⟨last, moves.trans more, ⟨same'.started.trans same.started,
        same'.prepared.trans same.prepared, same'.current.trans same.current,
        same'.later.trans same.later⟩, fun j member => ?_⟩
      by_cases equal : j = i
      next => exact equal ▸ finished
      next =>
        rw [others j equal]
        exact done j ((List.mem_cons.mp member).resolve_left equal)
  obtain ⟨last, moves, same, done⟩ := some_of st.started fun _ member => member
  exact ⟨last, moves, same, busy_eq_zero.mpr (same.started ▸ done)⟩

theorem Sound.prepares (numWorkers : Nat)
    (compatible : Compatible main tasks spec shared batches)
    (sound : Sound main spec shared batches st) {i : ι} {rest : List ι}
    (at_ : st.current = i :: rest) :
    ∃ next, Moves numWorkers main tasks st { st with shared := next, prepared := true } := by
  cases prepared : st.prepared with
  | true => exact ⟨st.shared, prepared ▸ .refl⟩
  | false =>
    have found : ∃ next, main.prepares st.started.length st.shared = some next := by
      cases sound.located with
      | unbegun _ none => simp [none] at at_
      | first _ whole _ _ between =>
        have member : i ∈ batches.flatten := by simp [whole, at_]
        obtain ⟨next, run, -⟩ := compatible.first i member _ _ (between prepared)
        exact ⟨next, run⟩
      | amid before sent whole started some_sent =>
        rw [started]
        exact ⟨_, compatible.calm before sent i rest st.later (at_ ▸ whole) some_sent st.shared⟩
    obtain ⟨next, run⟩ := found
    exact ⟨next, .single (.prepare at_ prepared run)⟩

theorem Sound.completes (compatible : Compatible main tasks spec shared batches)
    (sound : Sound main spec shared batches st) (some_workers : 0 < numWorkers) :
    ∃ last, Moves numWorkers main tasks st last ∧ last.Done := by
  -- The programs still to be taken on, then the batches.
  induction amount : st.current.length + st.later.flatten.length + st.later.length
    using Nat.strongRecOn generalizing st with
  | ind left ih =>
    obtain ⟨quiet, moves, same, idle⟩ := sound.finishAll numWorkers compatible
    have onwards {next : PoolRun ι σ ε} (reached : Moves numWorkers main tasks quiet next)
        (less : next.current.length + next.later.flatten.length + next.later.length < left) :
        ∃ last, Moves numWorkers main tasks st last ∧ last.Done := by
      obtain ⟨last, more, done⟩ :=
        ih _ less (sound.moves compatible (moves.trans reached)) rfl
      exact ⟨last, (moves.trans reached).trans more, done⟩
    cases now : quiet.current with
    | cons i rest =>
      obtain ⟨next, ready⟩ :=
        (sound.moves compatible moves).prepares numWorkers compatible now
      have few : quiet.busy < numWorkers := by omega
      apply onwards (ready.tail (.take now rfl few))
      have shorter : st.current = i :: rest := same.current.symm.trans now
      simp only [shorter, List.length_cons] at amount
      simp only [same.later]
      omega
    | nil =>
      cases after : quiet.later with
      | cons batch rest =>
        apply onwards (.single (.batch after now idle))
        have shorter : st.later = batch :: rest := same.later.symm.trans after
        simp only [shorter, List.flatten_cons, List.length_append, List.length_cons] at amount
        simp only
        omega
      | nil => exact ⟨quiet, moves, now, after, busy_eq_zero.mp idle⟩

omit [DecidableEq ι] in
theorem Sound.post (sound : Sound main spec shared batches st) (done : st.Done) {i : ι}
    (member : i ∈ batches.flatten) : spec.post i st.shared := by
  have begun : i ∈ st.started := by
    rw [sound.located.names] at member
    simpa [done.1, done.2.1] using member
  exact sound.ended i begun (done.2.2 i begun)

end PoolRun
