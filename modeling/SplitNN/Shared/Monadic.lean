import Mathlib.Data.List.Basic

set_option autoImplicit false

-- Loops over `Option` and `Except`: when they succeed, and which errors they cannot end with.
namespace Monadic

section Options

variable {α β : Type}

theorem mapM_found {f : α → Option β} (items : List α)
    (found : ∀ item ∈ items, ∃ value, f item = some value) :
    ∃ values, items.mapM f = some values ∧ values.length = items.length := by
  induction items with
  | nil => exact ⟨[], rfl, rfl⟩
  | cons item rest ih =>
    have ⟨value, first⟩ := found item (by simp)
    have ⟨values, later, length⟩ := ih fun other member =>
      found other (List.mem_cons_of_mem item member)
    exact ⟨value :: values, by simp [List.mapM_cons, first, later], by simp [length]⟩

theorem mapM_eq_some {f : α → Option β} {items : List α} {values : List β} :
    items.mapM f = some values ↔ items.map f = values.map some := by
  induction items generalizing values with
  | nil => cases values <;> simp
  | cons item rest ih =>
    rw [List.mapM_cons]
    simp only [Option.bind_eq_bind, Option.bind_eq_some_iff, Option.pure_def, Option.some.injEq, ih]
    constructor
    · intro ⟨value, first, later, same, whole⟩
      simp [← whole, first, same]
    · intro same
      cases values with
      | nil => simp at same
      | cons value later =>
        simp only [List.map_cons, List.cons.injEq] at same
        exact ⟨value, same.1, later, same.2, rfl⟩

theorem mapM_some_each {f : α → Option β} {items : List α} {values : List β}
    (run : items.mapM f = some values) {item : α} (member : item ∈ items) :
    ∃ value ∈ values, f item = some value := by
  have listed := List.mem_map_of_mem (f := f) member
  rw [mapM_eq_some.mp run] at listed
  have ⟨value, found, equal⟩ := List.mem_map.mp listed
  exact ⟨value, found, equal.symm⟩

variable {σ : Type}

theorem foldlM_some_each {step : σ → α → Option σ} {xs : List α} {st st' : σ}
    (run : xs.foldlM step st = some st') {x : α} (member : x ∈ xs) :
    ∃ before after, step before x = some after := by
  induction xs generalizing st with
  | nil => cases member
  | cons head rest ih =>
    rw [List.foldlM_cons, Option.bind_eq_bind, Option.bind_eq_some_iff] at run
    have ⟨next, first, later⟩ := run
    rcases List.mem_cons.mp member with rfl | inRest
    · exact ⟨st, next, first⟩
    · exact ih later inRest

theorem foldlM_some_keeps {P : σ → Prop} {step : σ → α → Option σ} {xs : List α}
    (each : ∀ st x st', P st → step st x = some st' → P st') {st st' : σ} (start : P st)
    (run : xs.foldlM step st = some st') : P st' := by
  induction xs generalizing st with
  | nil => exact Option.some.inj run ▸ start
  | cons x rest ih =>
    rw [List.foldlM_cons, Option.bind_eq_bind, Option.bind_eq_some_iff] at run
    have ⟨next, first, later⟩ := run
    exact ih (each st x next start first) later

end Options

section Loops

variable {m : Type → Type} [Monad m] [LawfulMonad m] {α β σ : Type}

theorem foldlM_pairs (step : σ → α × β → m σ) (xs : List α) (ys : List β) (st : σ) :
    xs.foldlM (fun st x => ys.foldlM (fun st y => step st (x, y)) st) st =
      (xs.flatMap fun x => ys.map fun y => (x, y)).foldlM step st := by
  induction xs generalizing st with
  | nil => rfl
  | cons x rest ih =>
    simp only [List.foldlM_cons, List.flatMap_cons, List.foldlM_append, List.foldlM_map, ih]

end Loops

section Errors

variable {σ τ ε α : Type} {e : ε}

theorem bind_ne_error {x : Except ε σ} {f : σ → Except ε τ} (first : x ≠ .error e)
    (later : ∀ value, f value ≠ .error e) : (x >>= f) ≠ .error e := by
  cases made : x with
  | error other => simpa [made, bind, Except.bind] using first
  | ok value => exact later value

theorem foldlM_ne_error {step : σ → α → Except ε σ} {xs : List α}
    (each : ∀ st, ∀ x ∈ xs, step st x ≠ .error e) (st : σ) : xs.foldlM step st ≠ .error e := by
  induction xs generalizing st with
  | nil => simp [pure, Except.pure]
  | cons x rest ih =>
    rw [List.foldlM_cons]
    exact bind_ne_error (each st x (by simp))
      (ih fun st y member => each st y (List.mem_cons_of_mem x member))

theorem bind_only {x : Except ε σ} {f : σ → Except ε τ}
    (only : ∀ raised, (x >>= f) = .error raised → raised = e) (never : x ≠ .error e) :
    ∃ value, x = .ok value ∧ (x >>= f) = f value ∧
      ∀ raised, f value = .error raised → raised = e := by
  cases made : x with
  | error raised =>
    rw [made] at only
    exact absurd (only raised rfl ▸ made) never
  | ok value =>
    rw [made] at only
    exact ⟨value, rfl, rfl, only⟩

theorem bind_eq_ok {x : Except ε σ} {f : σ → Except ε τ} {last : τ} :
    (x >>= f) = .ok last ↔ ∃ value, x = .ok value ∧ f value = .ok last := by
  cases x with
  | error other => simp [bind, Except.bind]
  | ok value => simp [bind, Except.bind]

theorem bind_eq_error {x : Except ε σ} {f : σ → Except ε τ} :
    (x >>= f) = .error e ↔ x = .error e ∨ ∃ value, x = .ok value ∧ f value = .error e := by
  cases x with
  | error other => simp [bind, Except.bind]
  | ok value => simp [bind, Except.bind]

theorem foldlM_keeps {P : σ → Prop} {step : σ → α → Except ε σ} {xs : List α}
    (each : ∀ st x st', P st → x ∈ xs → step st x = .ok st' → P st') {st st' : σ} (start : P st)
    (run : xs.foldlM step st = .ok st') : P st' := by
  induction xs generalizing st with
  | nil => exact Except.ok.inj run ▸ start
  | cons x rest ih =>
    rw [List.foldlM_cons] at run
    have ⟨next, first, later⟩ := bind_eq_ok.mp run
    exact ih (fun st y st' holds member => each st y st' holds (List.mem_cons_of_mem x member))
      (each st x next start (by simp) first) later

theorem foldlM_eq_error {step : σ → α → Except ε σ} {raises : α → ε → Prop}
    (each : ∀ st x error, step st x = .error error ↔ raises x error) {xs : List α} {st : σ} :
    xs.foldlM step st = .error e ↔ ∃ before x after, xs = before ++ x :: after ∧
      (∀ earlier ∈ before, ∀ error, ¬ raises earlier error) ∧ raises x e := by
  induction xs generalizing st with
  | nil => simp [pure, Except.pure]
  | cons head rest ih =>
    rw [List.foldlM_cons]
    cases first : step st head with
    | error raised =>
      have raising := (each st head raised).mp first
      constructor
      · intro same
        cases same
        exact ⟨[], head, rest, rfl, by simp, raising⟩
      · intro ⟨before, x, after, whole, quiet, last⟩
        cases before with
        | nil =>
          cases whole
          have same := first.symm.trans ((each st head e).mpr last)
          cases same
          rfl
        | cons earlier later =>
          cases whole
          exact absurd raising (quiet head (by simp) raised)
    | ok next =>
      have calm (error : ε) : ¬ raises head error := by
        rw [← each st head error, first]
        simp
      refine Iff.trans ih ?_
      constructor
      · intro ⟨before, x, after, whole, quiet, last⟩
        refine ⟨head :: before, x, after, by simp [whole], ?_, last⟩
        intro earlier member
        rcases List.mem_cons.mp member with rfl | inBefore
        · exact calm
        · exact quiet earlier inBefore
      · intro ⟨before, x, after, whole, quiet, last⟩
        cases before with
        | nil =>
          cases whole
          exact absurd last (calm e)
        | cons earlier later =>
          cases whole
          exact ⟨later, x, after, rfl,
            fun y member => quiet y (List.mem_cons_of_mem head member), last⟩

theorem foldlM_eq_ok {step : σ → α → Except ε σ} {raises : α → ε → Prop}
    (each : ∀ st x error, step st x = .error error ↔ raises x error) {xs : List α} {st : σ} :
    (∃ last, xs.foldlM step st = .ok last) ↔ ∀ x ∈ xs, ∀ error, ¬ raises x error := by
  constructor
  · intro ⟨last, run⟩ x member error raised
    induction xs generalizing st with
    | nil => cases member
    | cons head rest ih =>
      rw [List.foldlM_cons] at run
      have ⟨next, first, later⟩ := bind_eq_ok.mp run
      rcases List.mem_cons.mp member with rfl | inRest
      · rw [(each st x error).mpr raised] at first
        cases first
      · exact ih later inRest
  · intro quiet
    cases run : xs.foldlM step st with
    | ok last => exact ⟨last, rfl⟩
    | error raised =>
      have ⟨before, x, after, whole, _, raising⟩ := (foldlM_eq_error each).mp run
      exact absurd raising (quiet x (by simp [whole]) raised)

theorem foldlM_raises {step : σ → α → Except ε σ} {raises : α → ε → Prop}
    (each : ∀ st x error, step st x = .error error ↔ raises x error) {before after : List α} {x : α}
    (only : ∀ y ∈ before, ∀ error, raises y error → error = e) (last : raises x e) (st : σ) :
    (before ++ x :: after).foldlM step st = .error e := by
  induction before generalizing st with
  | nil =>
    rw [List.nil_append, List.foldlM_cons, (each st x e).mpr last]
    rfl
  | cons y rest ih =>
    rw [List.cons_append, List.foldlM_cons]
    cases first : step st y with
    | error raised =>
      cases only y (by simp) raised ((each st y raised).mp first)
      rfl
    | ok next => exact ih (fun z member => only z (List.mem_cons_of_mem y member)) next

theorem mapM_eq_ok {f : α → Except ε σ} {items : List α} {values : List σ} :
    items.mapM f = .ok values ↔ items.map f = values.map .ok := by
  induction items generalizing values with
  | nil => cases values <;> simp [pure, Except.pure]
  | cons item rest ih =>
    rw [List.mapM_cons, bind_eq_ok]
    simp only [bind_eq_ok, ih]
    constructor
    · intro ⟨value, first, later, same, whole⟩
      cases whole
      simp [first, same]
    · intro same
      cases values with
      | nil => simp at same
      | cons value later =>
        simp only [List.map_cons, List.cons.injEq] at same
        exact ⟨value, same.1, later, same.2, rfl⟩

theorem mapM_ok_each {f : α → Except ε σ} {items : List α} {values : List σ}
    (run : items.mapM f = .ok values) {item : α} (member : item ∈ items) :
    ∃ value ∈ values, f item = .ok value := by
  have listed := List.mem_map_of_mem (f := f) member
  rw [mapM_eq_ok.mp run] at listed
  have ⟨value, found, equal⟩ := List.mem_map.mp listed
  exact ⟨value, found, equal.symm⟩

theorem mapM_ok {f : α → Except ε σ} (items : List α)
    (found : ∀ item ∈ items, ∃ value, f item = .ok value) :
    ∃ values, items.mapM f = .ok values := by
  induction items with
  | nil => exact ⟨[], rfl⟩
  | cons item rest ih =>
    have ⟨value, first⟩ := found item (by simp)
    have ⟨values, later⟩ := ih fun other member => found other (List.mem_cons_of_mem item member)
    refine ⟨value :: values, ?_⟩
    rw [List.mapM_cons, first, later]
    rfl

@[simp] theorem toOption_ok (value : σ) : (Except.ok value : Except ε σ).toOption = some value :=
  rfl

@[simp] theorem toOption_pure (value : σ) : (pure value : Except ε σ).toOption = some value := rfl

@[simp] theorem toOption_bind (x : Except ε σ) (f : σ → Except ε τ) :
    (x >>= f).toOption = x.toOption.bind fun value => (f value).toOption := by
  cases x <;> rfl

theorem toOption_foldlM {step : σ → α → Except ε σ} {step' : σ → α → Option σ}
    (each : ∀ st x, (step st x).toOption = step' st x) (xs : List α) (st : σ) :
    (xs.foldlM step st).toOption = xs.foldlM step' st := by
  induction xs generalizing st with
  | nil => rfl
  | cons x rest ih =>
    rw [List.foldlM_cons, List.foldlM_cons, toOption_bind, each]
    congr 1
    funext next
    exact ih next

theorem toOption_eq_some {x : Except ε σ} {value : σ} :
    x.toOption = some value ↔ x = .ok value := by
  cases x <;> simp [Except.toOption]

end Errors

end Monadic
