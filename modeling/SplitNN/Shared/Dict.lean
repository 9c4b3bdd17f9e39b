import Mathlib

set_option autoImplicit false

universe u v w

/-- A finite map that remembers the order in which its keys were first stored. -/
structure Dict (κ : Type u) (ν : Type v) where
  entries : List (κ × ν)
  distinct : (entries.map Prod.fst).Nodup
  deriving DecidableEq

namespace Dict

variable {κ : Type u} {ν : Type v}

def keys (d : Dict κ ν) : List κ := d.entries.map Prod.fst

def values (d : Dict κ ν) : List ν := d.entries.map Prod.snd

def empty : Dict κ ν := ⟨[], by simp⟩

theorem keys_nodup (d : Dict κ ν) : d.keys.Nodup := d.distinct

@[simp] theorem keys_empty : (empty : Dict κ ν).keys = [] := rfl

variable [DecidableEq κ]

def get? (d : Dict κ ν) (key : κ) : Option ν := d.entries.lookup key

def getD (d : Dict κ ν) (key : κ) (default : ν) : ν := (d.get? key).getD default

theorem lookup_cons_if (key head : κ) (value : ν) (rest : List (κ × ν)) :
    ((head, value) :: rest).lookup key = if key = head then some value else rest.lookup key := by
  by_cases same : key = head
  · simp [same]
  · have test : (key == head) = false := beq_eq_false_iff_ne.mpr same
    simp only [List.lookup_cons, test, same, if_false]

def setEntries (key : κ) (value : ν) : List (κ × ν) → List (κ × ν)
  | [] => [(key, value)]
  | (other, old) :: rest =>
    if other = key then (key, value) :: rest else (other, old) :: setEntries key value rest

theorem setEntries_keys (key : κ) (value : ν) (entries : List (κ × ν)) :
    (setEntries key value entries).map Prod.fst =
      if key ∈ entries.map Prod.fst then entries.map Prod.fst
      else entries.map Prod.fst ++ [key] := by
  induction entries with
  | nil => simp [setEntries]
  | cons entry rest ih =>
    obtain ⟨other, old⟩ := entry
    by_cases same : other = key
    · subst same
      simp [setEntries]
    · by_cases present : key ∈ rest.map Prod.fst <;>
        simp_all [setEntries, Ne.symm same]

theorem setEntries_lookup (key other : κ) (value : ν) (entries : List (κ × ν)) :
    (setEntries key value entries).lookup other =
      if other = key then some value else entries.lookup other := by
  induction entries with
  | nil => simp [setEntries, lookup_cons_if]
  | cons entry rest ih =>
    obtain ⟨head, old⟩ := entry
    by_cases hit : head = key
    · subst hit
      by_cases same : other = head <;> simp [setEntries, lookup_cons_if, same]
    · by_cases here : other = head
      · subst here
        simp [setEntries, hit]
      · simp [setEntries, lookup_cons_if, hit, here, ih]

def set (d : Dict κ ν) (key : κ) (value : ν) : Dict κ ν :=
  ⟨setEntries key value d.entries, by
    rw [setEntries_keys]
    split
    · exact d.distinct
    · rename_i absent
      exact List.Nodup.append d.distinct (by simp) (by simpa using absent)⟩

def modify? (d : Dict κ ν) (key : κ) (f : ν → ν) : Option (Dict κ ν) :=
  (d.get? key).map fun value => d.set key (f value)

def adjust (d : Dict κ ν) (key : κ) (f : ν → ν) : Dict κ ν :=
  (d.modify? key f).getD d

def update (d e : Dict κ ν) : Dict κ ν :=
  e.entries.foldl (fun current entry => current.set entry.1 entry.2) d

def ofEntries (entries : List (κ × ν)) : Dict κ ν :=
  entries.foldl (fun current entry => current.set entry.1 entry.2) empty

def ofKeys (keys : List κ) (f : κ → ν) : Dict κ ν :=
  keys.foldl (fun current key => current.set key (f key)) empty

@[simp] theorem get?_empty (key : κ) : (empty : Dict κ ν).get? key = none := rfl

theorem get?_set (d : Dict κ ν) (key other : κ) (value : ν) :
    (d.set key value).get? other = if other = key then some value else d.get? other :=
  setEntries_lookup key other value d.entries

@[simp] theorem get?_set_self (d : Dict κ ν) (key : κ) (value : ν) :
    (d.set key value).get? key = some value := by
  simp [get?_set]

theorem get?_set_other (d : Dict κ ν) {key other : κ} (value : ν) (different : other ≠ key) :
    (d.set key value).get? other = d.get? other := by
  simp [get?_set, different]

theorem keys_set (d : Dict κ ν) (key : κ) (value : ν) :
    (d.set key value).keys = if key ∈ d.keys then d.keys else d.keys ++ [key] :=
  setEntries_keys key value d.entries

theorem mem_keys_set {d : Dict κ ν} {key other : κ} {value : ν} :
    other ∈ (d.set key value).keys ↔ other ∈ d.keys ∨ other = key := by
  rw [keys_set]
  split
  next known => exact ⟨.inl, fun given => given.elim id fun same => same ▸ known⟩
  next => simp

theorem get?_isSome (d : Dict κ ν) (key : κ) : (d.get? key).isSome ↔ key ∈ d.keys := by
  simp only [get?, keys, List.lookup_isSome_iff, beq_iff_eq, List.mem_map]
  constructor
  · intro given
    rcases given with ⟨entry, member, same⟩
    exact ⟨entry, member, same.symm⟩
  · intro given
    rcases given with ⟨entry, member, same⟩
    exact ⟨entry, member, same.symm⟩

theorem get?_eq_none (d : Dict κ ν) (key : κ) : d.get? key = none ↔ key ∉ d.keys := by
  rw [← get?_isSome, Bool.not_eq_true, Option.isSome_eq_false_iff, Option.isNone_iff_eq_none]

theorem exists_get? (d : Dict κ ν) {key : κ} (member : key ∈ d.keys) :
    ∃ value, d.get? key = some value :=
  Option.isSome_iff_exists.mp ((d.get?_isSome key).mpr member)

theorem mem_keys_of_get? {d : Dict κ ν} {key : κ} {value : ν} (found : d.get? key = some value) :
    key ∈ d.keys := by
  rw [← get?_isSome, found]
  rfl

theorem lookup_eq_some_iff_mem {entries : List (κ × ν)} (distinct : (entries.map Prod.fst).Nodup)
    (key : κ) (value : ν) : entries.lookup key = some value ↔ (key, value) ∈ entries := by
  induction entries with
  | nil => simp
  | cons entry rest ih =>
    obtain ⟨head, old⟩ := entry
    simp only [List.map_cons, List.nodup_cons] at distinct
    by_cases same : key = head
    · subst same
      have absent : (key, value) ∉ rest := fun member =>
        distinct.1 (List.mem_map.mpr ⟨_, member, rfl⟩)
      simp [absent, eq_comm]
    · simp [lookup_cons_if, same, ih distinct.2]

theorem get?_eq_some (d : Dict κ ν) (key : κ) (value : ν) :
    d.get? key = some value ↔ (key, value) ∈ d.entries :=
  lookup_eq_some_iff_mem d.distinct key value

theorem mem_values (d : Dict κ ν) (value : ν) :
    value ∈ d.values ↔ ∃ key, d.get? key = some value := by
  simp [values, get?_eq_some]

theorem entries_eq_keys_map (d : Dict κ ν) (default : ν) :
    d.entries = d.keys.map fun key => (key, d.getD key default) := by
  rw [keys, List.map_map]
  refine (List.map_id d.entries).symm.trans (List.map_congr_left ?_)
  intro entry member
  rcases entry with ⟨key, value⟩
  simp [getD, (d.get?_eq_some key value).mpr member]

theorem modify?_eq_some {d : Dict κ ν} {key : κ} {value : ν} (found : d.get? key = some value)
    (f : ν → ν) : d.modify? key f = some (d.set key (f value)) := by
  simp [modify?, found]

theorem mem_keys_modify? {d d' : Dict κ ν} {key : κ} {f : ν → ν}
    (modified : d.modify? key f = some d') : key ∈ d'.keys := by
  have ⟨value, _, same⟩ := Option.map_eq_some_iff.mp modified
  exact same ▸ mem_keys_set.mpr (.inr rfl)

theorem modify?_found {d : Dict κ ν} {key : κ} (member : key ∈ d.keys) (f : ν → ν) :
    ∃ d', d.modify? key f = some d' ∧ d'.keys = d.keys ∧ ∀ other, d'.get? other =
      (d.get? other).map fun value => if other = key then f value else value := by
  obtain ⟨value, found⟩ := d.exists_get? member
  refine ⟨_, modify?_eq_some found f, by simp [keys_set, member], ?_⟩
  intro other
  rw [get?_set]
  by_cases same : other = key
  · subst same
    simp [found]
  · simp [same]

theorem foldlM_modify? {ι : Type w} (f : ι → ν → ν) (entries : List (ι × κ)) (d : Dict κ ν)
    (known : ∀ entry ∈ entries, entry.2 ∈ d.keys) :
    ∃ d', entries.foldlM (fun d entry => d.modify? entry.2 (f entry.1)) d = some d' ∧
      d'.keys = d.keys ∧ ∀ key, d'.get? key = (d.get? key).map fun value =>
        (entries.filter fun entry => decide (entry.2 = key)).foldl
          (fun value entry => f entry.1 value) value := by
  induction entries generalizing d with
  | nil =>
    refine ⟨d, rfl, rfl, fun key => ?_⟩
    cases d.get? key <;> simp
  | cons entry rest ih =>
    obtain ⟨middle, modified, keys, values⟩ := modify?_found (known entry (by simp)) (f entry.1)
    obtain ⟨last, run, laterKeys, laterValues⟩ := ih middle (by
      rw [keys]
      exact fun entry member => known entry (List.mem_cons_of_mem _ member))
    refine ⟨last, ?_, laterKeys.trans keys, fun key => ?_⟩
    · rw [List.foldlM_cons, modified]
      exact run
    · rw [laterValues, values, Option.map_map]
      congr 1
      funext value
      by_cases same : key = entry.2
      · subst same
        simp
      · simp [same, Ne.symm same]

theorem foldlM_set {κ ν : Type} [DecidableEq κ] {f : κ → Option ν} {g : κ → ν} (names : List κ)
    (found : ∀ name ∈ names, f name = some (g name)) (d : Dict κ ν) :
    names.foldlM (fun current name => do
        let value ← f name
        return current.set name value) d =
      some (names.foldl (fun current name => current.set name (g name)) d) := by
  induction names generalizing d with
  | nil => rfl
  | cons name rest ih =>
    have later := ih fun other member => found other (List.mem_cons_of_mem name member)
    simpa [found name (by simp)] using later (d.set name (g name))

theorem foldlM_modify?_keys (f : ν → ν) (d : Dict κ ν) :
    ∃ d', d.keys.foldlM (fun current key => current.modify? key f) d = some d' ∧
      d'.keys = d.keys ∧ ∀ key, d'.get? key = (d.get? key).map f := by
  have ⟨d', run, keys, values⟩ := foldlM_modify? (fun _ : Unit => f)
    (d.keys.map fun key => ((), key)) d (by simp)
  refine ⟨d', by simpa [List.foldlM_map] using run, keys, fun key => ?_⟩
  rw [values]
  cases found : d.get? key with
  | none => rfl
  | some value =>
    have once : (d.keys.filter fun other => decide (other = key)) = [key] := by
      rw [List.filter_eq, List.count_eq_one_of_mem d.keys_nodup (mem_keys_of_get? found)]
      rfl
    simp [List.filter_map, Function.comp_def, once]

theorem get?_adjust (d : Dict κ ν) (key other : κ) (f : ν → ν) :
    (d.adjust key f).get? other =
      (d.get? other).map fun value => if other = key then f value else value := by
  by_cases member : key ∈ d.keys
  next =>
    obtain ⟨d', modified, -, values⟩ := modify?_found member f
    simp only [adjust, modified, Option.getD_some, values]
  next =>
    have absent := (d.get?_eq_none key).mpr member
    by_cases same : other = key
    next =>
      subst same
      simp [adjust, modify?, absent]
    next => simp [adjust, modify?, absent, same]

theorem keys_adjust (d : Dict κ ν) (key : κ) (f : ν → ν) : (d.adjust key f).keys = d.keys := by
  by_cases member : key ∈ d.keys
  next =>
    obtain ⟨d', modified, keys, -⟩ := modify?_found member f
    simp only [adjust, modified, Option.getD_some, keys]
  next =>
    have absent := (d.get?_eq_none key).mpr member
    simp [adjust, modify?, absent]

def keysWith [DecidableEq ν] (d : Dict κ ν) (value : ν) : List κ :=
  (d.entries.filter fun entry => decide (entry.2 = value)).map Prod.fst

omit [DecidableEq κ] in
theorem keysWith_nodup [DecidableEq ν] (d : Dict κ ν) (value : ν) : (d.keysWith value).Nodup :=
  d.distinct.sublist (List.filter_sublist.map Prod.fst)

theorem mem_keysWith [DecidableEq ν] (d : Dict κ ν) (value : ν) (key : κ) :
    key ∈ d.keysWith value ↔ d.get? key = some value := by
  simp [keysWith, get?_eq_some]

theorem count_keysWith [DecidableEq ν] (d : Dict κ ν) (value : ν) (key : κ) :
    (d.keysWith value).count key = if d.get? key = some value then 1 else 0 := by
  rw [List.Nodup.count (d.keysWith_nodup value)]
  simp only [mem_keysWith]

theorem foldl_set_get? (entries : List (κ × ν)) (distinct : (entries.map Prod.fst).Nodup)
    (d : Dict κ ν) (key : κ) :
    (entries.foldl (fun current entry => current.set entry.1 entry.2) d).get? key =
      (entries.lookup key).or (d.get? key) := by
  induction entries generalizing d with
  | nil => simp
  | cons entry rest ih =>
    obtain ⟨head, value⟩ := entry
    simp only [List.map_cons, List.nodup_cons] at distinct
    rw [List.foldl_cons, ih distinct.2, get?_set, lookup_cons_if]
    by_cases same : key = head
    · subst same
      have absent : rest.lookup key = none := by
        rw [List.lookup_eq_none_iff]
        intro other member
        have differs : key ≠ other.1 := fun same =>
          distinct.1 (same ▸ List.mem_map_of_mem member)
        simpa using differs
      simp [absent]
    · simp [same]

theorem set_entries_absent (d : Dict κ ν) {key : κ} (absent : key ∉ d.keys) (value : ν) :
    (d.set key value).entries = d.entries ++ [(key, value)] := by
  obtain ⟨entries, distinct⟩ := d
  simp only [set, keys] at absent ⊢
  clear distinct
  induction entries with
  | nil => rfl
  | cons entry rest ih =>
    have different : entry.1 ≠ key := by
      intro same
      subst same
      simp at absent
    have later := ih (by
      intro member
      exact absent (List.mem_cons_of_mem _ member))
    simp [setEntries, different, later]

theorem foldl_set_entries (entries : List (κ × ν)) (d : Dict κ ν)
    (fresh : (d.keys ++ entries.map Prod.fst).Nodup) :
    (entries.foldl (fun current entry => current.set entry.1 entry.2) d).entries =
      d.entries ++ entries := by
  induction entries generalizing d with
  | nil => simp
  | cons entry rest ih =>
    have absent : entry.1 ∉ d.keys := by
      intro member
      exact (List.disjoint_of_nodup_append fresh) member (by simp)
    have grown := set_entries_absent d absent entry.2
    have grownKeys : (d.set entry.1 entry.2).keys = d.keys ++ [entry.1] := by
      simp [keys, grown]
    rw [List.foldl_cons, ih _ (by simpa [grownKeys] using fresh), grown]
    simp

theorem entries_ofEntries {entries : List (κ × ν)} (distinct : (entries.map Prod.fst).Nodup) :
    (ofEntries entries).entries = entries := by
  simpa [ofEntries, empty] using foldl_set_entries entries empty (by simpa using distinct)

theorem get?_ofEntries {entries : List (κ × ν)} (distinct : (entries.map Prod.fst).Nodup)
    (key : κ) (value : ν) :
    (ofEntries entries).get? key = some value ↔ (key, value) ∈ entries := by
  rw [get?_eq_some, entries_ofEntries distinct]

theorem mem_of_get?_ofEntries {entries : List (κ × ν)} {key : κ} {value : ν}
    (found : (ofEntries entries).get? key = some value) : (key, value) ∈ entries := by
  have run (entries : List (κ × ν)) (d : Dict κ ν)
      (found : (entries.foldl (fun current entry => current.set entry.1 entry.2) d).get? key =
        some value) : (key, value) ∈ entries ∨ d.get? key = some value := by
    induction entries generalizing d with
    | nil => exact .inr found
    | cons entry rest ih =>
      cases ih _ found with
      | inl member => exact .inl (List.mem_cons_of_mem entry member)
      | inr stored =>
        rw [get?_set] at stored
        split at stored
        next same =>
          cases same
          exact .inl (by simp [← Option.some.inj stored])
        next => exact .inr stored
  cases run entries empty found with
  | inl member => exact member
  | inr stored => cases stored

theorem get?_update (d e : Dict κ ν) (key : κ) :
    (d.update e).get? key = (e.get? key).or (d.get? key) :=
  foldl_set_get? e.entries e.distinct d key

theorem get?_merged (parts : List (Dict κ ν))
    (agree : ∀ d ∈ parts, ∀ e ∈ parts, ∀ key value value',
      d.get? key = some value → e.get? key = some value' → value = value')
    (key : κ) (value : ν) :
    (parts.foldl update empty).get? key = some value ↔ ∃ d ∈ parts, d.get? key = some value := by
  induction parts using List.reverseRecOn with
  | nil => simp
  | append_singleton parts last ih =>
    have earlier := ih fun d member e member' =>
      agree d (List.mem_append_left _ member) e (List.mem_append_left _ member')
    rw [List.foldl_append, List.foldl_cons, List.foldl_nil, get?_update]
    cases stored : last.get? key with
    | none => simp [earlier, or_and_right, exists_or, stored]
    | some own =>
      simp only [Option.some_or, Option.some.injEq]
      constructor
      · intro same
        exact ⟨last, by simp, stored.trans (congrArg some same)⟩
      · intro ⟨d, member, found⟩
        exact agree last (by simp) d member key own value stored found

theorem set_set (d : Dict κ ν) (key : κ) (old value : ν) :
    (d.set key old).set key value = d.set key value := by
  obtain ⟨entries, distinct⟩ := d
  simp only [set, mk.injEq]
  clear distinct
  induction entries with
  | nil => simp [setEntries]
  | cons entry rest ih =>
    by_cases same : entry.1 = key <;> simp [setEntries, same, ih]

theorem foldl_setKeys_get? (names : List κ) (f : κ → ν) (d : Dict κ ν) (key : κ) :
    (names.foldl (fun current name => current.set name (f name)) d).get? key =
      if key ∈ names then some (f key) else d.get? key := by
  induction names generalizing d with
  | nil => simp
  | cons head rest ih =>
    rw [List.foldl_cons, ih, get?_set]
    by_cases later : key ∈ rest
    · simp [later]
    · by_cases same : key = head <;> simp [later, same]

theorem get?_ofKeys (names : List κ) (f : κ → ν) (key : κ) :
    (ofKeys names f).get? key = if key ∈ names then some (f key) else none := by
  simp [ofKeys, foldl_setKeys_get?]

theorem foldl_setKeys_keys (names : List κ) (f : κ → ν) (d : Dict κ ν)
    (fresh : (d.keys ++ names).Nodup) :
    (names.foldl (fun current name => current.set name (f name)) d).keys = d.keys ++ names := by
  have entries := foldl_set_entries (names.map fun name => (name, f name)) d (by
    simpa [Function.comp_def] using fresh)
  rw [List.foldl_map] at entries
  simp [keys, entries, Function.comp_def]

theorem keys_ofKeys {names : List κ} (distinct : names.Nodup) (f : κ → ν) :
    (ofKeys names f).keys = names := by
  simpa [ofKeys] using foldl_setKeys_keys names f empty (by simpa using distinct)

def mapValues (d : Dict κ ν) (f : ν → ν) : Dict κ ν :=
  ⟨d.entries.map fun entry => (entry.1, f entry.2), by simpa [Function.comp_def] using d.distinct⟩

omit [DecidableEq κ] in
@[simp] theorem keys_mapValues (d : Dict κ ν) (f : ν → ν) : (d.mapValues f).keys = d.keys := by
  simp [keys, mapValues, Function.comp_def]

theorem get?_mapValues (d : Dict κ ν) (f : ν → ν) (key : κ) :
    (d.mapValues f).get? key = (d.get? key).map f := by
  simp only [get?, mapValues]
  induction d.entries with
  | nil => rfl
  | cons entry rest ih =>
    rw [List.map_cons, lookup_cons_if, lookup_cons_if, ih]
    split <;> rfl

-- `del d[key]`
def erase (d : Dict κ ν) (key : κ) : Dict κ ν :=
  ⟨d.entries.filter fun entry => decide (entry.1 ≠ key),
    d.distinct.sublist (List.filter_sublist.map Prod.fst)⟩

theorem get?_erase (d : Dict κ ν) (key other : κ) :
    (d.erase key).get? other = if other = key then none else d.get? other := by
  apply Option.ext
  intro value
  rw [get?_eq_some, erase, List.mem_filter, ← get?_eq_some]
  split
  next same => simp [same]
  next different => simp [different]

theorem mem_keys_erase {d : Dict κ ν} {key other : κ} :
    other ∈ (d.erase key).keys ↔ other ≠ key ∧ other ∈ d.keys := by
  rw [← get?_isSome, get?_erase]
  split
  next same => simp [same]
  next different => simp [different, get?_isSome]

-- A `Counter` raised by one for each element.
def countAll (xs : List κ) : Dict κ Nat :=
  xs.foldl (fun counts x => counts.set x (counts.getD x 0 + 1)) empty

theorem get?_countAll (xs : List κ) (key : κ) :
    (countAll xs).get? key = if key ∈ xs then some (xs.count key) else none := by
  induction xs using List.reverseRecOn with
  | nil => rfl
  | append_singleton xs x ih =>
    rw [countAll, List.foldl_append] at *
    simp only [List.foldl_cons, List.foldl_nil, get?_set]
    by_cases same : key = x
    next =>
      subst same
      by_cases present : key ∈ xs <;> simp_all [getD, List.count_append, List.count_eq_zero]
    next =>
      simp [same, ih, List.count_append, Ne.symm same]

theorem getD_set (d : Dict κ ν) (key other : κ) (value default : ν) :
    (d.set key value).getD other default = if other = key then value else d.getD other default := by
  unfold getD
  rw [get?_set]
  split_ifs <;> rfl

theorem getD_ensure (d : Dict κ ν) (key other : κ) (default : ν) [Decidable (key ∈ d.keys)] :
    (if key ∈ d.keys then d else d.set key default).getD other default =
      d.getD other default := by
  split
  next => rfl
  next absent =>
    rw [getD_set]
    split
    next same => rw [same, getD, (d.get?_eq_none key).mpr absent, Option.getD_none]
    next => rfl

theorem mem_keys_ensure {d : Dict κ ν} {key other : κ} {value : ν} [Decidable (key ∈ d.keys)] :
    other ∈ (if key ∈ d.keys then d else d.set key value).keys ↔
      other ∈ d.keys ∨ other = key := by
  split
  next present =>
    refine ⟨.inl, fun member => ?_⟩
    rcases member with known | same
    · exact known
    · exact same ▸ present
  next => exact mem_keys_set

theorem getD_adjust (d : Dict κ ν) {key : κ} (known : key ∈ d.keys) (other : κ) (f : ν → ν)
    (default : ν) : (d.adjust key f).getD other default =
      if other = key then f (d.getD key default) else d.getD other default := by
  have ⟨value, found⟩ := d.exists_get? known
  unfold getD
  rw [get?_adjust]
  by_cases same : other = key
  next =>
    subst same
    simp [found]
  next => simp [same]

theorem sum_values_set (d : Dict κ ν) (key : κ) (value : ν) (weight : ν → Nat) :
    ((d.set key value).values.map weight).sum + ((d.get? key).map weight).getD 0 =
      (d.values.map weight).sum + weight value := by
  obtain ⟨entries, distinct⟩ := d
  simp only [set, values, get?, List.map_map]
  clear distinct
  induction entries with
  | nil => simp [setEntries]
  | cons entry rest ih =>
    obtain ⟨head, old⟩ := entry
    by_cases same : head = key
    · subst same
      simp [setEntries]
      omega
    · simp only [setEntries, same, if_false, lookup_cons_if, Ne.symm same, List.map_cons,
        List.sum_cons]
      simp only [Function.comp] at ih ⊢
      omega

theorem setEntries_split {key : κ} (entry : κ × ν) (other : entry.1 ≠ key) (value : ν)
    (front back : List (κ × ν)) :
    ∃ front' back', setEntries key value (front ++ entry :: back) = front' ++ entry :: back' ∧
      front'.map Prod.fst = front.map Prod.fst := by
  induction front with
  | nil => exact ⟨[], setEntries key value back, by simp [setEntries, other], rfl⟩
  | cons head rest ih =>
    by_cases same : head.1 = key
    next => exact ⟨(key, value) :: rest, back, by simp [setEntries, same], by simp [same]⟩
    next =>
      obtain ⟨front', back', split, names⟩ := ih
      exact ⟨head :: front', back', by simp [setEntries, same, split], by simp [names]⟩

/-- The values number the keys: every number from `base` below `next` names exactly one key. -/
structure Numbered (d : Dict κ Nat) (base next : Nat) : Prop where
  issued : ∀ id, (∃ key, d.get? key = some id) ↔ base ≤ id ∧ id < next
  injective : ∀ key key' id, d.get? key = some id → d.get? key' = some id → key = key'
  ordered : base ≤ next

theorem numbered_empty (base : Nat) : (empty : Dict κ Nat).Numbered base base where
  issued := by
    intro id
    simp only [get?_empty, reduceCtorEq, exists_false, false_iff]
    omega
  injective := by simp
  ordered := le_refl base

theorem Numbered.set {d : Dict κ Nat} {base next : Nat} (numbered : d.Numbered base next)
    {key : κ} (absent : d.get? key = none) : (d.set key next).Numbered base (next + 1) where
  issued := by
    have ordered := numbered.ordered
    intro id
    constructor
    · intro given
      rcases given with ⟨other, found⟩
      by_cases same : other = key
      · subst same
        obtain rfl : next = id := by simpa using found
        omega
      · rw [get?_set_other d next same] at found
        have := (numbered.issued id).mp ⟨other, found⟩
        omega
    · intro given
      rcases given with ⟨low, high⟩
      by_cases new : id = next
      · exact ⟨key, by simp [new]⟩
      · obtain ⟨other, found⟩ := (numbered.issued id).mpr ⟨low, by omega⟩
        have different : other ≠ key := by
          intro same
          subst same
          simp [absent] at found
        exact ⟨other, by rw [get?_set_other d next different, found]⟩
  injective := by
    have old (other : κ) (found : d.get? other = some next) : False := by
      have := (numbered.issued next).mp ⟨other, found⟩
      omega
    intro left right id leftFound rightFound
    rw [get?_set] at leftFound rightFound
    split_ifs at leftFound rightFound with first second second
    · exact first.trans second.symm
    · obtain rfl := Option.some.inj leftFound
      exact (old right rightFound).elim
    · obtain rfl := Option.some.inj rightFound
      exact (old left leftFound).elim
    · exact numbered.injective left right id leftFound rightFound
  ordered := le_trans numbered.ordered (Nat.le_succ next)

end Dict
