import Mathlib
import SplitNN.Shared.CText

set_option autoImplicit false

-- Command lines: the words that a shell passes on, and Go's `flag` package reading them.

namespace Shell

-- Without these a command is just its words: no quotes, expansions, redirections or lists.
def special : List Char :=
  ['\x22', '\x27', '\\', '$', '\x60', '*', '?', '[', ']', '\x7b', '\x7d', '(', ')', '<', '>', '|',
    '&', ';', '#', '~', '!', '^', '\t', '\n']

def Plain (text : List Char) : Prop := ∀ c ∈ text, c ∉ special

instance (text : List Char) : Decidable (Plain text) :=
  List.decidableBAll (fun c => c ∉ special) text

def splitWords (text : List Char) : List (List Char) :=
  (text.splitOn ' ').filter fun word => !word.isEmpty

-- What the shell makes of a command that is not plain is left open.
def words (command : List Char) : Option (List (List Char)) :=
  if Plain command then some (splitWords command) else none

def Word (text : List Char) : Prop := text ≠ [] ∧ ' ' ∉ text

-- Part of one word whatever is around it.
def Clean (text : List Char) : Prop := ∀ c ∈ text, c ≠ ' ' ∧ c ∉ special

instance (text : List Char) : Decidable (Clean text) :=
  List.decidableBAll (fun c => c ≠ ' ' ∧ c ∉ special) text

theorem Clean.plain {text : List Char} (clean : Clean text) : Plain text :=
  fun c member => (clean c member).2

theorem Clean.noBlank {text : List Char} (clean : Clean text) : ' ' ∉ text :=
  fun member => (clean ' ' member).1 rfl

theorem clean_append {front back : List Char} :
    Clean (front ++ back) ↔ Clean front ∧ Clean back := by
  simp only [Clean, List.mem_append, or_imp, forall_and]
  tauto

theorem clean_intercalate {sep : List Char} (clean : Clean sep) {parts : List (List Char)}
    (parts_clean : ∀ part ∈ parts, Clean part) : Clean (sep.intercalate parts) := by
  intro c member
  rcases Text.mem_intercalate member with between | ⟨part, listed, inside⟩
  · exact clean c between
  · exact parts_clean part listed c inside

theorem plain_append {front back : List Char} :
    Plain (front ++ back) ↔ Plain front ∧ Plain back := by
  simp [Plain, or_imp, forall_and]

theorem splitWords_nil : splitWords [] = [] := rfl

theorem splitWords_word {word : List Char} (proper : Word word) : splitWords word = [word] := by
  simp [splitWords, List.splitOn_eq_singleton proper.2, proper.1]

theorem splitWords_cons {word : List Char} (proper : Word word) (rest : List Char) :
    splitWords (word ++ ' ' :: rest) = word :: splitWords rest := by
  simp [splitWords, List.splitOn_append_cons_self_of_not_mem proper.2, proper.1]

theorem splitWords_blank (rest : List Char) : splitWords (' ' :: rest) = splitWords rest := by
  have split : ([] ++ ' ' :: rest).splitOn ' ' = [] :: rest.splitOn ' ' :=
    List.splitOn_append_cons_self_of_not_mem (by simp) rest
  rw [List.nil_append] at split
  simp [splitWords, split]

theorem splitWords_first {text : List Char} {c : Char}
    (first : (text.dropWhile (· = ' ')).head? = some c) :
    ∃ word more, splitWords text = word :: more ∧ word.head? = some c := by
  induction text with
  | nil => cases first
  | cons d rest ih =>
    by_cases blank : d = ' '
    next =>
      subst blank
      rw [splitWords_blank]
      exact ih (by simpa using first)
    next =>
      obtain rfl : d = c := by simpa [blank] using first
      have clean : ' ' ∉ d :: rest.takeWhile (· ≠ ' ') := by
        intro member
        rcases List.mem_cons.mp member with same | later
        · exact blank same.symm
        · simpa using List.mem_takeWhile_imp later
      have word : Word (d :: rest.takeWhile (· ≠ ' ')) := ⟨by simp, clean⟩
      have split : rest = rest.takeWhile (· ≠ ' ') ++ rest.dropWhile (· ≠ ' ') :=
        List.takeWhile_append_dropWhile.symm
      cases left : rest.dropWhile (· ≠ ' ') with
      | nil =>
        rw [left, List.append_nil] at split
        refine ⟨d :: rest.takeWhile (· ≠ ' '), [], ?_, rfl⟩
        rw [← splitWords_word word, ← split]
      | cons e later =>
        have stopped := List.head?_dropWhile_not (· ≠ ' ') rest
        obtain rfl : e = ' ' := by
          rw [left] at stopped
          simpa using stopped
        rw [left] at split
        refine ⟨d :: rest.takeWhile (· ≠ ' '), splitWords later, ?_, rfl⟩
        rw [← splitWords_cons word, List.cons_append, ← split]

end Shell

namespace Text

-- `strconv.ParseInt` with base 0: the base is read off the prefix, underscores may separate digits.
def digitValue (c : Char) : Option Nat :=
  if c.isDigit then some (c.toNat - 48)
  else if c.isAlpha then some (c.toLower.toNat - 97 + 10)
  else none

def accumulate (base : Nat) : Nat → List Char → Except AtoiError Nat
  | value, [] => .ok value
  | value, c :: rest =>
    if c = '_' then accumulate base value rest
    else
      match digitValue c with
      | none => .error .badDigits
      | some digit =>
        if base ≤ digit then .error .badDigits
        else if 2 ^ 64 ≤ base * value + digit then .error .outOfRange
        else accumulate base (base * value + digit) rest

def splitBase : List Char → Nat × List Char
  | '0' :: c :: d :: rest =>
    if c.toLower = 'b' then (2, d :: rest)
    else if c.toLower = 'o' then (8, d :: rest)
    else if c.toLower = 'x' then (16, d :: rest)
    else (8, c :: d :: rest)
  | '0' :: rest => (8, rest)
  | text => (10, text)

def separated (hex : Bool) : Char → List Char → Bool
  | saw, [] => saw ≠ '_'
  | saw, c :: rest =>
    if c.isDigit || (hex && 'a' ≤ c.toLower && c.toLower ≤ 'f') then separated hex '0' rest
    else if c = '_' then saw = '0' && separated hex '_' rest
    else saw ≠ '_' && separated hex '!' rest

-- Go's `underscoreOK`; a prefix counts as a digit.
def underscoreOk (text : List Char) : Bool :=
  let unsigned := match text with
    | '-' :: rest | '+' :: rest => rest
    | _ => text
  match unsigned with
  | '0' :: c :: rest =>
    if c.toLower = 'b' ∨ c.toLower = 'o' ∨ c.toLower = 'x' then
      separated (c.toLower = 'x') '0' rest
    else separated false '^' unsigned
  | _ => separated false '^' unsigned

def parseUintPrefixed (text : List Char) : Except AtoiError Nat :=
  if text = [] then .error .badDigits
  else
    match accumulate (splitBase text).1 0 (splitBase text).2 with
    | .error error => .error error
    | .ok value =>
      if '_' ∈ (splitBase text).2 ∧ underscoreOk text = false then .error .badDigits
      else .ok value

def parseInt : List Char → Int × Option AtoiError
  | [] => (0, some .badDigits)
  | c :: rest =>
    if c = '-' then signed true (parseUintPrefixed rest)
    else if c = '+' then signed false (parseUintPrefixed rest)
    else signed false (parseUintPrefixed (c :: rest))

theorem accumulate_digits {digits : List Char} (decimal : ∀ c ∈ digits, c.isDigit = true)
    (value : Nat) : accumulate 10 value digits = parseUint value digits := by
  induction digits generalizing value with
  | nil => rfl
  | cons c rest ih =>
    have digit := decimal c (by simp)
    have range := digit_toNat digit
    have plain : c ≠ '_' := by
      rintro rfl
      simp at digit
    have small : ¬ 10 ≤ c.toNat - 48 := by omega
    rw [accumulate, if_neg plain, digitValue, if_pos digit, parseUint, if_pos digit]
    simp only [small, if_false]
    split
    next => rfl
    next => exact ih (fun c member => decimal c (List.mem_cons_of_mem _ member)) _

theorem toDigits_head {n : Nat} (positive : 0 < n) : (Nat.toDigits 10 n).head? ≠ some '0' := by
  induction n using Nat.strongRecOn with
  | ind n ih =>
    by_cases large : 10 ≤ n
    next =>
      rw [Nat.toDigits_of_base_le (by decide) large, List.head?_append_of_ne_nil]
      next => exact ih (n / 10) (by omega) (by omega)
      next => exact Nat.toDigits_ne_nil
    next =>
      rw [Nat.toDigits_of_lt_base (by omega)]
      interval_cases n <;> decide

theorem parseUintPrefixed_toDigits {n : Nat} (small : n < 2 ^ 64) :
    parseUintPrefixed (Nat.toDigits 10 n) = .ok n := by
  by_cases zero : n = 0
  next =>
    subst zero
    decide
  next =>
    have decimal : ∀ c ∈ Nat.toDigits 10 n, c.isDigit = true := fun c => digit_of_mem_toDigits
    have base : splitBase (Nat.toDigits 10 n) = (10, Nat.toDigits 10 n) := by
      have head := toDigits_head (Nat.pos_of_ne_zero zero)
      unfold splitBase
      split <;> simp_all
    have plain : '_' ∉ Nat.toDigits 10 n := not_mem_toDigits (by decide) n
    rw [parseUintPrefixed, if_neg Nat.toDigits_ne_nil, base]
    simp only [accumulate_digits decimal]
    rw [parseUint_digits decimal (by simpa using small)]
    simp [plain]

theorem parseInt_itoa {n : Int} (low : -intLimit ≤ n) (high : n < intLimit) :
    parseInt (itoa n) = (n, none) := by
  unfold intLimit at low high
  cases n with
  | ofNat n =>
    have small : n < intLimit := by
      unfold intLimit
      simp only [Int.ofNat_eq_natCast] at high
      omega
    have parsed := parseUintPrefixed_toDigits (n := n) (by unfold intLimit at small; omega)
    simp only [itoa]
    cases digits : Nat.toDigits 10 n with
    | nil => exact absurd digits Nat.toDigits_ne_nil
    | cons c rest =>
      have minus : c ≠ '-' := by
        rintro rfl
        exact sign_not_digit n (by simp [digits])
      have plus : c ≠ '+' := by
        rintro rfl
        exact not_mem_toDigits (c := '+') (by decide) n (by simp [digits])
      rw [parseInt, if_neg minus, if_neg plus, ← digits, parsed]
      simp [signed, not_le.mpr small]
  | negSucc n =>
    have small : n + 1 ≤ intLimit := by
      unfold intLimit
      omega
    have parsed := parseUintPrefixed_toDigits (n := n + 1) (by unfold intLimit at small; omega)
    simp only [itoa, parseInt, if_true, parsed, signed, not_lt.mpr small, if_false]
    rfl

end Text

-- Go's `flag` package without boolean flags; `σ` is where the flags store their values.
namespace GoFlag

variable {σ : Type}

-- A registered `flag.Value`: `Set`, which may refuse a text, and `String`.
structure Flag (σ : Type) where
  name : List Char
  set : List Char → σ → Option σ
  string : σ → List Char

inductive Failure where
  | badSyntax (arg : List Char)
  | help
  | notDefined (name : List Char)
  | needsArgument (name : List Char)
  | invalidValue (value name : List Char)
  deriving DecidableEq

def formal (flags : List (Flag σ)) (name : List Char) : Option (Flag σ) :=
  flags.find? fun flag => flag.name = name

-- `name=value` is cut at the first `=` that is not at the beginning.
def splitValue (name : List Char) : List Char × Option (List Char) :=
  match name with
  | [] => ([], none)
  | first :: rest =>
    match rest.dropWhile (· ≠ '=') with
    | [] => (name, none)
    | _ :: value => (first :: rest.takeWhile (· ≠ '='), some value)

inductive Arg where
  | operand
  | terminator
  | bad
  | flag (name : List Char) (value : Option (List Char))

def named (name : List Char) : Arg :=
  if name.head? = none ∨ name.head? = some '-' ∨ name.head? = some '=' then .bad
  else .flag (splitValue name).1 (splitValue name).2

def readArg : List Char → Arg
  | ['-', '-'] => .terminator
  | '-' :: '-' :: name => named name
  | '-' :: c :: name => named (c :: name)
  | _ => .operand

-- `FlagSet.Parse`: the arguments after the last flag are left over.
def parse (flags : List (Flag σ)) :
    List (List Char) → σ → Except Failure (σ × List (List Char))
  | [], s => .ok (s, [])
  | arg :: rest, s =>
    match readArg arg with
    | .operand => .ok (s, arg :: rest)
    | .terminator => .ok (s, rest)
    | .bad => .error (.badSyntax arg)
    | .flag name given =>
      match formal flags name with
      | none => .error (if name = "help".toList ∨ name = ['h'] then .help else .notDefined name)
      | some flag =>
        match given, rest with
        | some value, rest =>
          match flag.set value s with
          | none => .error (.invalidValue value name)
          | some s' => parse flags rest s'
        | none, [] => .error (.needsArgument name)
        | none, value :: rest =>
          match flag.set value s with
          | none => .error (.invalidValue value name)
          | some s' => parse flags rest s'

def stringVar (name : List Char) (put : List Char → σ → σ) (string : σ → List Char) : Flag σ :=
  { name, set := fun value s => some (put value s), string }

def intVar (name : List Char) (put : Int → σ → σ) (get : σ → Int) : Flag σ where
  name := name
  set := fun value s =>
    match Text.parseInt value with
    | (n, none) => some (put n s)
    | (_, some _) => none
  string := fun s => Text.itoa (get s)

-- The flag stores the text so that its `String` gives it back.
def Flag.Stores (flag : Flag σ) (value : List Char) : Prop :=
  ∀ s, ∃ s', flag.set value s = some s' ∧ flag.string s' = value

theorem stringVar_stores {name : List Char} {put : List Char → σ → σ} {string : σ → List Char}
    (reads : ∀ text s, string (put text s) = text) (value : List Char) :
    (stringVar name put string).Stores value :=
  fun s => ⟨put value s, rfl, reads value s⟩

theorem intVar_stores {name : List Char} {put : Int → σ → σ} {get : σ → Int}
    (reads : ∀ n s, get (put n s) = n) {n : Int} (low : -Text.intLimit ≤ n)
    (high : n < Text.intLimit) : (intVar name put get).Stores (Text.itoa n) := by
  intro s
  refine ⟨put n s, ?_, ?_⟩
  · simp only [intVar, Text.parseInt_itoa low high]
  · simp only [intVar, reads]

theorem intVar_put {name value : List Char} {put : Int → σ → σ} {get : σ → Int} {s s' : σ}
    (set : (intVar name put get).set value s = some s') : ∃ n, s' = put n s := by
  simp only [intVar] at set
  split at set
  next n _ => exact ⟨n, (Option.some.inj set).symm⟩
  next => cases set

structure Separate (flags : List (Flag σ)) : Prop where
  distinct : (flags.map Flag.name).Nodup
  others : ∀ flag ∈ flags, ∀ other ∈ flags, other.name ≠ flag.name →
    ∀ value s s', flag.set value s = some s' → other.string s' = other.string s

structure ProperName (name : List Char) : Prop where
  some : name ≠ []
  dash : name.head? ≠ Option.some '-'
  equals : '=' ∉ name

theorem splitValue_proper {name : List Char} (proper : ProperName name) :
    splitValue name = (name, none) := by
  cases name with
  | nil => rfl
  | cons first rest =>
    have absent : rest.dropWhile (· ≠ '=') = [] := by
      rw [List.dropWhile_eq_nil_iff]
      intro c member
      have different : c ≠ '=' := by
        rintro rfl
        exact proper.equals (List.mem_cons_of_mem _ member)
      simpa using different
    simp only [splitValue, absent]

theorem readArg_name {name : List Char} (proper : ProperName name) :
    readArg ('-' :: name) = .flag name none := by
  have split := splitValue_proper proper
  have equals := proper.equals
  have dash := proper.dash
  cases name with
  | nil => exact absurd rfl proper.some
  | cons c rest =>
    have apart : c ≠ '-' := fun same => dash (by simp [same])
    have other : c ≠ '=' := fun same => equals (by simp [same])
    unfold readArg
    split <;> simp_all [named]

theorem parse_named {flags : List (Flag σ)} {flag : Flag σ}
    (declared : formal flags flag.name = some flag) (proper : ProperName flag.name)
    (value : List Char) (rest : List (List Char)) {s s' : σ} (set : flag.set value s = some s') :
    parse flags (('-' :: flag.name) :: value :: rest) s = parse flags rest s' := by
  rw [parse]
  simp only [readArg_name proper, declared, set]

theorem parse_operand (flags : List (Flag σ)) {arg : List Char} (rest : List (List Char))
    (operand : arg.head? ≠ some '-') (s : σ) :
    parse flags (arg :: rest) s = .ok (s, arg :: rest) := by
  have read : readArg arg = .operand := by
    unfold readArg
    split <;> simp_all
  rw [parse]
  simp only [read]

-- The words of a list of options, as `-name value`.
def render (options : List (List Char × List Char)) : List (List Char) :=
  options.flatMap fun option => ['-' :: option.1, option.2]

structure Given (flags : List (Flag σ)) (options : List (List Char × List Char)) : Prop where
  distinct : (options.map Prod.fst).Nodup
  stored : ∀ option ∈ options, ∃ flag ∈ flags, flag.name = option.1 ∧ flag.Stores option.2

-- The given options and, for the other flags, what `s` has.
structure Holds (flags : List (Flag σ)) (options : List (List Char × List Char))
    (s s' : σ) : Prop where
  given : ∀ flag ∈ flags, ∀ value, (flag.name, value) ∈ options → flag.string s' = value
  kept : ∀ flag ∈ flags, flag.name ∉ options.map Prod.fst → flag.string s' = flag.string s

theorem formal_eq {flags : List (Flag σ)} (distinct : (flags.map Flag.name).Nodup)
    {flag : Flag σ} (member : flag ∈ flags) : formal flags flag.name = some flag := by
  induction flags with
  | nil => cases member
  | cons head rest ih =>
    rw [List.map_cons, List.nodup_cons] at distinct
    rcases List.mem_cons.mp member with rfl | later
    · simp [formal]
    · have different : head.name ≠ flag.name := by
        intro same
        exact distinct.1 (same ▸ List.mem_map_of_mem later)
      simpa [formal, different] using ih distinct.2 later

/-- Options that their flags store are all read, and the flags that are not given keep what they
had; what follows is left to be parsed. -/
theorem parse_render {flags : List (Flag σ)} (separate : Separate flags)
    (proper : ∀ flag ∈ flags, ProperName flag.name) {options : List (List Char × List Char)}
    (given : Given flags options) (rest : List (List Char)) (s : σ) :
    ∃ s', parse flags (render options ++ rest) s = parse flags rest s' ∧
      Holds flags options s s' := by
  induction options generalizing s with
  | nil => exact ⟨s, rfl, by simp, fun _ _ _ => rfl⟩
  | cons option later ih =>
    obtain ⟨flag, member, name, stores⟩ := given.stored option (by simp)
    obtain ⟨here, set, shown⟩ := stores s
    have distinct := given.distinct
    rw [List.map_cons, List.nodup_cons] at distinct
    have given' : Given flags later :=
      ⟨distinct.2, fun other listed => given.stored other (List.mem_cons_of_mem _ listed)⟩
    obtain ⟨s', parsed, holds⟩ := ih given' here
    refine ⟨s', ?_, ?_, ?_⟩
    · rw [← parsed, ← parse_named (formal_eq separate.distinct member) (proper flag member)
        option.2 _ set, name]
      simp [render]
    · intro other listed value inside
      rcases List.mem_cons.mp inside with rfl | after
      · have own : other = flag := by
          apply Option.some.inj
          rw [← formal_eq separate.distinct listed, ← formal_eq separate.distinct member, name]
        rw [holds.kept other listed distinct.1, own, shown]
      · exact holds.given other listed value after
    · intro other listed absent
      rw [List.map_cons, List.mem_cons, not_or] at absent
      rw [holds.kept other listed absent.2]
      exact separate.others flag member other listed (by rw [name]; exact absent.1) _ _ _ set

end GoFlag
