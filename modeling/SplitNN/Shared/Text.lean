import Mathlib

set_option autoImplicit false

-- Text as Go's `strings`, `strconv` and `bufio` packages and Python's text files read it.
namespace Text

-- `unicode.IsSpace`.
def isSpace (c : Char) : Bool :=
  c.toNat ∈ [9, 10, 11, 12, 13, 32, 0x85, 0xA0, 0x1680, 0x2028, 0x2029, 0x202F, 0x205F, 0x3000] ||
    (0x2000 ≤ c.toNat && c.toNat ≤ 0x200A)

-- `strings.Fields`.
def fields (text : List Char) : List (List Char) :=
  (text.splitOnP isSpace).filter fun word => !word.isEmpty

def Word (text : List Char) : Prop := text ≠ [] ∧ ∀ c ∈ text, isSpace c = false

theorem fields_nil : fields [] = [] := by
  simp [fields]

theorem fields_word {word : List Char} (proper : Word word) : fields word = [word] := by
  simp [fields, List.splitOnP_eq_singleton proper.2, proper.1]

theorem fields_cons {word : List Char} (proper : Word word) (rest : List Char) :
    fields (word ++ ' ' :: rest) = word :: fields rest := by
  rw [fields, List.splitOnP_append_cons_of_forall_mem proper.2 ' ' (by decide)]
  simp [fields, proper.1]

theorem mem_intercalate {sep : List Char} {words : List (List Char)} {c : Char}
    (member : c ∈ sep.intercalate words) : c ∈ sep ∨ ∃ word ∈ words, c ∈ word := by
  induction words with
  | nil => simp at member
  | cons word rest ih =>
    cases rest with
    | nil => exact .inr ⟨word, by simp, by simpa using member⟩
    | cons next more =>
      rw [List.intercalate_cons_cons, List.append_assoc, List.mem_append, List.mem_append] at member
      rcases member with first | between | later
      · exact .inr ⟨word, by simp, first⟩
      · exact .inl between
      · exact (ih later).imp id fun ⟨other, listed, inside⟩ =>
          ⟨other, List.mem_cons_of_mem _ listed, inside⟩

theorem not_mem_intercalate {words : List (List Char)} {c : Char} (different : c ≠ ' ')
    (absent : ∀ word ∈ words, c ∉ word) : c ∉ [' '].intercalate words := by
  intro member
  rcases mem_intercalate member with blank | ⟨word, listed, inside⟩
  · exact different (List.mem_singleton.mp blank)
  · exact absent word listed inside

theorem fields_intercalate {words : List (List Char)} (proper : ∀ word ∈ words, Word word) :
    fields ([' '].intercalate words) = words := by
  induction words with
  | nil => simp [fields_nil]
  | cons word rest ih =>
    have later := ih fun word member => proper word (List.mem_cons_of_mem _ member)
    cases rest with
    | nil => simpa using fields_word (proper word (by simp))
    | cons next more =>
      rw [List.intercalate_cons_cons, List.append_assoc, List.singleton_append,
        fields_cons (proper word (by simp)), later]

inductive AtoiError where
  | badDigits
  | outOfRange
  deriving DecidableEq

def intLimit : Nat := 2 ^ 63

def parseUint : Nat → List Char → Except AtoiError Nat
  | value, [] => .ok value
  | value, c :: rest =>
    if c.isDigit then
      if 2 ^ 64 ≤ 10 * value + (c.toNat - 48) then .error .outOfRange
      else parseUint (10 * value + (c.toNat - 48)) rest
    else .error .badDigits

-- A parsed magnitude with its sign; a value beyond an `int` is clamped and reported.
def signed (negative : Bool) : Except AtoiError Nat → Int × Option AtoiError
  | .error .badDigits => (0, some .badDigits)
  | .error .outOfRange => (if negative then -intLimit else intLimit - 1, some .outOfRange)
  | .ok value =>
    if negative then
      if intLimit < value then (-intLimit, some .outOfRange) else (-value, none)
    else
      if intLimit ≤ value then (intLimit - 1, some .outOfRange) else (value, none)

-- `strconv.Atoi` with a 64-bit `int`; the value is what a caller that drops the error gets.
def atoi : List Char → Int × Option AtoiError
  | [] => (0, some .badDigits)
  | c :: rest =>
    if c = '-' ∨ c = '+' then
      if rest = [] then (0, some .badDigits) else signed (c = '-') (parseUint 0 rest)
    else signed false (parseUint 0 (c :: rest))

theorem le_ofDigitChars (digits : List Char) (value : Nat) :
    value ≤ Nat.ofDigitChars 10 digits value := by
  induction digits generalizing value with
  | nil => simp
  | cons c rest ih =>
    rw [Nat.ofDigitChars_cons]
    exact le_trans (by omega) (ih _)

theorem parseUint_digits {digits : List Char} (decimal : ∀ c ∈ digits, c.isDigit = true)
    {value : Nat} (small : Nat.ofDigitChars 10 digits value < 2 ^ 64) :
    parseUint value digits = .ok (Nat.ofDigitChars 10 digits value) := by
  induction digits generalizing value with
  | nil => simp [parseUint]
  | cons c rest ih =>
    rw [Nat.ofDigitChars_cons] at small ⊢
    have zero : '0'.toNat = 48 := rfl
    rw [zero] at small ⊢
    have bound := le_ofDigitChars rest (10 * value + (c.toNat - 48))
    rw [parseUint, if_pos (decimal c (by simp)), if_neg (by omega)]
    exact ih (fun c member => decimal c (List.mem_cons_of_mem _ member)) small

theorem digit_of_mem_toDigits {n : Nat} {c : Char} (member : c ∈ Nat.toDigits 10 n) :
    c.isDigit = true :=
  Nat.isDigit_of_mem_toDigits (by decide) (by decide) member

theorem not_mem_toDigits {c : Char} (notDigit : c.isDigit = false) (n : Nat) :
    c ∉ Nat.toDigits 10 n := by
  intro member
  rw [digit_of_mem_toDigits member] at notDigit
  cases notDigit

theorem digit_toNat {c : Char} (digit : c.isDigit = true) : 48 ≤ c.toNat ∧ c.toNat ≤ 57 := by
  simpa [Char.isDigit, UInt32.le_iff_toNat_le] using digit

theorem toDigits_word (n : Nat) : Word (Nat.toDigits 10 n) := by
  refine ⟨Nat.toDigits_ne_nil, ?_⟩
  intro c member
  have range := digit_toNat (digit_of_mem_toDigits member)
  simp only [isSpace, List.mem_cons, List.not_mem_nil, or_false, Bool.or_eq_false_iff,
    decide_eq_false_iff_not, Bool.and_eq_false_iff]
  omega

theorem atoi_toDigits {n : Nat} (fits : n < intLimit) :
    atoi (Nat.toDigits 10 n) = ((n : Int), none) := by
  have parsed : parseUint 0 (Nat.toDigits 10 n) = .ok n := by
    unfold intLimit at fits
    rw [parseUint_digits (fun c => digit_of_mem_toDigits) (by simp; omega)]
    simp
  cases digits : Nat.toDigits 10 n with
  | nil => exact absurd digits Nat.toDigits_ne_nil
  | cons c rest =>
    have range := digit_toNat (c := c) (digit_of_mem_toDigits (n := n) (by rw [digits]; simp))
    have unsigned : ¬ (c = '-' ∨ c = '+') := by
      intro given
      rcases given with rfl | rfl <;> revert range <;> decide
    rw [atoi, if_neg unsigned, ← digits, parsed]
    simp only [signed, Bool.false_eq_true, if_false, if_neg (not_le.mpr fits)]

section Scanner

-- A `bufio.Scanner` with `ScanLines`; after `tooLong` the input is what its buffer still holds.
structure Scanner where
  input : List Char
  tooLong : Bool
  deriving DecidableEq

def byteLength (text : List Char) : Nat := (text.map Char.utf8Size).sum

theorem byteLength_le (text : List Char) : byteLength text ≤ 4 * text.length := by
  induction text with
  | nil => simp [byteLength]
  | cons c rest ih =>
    have size := c.utf8Size_le_four
    simp only [byteLength, List.map_cons, List.sum_cons, List.length_cons] at ih ⊢
    omega

-- The first bytes of a text. What is left of a character at the cut reads as a wrong character.
def takeBytes : Nat → List Char → List Char
  | _, [] => []
  | limit, c :: rest =>
    if c.utf8Size ≤ limit then c :: takeBytes (limit - c.utf8Size) rest
    else if limit = 0 then []
    else ['\uFFFD']

def dropCR (line : List Char) : List Char :=
  if line.getLast? = some '\r' then line.dropLast else line

-- One call of `Scan` with a buffer of `limit` bytes: the token, if there is one, and the rest.
def scan (limit : Nat) (s : Scanner) : Option (List Char) × Scanner :=
  let line := s.input.takeWhile fun c => c ≠ '\n'
  if s.input = [] then (none, s)
  else if s.tooLong then (some (dropCR s.input), ⟨[], true⟩)
  else if limit ≤ byteLength line then (none, ⟨takeBytes limit s.input, true⟩)
  else (some (dropCR line), ⟨(s.input.dropWhile fun c => c ≠ '\n').drop 1, false⟩)

-- The tokens of `for scanner.Scan()`; a token consumes at least one character.
def scanAll (limit : Nat) : Nat → Scanner → List (List Char) × Scanner
  | 0, s => ([], s)
  | fuel + 1, s =>
    match scan limit s with
    | (none, s') => ([], s')
    | (some token, s') => ((token :: (scanAll limit fuel s').1), (scanAll limit fuel s').2)

def Line (limit : Nat) (line : List Char) : Prop :=
  byteLength line < limit ∧ '\n' ∉ line ∧ '\r' ∉ line

theorem dropCR_line {line : List Char} (clean : '\r' ∉ line) : dropCR line = line := by
  have last : line.getLast? ≠ some '\r' := fun found => clean (List.mem_of_getLast? found)
  simp [dropCR, last]

theorem scan_line {limit : Nat} {line : List Char} (proper : Line limit line)
    (rest : List Char) :
    scan limit ⟨line ++ '\n' :: rest, false⟩ = (some line, ⟨rest, false⟩) := by
  obtain ⟨short, oneLine, clean⟩ := proper
  have kept : ∀ c ∈ line, decide (c ≠ '\n') = true := by
    intro c member
    have different : c ≠ '\n' := fun same => oneLine (same ▸ member)
    simpa using different
  have taken : (line ++ '\n' :: rest).takeWhile (fun c => decide (c ≠ '\n')) = line := by
    rw [List.takeWhile_append_of_pos kept]
    simp
  have dropped : (line ++ '\n' :: rest).dropWhile (fun c => decide (c ≠ '\n')) = '\n' :: rest := by
    rw [List.dropWhile_append_of_pos kept]
    simp
  simp only [scan, taken, dropped, dropCR_line clean]
  simp [short]

def ofLines (lines : List (List Char)) : List Char := lines.flatMap fun line => line ++ ['\n']

theorem ofLines_cons (line : List Char) (rest : List (List Char)) :
    ofLines (line :: rest) = line ++ '\n' :: ofLines rest := by
  simp [ofLines]

theorem scanAll_lines {limit : Nat} {lines : List (List Char)}
    (proper : ∀ line ∈ lines, Line limit line) {fuel : Nat} (enough : lines.length < fuel) :
    scanAll limit fuel ⟨ofLines lines, false⟩ = (lines, ⟨[], false⟩) := by
  induction lines generalizing fuel with
  | nil =>
    cases fuel with
    | zero => simp at enough
    | succ fuel => simp [scanAll, scan, ofLines]
  | cons line rest ih =>
    cases fuel with
    | zero => simp at enough
    | succ fuel =>
      have later : scanAll limit fuel ⟨ofLines rest, false⟩ = (rest, ⟨[], false⟩) :=
        ih (fun line member => proper line (List.mem_cons_of_mem _ member)) (by simpa using enough)
      rw [ofLines_cons, scanAll, scan_line (proper line (by simp))]
      simp only [later]

theorem length_le_ofLines (lines : List (List Char)) : lines.length ≤ (ofLines lines).length := by
  induction lines with
  | nil => simp
  | cons line rest ih =>
    rw [ofLines_cons]
    simp
    omega

end Scanner

section PythonFile

-- `str.isspace` for one character.
def isPySpace (c : Char) : Bool := isSpace c || (0x1C ≤ c.toNat && c.toNat ≤ 0x1F)

-- `str.strip`.
def strip (text : List Char) : List Char := (text.dropWhile isPySpace).rdropWhile isPySpace

-- `str.split` without an argument.
def pySplit (text : List Char) : List (List Char) :=
  (text.splitOnP isPySpace).filter fun word => !word.isEmpty

-- The newline translation of a file opened in text mode.
def universalNewlines : List Char → List Char
  | [] => []
  | '\r' :: '\n' :: rest => '\n' :: universalNewlines rest
  | '\r' :: rest => '\n' :: universalNewlines rest
  | c :: rest => c :: universalNewlines rest

-- The lines that iterating over an open text file yields, with their newlines.
def fileLines (text : List Char) : List (List Char) :=
  let pieces := (universalNewlines text).splitOn '\n'
  (pieces.dropLast.map fun piece => piece ++ ['\n']) ++
    (pieces.getLast?.toList.filter fun piece => !piece.isEmpty)

theorem universalNewlines_clean {text : List Char} (clean : '\r' ∉ text) :
    universalNewlines text = text := by
  induction text with
  | nil => rfl
  | cons c rest ih =>
    have different : c ≠ '\r' := fun same => clean (by simp [same])
    have later := ih fun member => clean (List.mem_cons_of_mem _ member)
    unfold universalNewlines
    split <;> simp_all

theorem splitOn_ofLines {lines : List (List Char)} (oneLine : ∀ line ∈ lines, '\n' ∉ line) :
    (ofLines lines).splitOn '\n' = lines ++ [[]] := by
  induction lines with
  | nil => simp [ofLines, List.splitOn_eq_singleton]
  | cons line rest ih =>
    rw [ofLines_cons, List.splitOn_append_cons_self_of_not_mem (oneLine line (by simp)),
      ih fun line member => oneLine line (List.mem_cons_of_mem _ member)]
    rfl

theorem fileLines_ofLines {lines : List (List Char)} (oneLine : ∀ line ∈ lines, '\n' ∉ line)
    (clean : ∀ line ∈ lines, '\r' ∉ line) :
    fileLines (ofLines lines) = lines.map fun line => line ++ ['\n'] := by
  have noCR : '\r' ∉ ofLines lines := by
    intro member
    obtain ⟨line, inside, found⟩ := List.mem_flatMap.mp member
    have := clean line inside
    simp_all
  simp [fileLines, universalNewlines_clean noCR, splitOn_ofLines oneLine]

-- A text that `str.split` takes for one word.
def PyWord (text : List Char) : Prop := text ≠ [] ∧ ∀ c ∈ text, isPySpace c = false

instance (text : List Char) : Decidable (PyWord text) :=
  @instDecidableAnd _ _ inferInstance (List.decidableBAll (fun c => isPySpace c = false) text)

theorem pySplit_append {c : Char} (space : isPySpace c = true) (front back : List Char) :
    pySplit (front ++ c :: back) = pySplit front ++ pySplit back := by
  rw [pySplit, List.splitOnP_append_cons front back space, List.filter_append]
  rfl

theorem pySplit_nil : pySplit [] = [] := by
  simp [pySplit]

theorem pySplit_word {word : List Char} (proper : PyWord word) : pySplit word = [word] := by
  simp [pySplit, List.splitOnP_eq_singleton proper.2, proper.1]

theorem pySplit_strip (text : List Char) : pySplit (strip text) = pySplit text := by
  have front (text : List Char) : pySplit (text.dropWhile isPySpace) = pySplit text := by
    induction text with
    | nil => rfl
    | cons c rest ih =>
      by_cases space : isPySpace c = true
      next =>
        have skipped := pySplit_append space [] rest
        rw [List.nil_append, pySplit_nil, List.nil_append] at skipped
        rw [List.dropWhile_cons, if_pos space, ih, skipped]
      next => rw [List.dropWhile_cons, if_neg space]
  have back (text : List Char) : pySplit (text.rdropWhile isPySpace) = pySplit text := by
    induction text using List.reverseRecOn with
    | nil => rfl
    | append_singleton text c ih =>
      by_cases space : isPySpace c = true
      next =>
        rw [List.rdropWhile_concat_pos _ _ _ space, ih, pySplit_append space, pySplit_nil,
          List.append_nil]
      next => rw [List.rdropWhile_concat_neg _ _ _ space]
  rw [strip, back, front]

theorem pySplit_intercalate {words : List (List Char)} (proper : ∀ word ∈ words, PyWord word) :
    pySplit ([' '].intercalate words) = words := by
  induction words with
  | nil => exact pySplit_nil
  | cons word rest ih =>
    have later := ih fun word member => proper word (List.mem_cons_of_mem _ member)
    cases rest with
    | nil => simpa using pySplit_word (proper word (by simp))
    | cons next more =>
      rw [List.intercalate_cons_cons, List.append_assoc, List.singleton_append,
        pySplit_append (by decide), pySplit_word (proper word (by simp)), later]
      rfl

end PythonFile

theorem append_separated_inj {sep : Char} {front front' back back' : List Char}
    (clean : sep ∉ back) (clean' : sep ∉ back')
    (same : front ++ sep :: back = front' ++ sep :: back') : front = front' ∧ back = back' := by
  rcases List.append_eq_append_iff.mp same with ⟨middle, rfl, rest⟩ | ⟨middle, rfl, rest⟩
  · cases middle with
    | nil => simpa using rest
    | cons head tail =>
      obtain ⟨rfl, rfl⟩ := List.cons.inj rest
      simp at clean
  · cases middle with
    | nil => simpa [eq_comm] using rest
    | cons head tail =>
      obtain ⟨rfl, rfl⟩ := List.cons.inj rest
      simp at clean'

theorem separated_append_inj {sep : Char} {front front' back back' : List Char}
    (clean : sep ∉ front) (clean' : sep ∉ front')
    (same : front ++ sep :: back = front' ++ sep :: back') : front = front' ∧ back = back' := by
  have turned : back.reverse ++ sep :: front.reverse = back'.reverse ++ sep :: front'.reverse := by
    simpa using congrArg List.reverse same
  have ⟨backs, fronts⟩ := append_separated_inj (by simpa using clean) (by simpa using clean') turned
  exact ⟨List.reverse_injective fronts, List.reverse_injective backs⟩

end Text
