import Mathlib
import SplitNN.Coordinator.SubTopologyText

set_option autoImplicit false

namespace SplitNN.Coordinator

open Text (strip isPySpace)

def getFullTopoFilename (topoArgs : List String) : String :=
  "_".intercalate topoArgs ++ ".txt"

def getSubTopoFilename (topoArgs : List String) (i : Nat) : String :=
  let fullTopoFilename := getFullTopoFilename topoArgs
  let splitedTopoFilename := (fullTopoFilename.toList.splitOn '.').map String.ofList
  let splitedSubTopoFilename :=
    if splitedTopoFilename.length = 1 then splitedTopoFilename ++ ["sub" ++ toString i]
    else splitedTopoFilename.dropLast ++ ["sub" ++ toString i] ++
      splitedTopoFilename.drop (splitedTopoFilename.length - 1)
  ".".intercalate splitedSubTopoFilename

-- `os.path.join` of two parts.
def osPathJoin (path name : String) : String :=
  if name.toList.head? = some '/' then name
  else if path = "" ∨ path.toList.getLast? = some '/' then path ++ name
  else path ++ "/" ++ name

-- `os.path.dirname`.
def osPathDirname (path : String) : String :=
  let head := path.toList.rdropWhile (· ≠ '/')
  if head.all (· = '/') then String.ofList head else String.ofList (head.rdropWhile (· = '/'))

section Splitting

theorem joined_toList (parts : List (List Char)) :
    (".".intercalate (parts.map String.ofList)).toList = ['.'].intercalate parts := by
  rw [String.toList_intercalate, List.map_map,
    show (String.toList ∘ String.ofList) = id from funext fun _ => String.toList_ofList,
    List.map_id]
  rfl

theorem subTopoFilepath_split {inputTopoFilepath : String} {front back : List Char}
    (path : strip inputTopoFilepath.toList = front ++ '.' :: back) (clean : '.' ∉ front) (i : Nat) :
    (subTopoFilepath inputTopoFilepath i).toList =
      front ++ ".sub".toList ++ (toString i).toList ++ '.' :: back := by
  have parts : (front ++ '.' :: back).splitOn '.' = front :: back.splitOn '.' :=
    List.splitOn_append_cons_self_of_not_mem clean back
  have listed : ((front :: back.splitOn '.').map String.ofList).take 1 ++ ["sub" ++ toString i] ++
      ((front :: back.splitOn '.').map String.ofList).drop 1 =
      (front :: ("sub" ++ toString i).toList :: back.splitOn '.').map String.ofList := by
    simp only [List.map_cons, List.take_succ_cons, List.take_zero, List.drop_succ_cons,
      List.drop_zero, List.cons_append, List.nil_append, String.ofList_toList]
  simp only [subTopoFilepath, path, parts]
  rw [listed, joined_toList, List.intercalate_cons_cons,
    List.intercalate_cons_of_ne_nil (List.splitOn_ne_nil _ _), List.intercalate_splitOn]
  simp

theorem getSubTopoFilename_eq (topoArgs : List String) (i : Nat) :
    getSubTopoFilename topoArgs i =
      "_".intercalate topoArgs ++ ".sub" ++ toString i ++ ".txt" := by
  let base := ("_".intercalate topoArgs).toList.splitOn '.'
  have txt : "txt".toList.splitOn '.' = ["txt".toList] := List.splitOn_eq_singleton (by decide)
  have parts : (getFullTopoFilename topoArgs).toList.splitOn '.' = base ++ ["txt".toList] := by
    rw [getFullTopoFilename, String.toList_append,
      show ".txt".toList = '.' :: "txt".toList from rfl,
      List.splitOn_append_cons_self, txt]
  have nonempty : base ≠ [] := List.splitOn_ne_nil _ _
  have several : base.length + 1 ≠ 1 := by simp [nonempty]
  have listed : (base.map String.ofList) ++ ["sub" ++ toString i] ++
      ((base ++ ["txt".toList]).map String.ofList).drop base.length =
      (base ++ [("sub" ++ toString i).toList, "txt".toList]).map String.ofList := by
    rw [List.map_append, List.drop_append_of_le_length (by simp), List.drop_eq_nil_of_le (by simp)]
    simp only [List.map_append, List.map_cons, List.map_nil, List.nil_append, List.append_assoc,
      List.cons_append, String.ofList_toList]
  have joined : ".".intercalate (base.map String.ofList) = "_".intercalate topoArgs := by
    apply String.toList_inj.mp
    rw [joined_toList]
    exact List.intercalate_splitOn _
  simp only [getSubTopoFilename, parts, List.map_append, List.map_cons, List.map_nil,
    List.length_append, List.length_map, List.length_cons, List.length_nil, several, if_false,
    List.dropLast_concat, Nat.zero_add, Nat.add_sub_cancel] at listed ⊢
  rw [listed, String.intercalate_append_of_ne_nil (by simpa using nonempty) (by simp), joined]
  apply String.toList_inj.mp
  simp

theorem osPathJoin_append (path name : String) {suffix : String}
    (relative : suffix.toList.head? ≠ some '/') :
    osPathJoin path (name ++ suffix) = osPathJoin path name ++ suffix := by
  have head : (name ++ suffix).toList.head? = some '/' ↔ name.toList.head? = some '/' := by
    rw [String.toList_append]
    cases name.toList with
    | nil => simpa using relative
    | cons c rest => simp
  simp only [osPathJoin, head]
  split
  next => rfl
  next => split <;> simp [String.append_assoc]

end Splitting

section Folders

-- What stands before a file name joined to a directory.
def folderOf (dir : List Char) : List Char :=
  if dir = [] ∨ dir.getLast? = some '/' then dir else dir ++ ['/']

theorem osPathJoin_toList (dir name : String) (relative : name.toList.head? ≠ some '/') :
    (osPathJoin dir name).toList = folderOf dir.toList ++ name.toList := by
  have empty : dir = "" ↔ dir.toList = [] := by simp
  rw [osPathJoin, if_neg relative, folderOf]
  simp only [empty]
  split <;> simp

theorem osPathDirname_folder {path : String} {folder base : List Char}
    (whole : path.toList = folder ++ base) (inside : folder = [] ∨ folder.getLast? = some '/')
    (clean : '/' ∉ base) :
    (osPathDirname path).toList =
      if folder.all (· = '/') then folder else folder.rdropWhile (· = '/') := by
  have kept : folder.rdropWhile (· ≠ '/') = folder := by
    rw [List.rdropWhile_eq_self_iff]
    intro some_folder
    have last := inside.resolve_left some_folder
    rw [List.getLast?_eq_some_getLast some_folder, Option.some.injEq] at last
    simp [last]
  have head : path.toList.rdropWhile (· ≠ '/') = folder := by
    rw [whole, List.rdropWhile, List.reverse_append, List.dropWhile_append_of_pos,
      ← List.rdropWhile, kept]
    intro c member
    have other : c ≠ '/' := by
      rintro rfl
      exact clean (List.mem_reverse.mp member)
    simp [other]
  rw [osPathDirname, head]
  split <;> simp [*]

theorem folderOf_ends (dir : List Char) :
    folderOf dir = [] ∨ (folderOf dir).getLast? = some '/' := by
  unfold folderOf
  split
  next ends => exact ends
  next => exact .inr (by simp)

theorem length_le_rdropWhile (front rest : List Char) {c : Char} (other : c ≠ '/') :
    front.length < ((front ++ c :: rest).rdropWhile (· = '/')).length := by
  rw [List.rdropWhile, List.length_reverse, List.reverse_append, List.reverse_cons,
    List.append_assoc, List.dropWhile_append]
  split
  next => simp [other]
  next => simp; omega

theorem folderOf_stripped {folder : List Char}
    (inside : folder = [] ∨ folder.getLast? = some '/') :
    folderOf (if folder.all (· = '/') then folder else folder.rdropWhile (· = '/')) = folder ↔
      folder.all (· = '/') ∨ ¬ ['/', '/'] <:+ folder := by
  by_cases slashes : folder.all (· = '/') = true
  next => simp [slashes, folderOf, inside]
  next =>
    have some_folder : folder ≠ [] := by
      rintro rfl
      simp at slashes
    obtain ⟨front, rfl⟩ := List.getLast?_eq_some_iff.mp (inside.resolve_left some_folder)
    have stripped : (front ++ ['/']).rdropWhile (· = '/') = front.rdropWhile (· = '/') :=
      List.rdropWhile_concat_pos _ _ _ (by decide)
    have doubled : ['/', '/'] <:+ front ++ ['/'] ↔ front.getLast? = some '/' := by
      rw [show ['/', '/'] = ['/'] ++ ['/'] from rfl, List.getLast?_eq_some_iff]
      constructor
      · rintro ⟨before, same⟩
        rw [← List.append_assoc] at same
        exact ⟨before, (List.append_cancel_right same).symm⟩
      · rintro ⟨before, rfl⟩
        exact ⟨before, by simp⟩
    have bare : front.rdropWhile (· = '/') ≠ [] := by
      intro none
      rw [List.rdropWhile_eq_nil_iff] at none
      apply slashes
      rw [List.all_append, List.all_eq_true.mpr none]
      rfl
    have last : (front.rdropWhile (· = '/')).getLast? ≠ some '/' := by
      rw [List.getLast?_eq_some_getLast bare]
      have stop := List.rdropWhile_last_not (· = '/') front bare
      simpa using stop
    rw [if_neg slashes, stripped, folderOf, if_neg (not_or.mpr ⟨bare, last⟩),
      List.append_cancel_right_eq, List.rdropWhile_eq_self_iff, doubled]
    simp only [slashes]
    constructor
    · intro kept
      refine .inr fun same => ?_
      have some_front : front ≠ [] := by
        rintro rfl
        simp at same
      have other := kept some_front
      rw [List.getLast?_eq_some_getLast some_front, Option.some.injEq] at same
      simp [same] at other
    · intro given some_front
      have other := given.resolve_left Bool.false_ne_true
      rw [List.getLast?_eq_some_getLast some_front] at other
      simpa using other

theorem folderOf_all (dir : List Char) :
    (folderOf dir).all (· = '/') = dir.all (· = '/') := by
  unfold folderOf
  split
  next => rfl
  next => simp

theorem folderOf_doubled (dir : List Char) : ['/', '/'] <:+ folderOf dir ↔ ['/', '/'] <:+ dir := by
  unfold folderOf
  split
  next => rfl
  next single =>
    have other : ¬ ['/'] <:+ dir := fun ends =>
      single (.inr (List.singleton_suffix_iff_getLast?_eq_some.mp ends))
    rw [show ['/', '/'] = ['/'] ++ ['/'] from rfl]
    constructor
    · rintro ⟨before, same⟩
      rw [← List.append_assoc] at same
      exact absurd ⟨before, List.append_cancel_right same⟩ other
    · intro ends
      exact absurd ((List.suffix_append _ _).trans ends) other

/-- A file name that is found again in the directory of its file. -/
def FoundBeside (dir name : List Char) : Prop :=
  name.head? = some '/' ∨ '/' ∉ name ∧ (dir.all (· = '/') ∨ ¬ ['/', '/'] <:+ dir)

theorem foundBeside_iff (dir name : String) {suffix other : String} (clean : '/' ∉ suffix.toList)
    (relative : other.toList.head? ≠ some '/') :
    osPathJoin (osPathDirname (osPathJoin dir name ++ suffix)) (name ++ other) =
      osPathJoin dir (name ++ other) ↔ FoundBeside dir.toList name.toList := by
  by_cases absolute : name.toList.head? = some '/'
  next =>
    have head : (name ++ other).toList.head? = some '/' := by
      rw [String.toList_append, List.head?_append, absolute]
      rfl
    simp [osPathJoin, FoundBeside, absolute]
  next =>
    have head : (name ++ other).toList.head? ≠ some '/' := by
      rw [String.toList_append, List.head?_append]
      cases found : name.toList.head? with
      | none => simpa [found] using relative
      | some c => simpa [found] using absolute
    rw [← String.toList_inj, osPathJoin_toList _ _ head, osPathJoin_toList _ _ head,
      List.append_cancel_right_eq]
    have whole : (osPathJoin dir name ++ suffix).toList =
        folderOf dir.toList ++ name.toList ++ suffix.toList := by
      rw [String.toList_append, osPathJoin_toList _ _ absolute]
    by_cases slash : '/' ∈ name.toList
    next =>
      -- The directory of the file is then below `dir`.
      obtain ⟨front, back, parts, last⟩ :
          ∃ front back, name.toList = front ++ '/' :: back ∧ '/' ∉ back := by
        obtain ⟨back, front, parts, last⟩ :=
          List.eq_append_cons_of_mem (List.mem_reverse.mpr slash)
        refine ⟨front.reverse, back.reverse, ?_, by simpa using last⟩
        rw [← List.reverse_reverse name.toList, parts]
        simp
      obtain ⟨c, rest, rfl⟩ : ∃ c rest, front = c :: rest := by
        cases front with
        | nil => simp [parts] at absolute
        | cons c rest => exact ⟨c, rest, rfl⟩
      have other : c ≠ '/' := by
        rintro rfl
        simp [parts] at absolute
      have split : (osPathJoin dir name ++ suffix).toList =
          (folderOf dir.toList ++ c :: (rest ++ ['/'])) ++ (back ++ suffix.toList) := by
        simp [whole, parts]
      have folder := osPathDirname_folder split
        (.inr (by rw [← List.cons_append, ← List.append_assoc, List.getLast?_concat]))
        (by simp [last, clean])
      have below := length_le_rdropWhile (folderOf dir.toList) (rest ++ ['/']) other
      have longer (folder : List Char) : folder.length ≤ (folderOf folder).length := by
        unfold folderOf
        split <;> simp
      have mixed : (folderOf dir.toList ++ c :: (rest ++ ['/'])).all (· = '/') = false := by
        simp [other]
      rw [mixed, if_neg Bool.false_ne_true] at folder
      have apart : folderOf (osPathDirname (osPathJoin dir name ++ suffix)).toList ≠
          folderOf dir.toList := by
        intro same
        have lengths := congrArg List.length same
        have bound := longer (osPathDirname (osPathJoin dir name ++ suffix)).toList
        rw [folder] at lengths bound
        omega
      simp [FoundBeside, apart, absolute, slash]
    next =>
      rw [List.append_assoc] at whole
      have folder := osPathDirname_folder whole (folderOf_ends _) (by simp [slash, clean])
      rw [folder, folderOf_stripped (folderOf_ends _), folderOf_all, folderOf_doubled]
      simp [FoundBeside, absolute, slash]

end Folders

section Paths

-- The path of a full topology file before its suffix.
def topoStem (dir : String) (topoArgs : List String) : String :=
  osPathJoin dir ("_".intercalate topoArgs)

theorem fullTopoFilepath_eq (dir : String) (topoArgs : List String) :
    osPathJoin dir (getFullTopoFilename topoArgs) = topoStem dir topoArgs ++ ".txt" :=
  osPathJoin_append dir _ (by decide)

theorem subTopoFilepath_read (dir : String) (topoArgs : List String) (i : Nat) :
    (osPathJoin dir (getSubTopoFilename topoArgs i)).toList =
      (topoStem dir topoArgs).toList ++ ".sub".toList ++ (toString i).toList ++ ".txt".toList := by
  rw [getSubTopoFilename_eq, String.append_assoc, String.append_assoc,
    osPathJoin_append dir _ (by simp)]
  simp [topoStem]

theorem strip_txt (stem : List Char) :
    strip (stem ++ ".txt".toList) = stem.dropWhile isPySpace ++ ".txt".toList := by
  have front : (stem ++ ".txt".toList).dropWhile isPySpace =
      stem.dropWhile isPySpace ++ ".txt".toList := by
    induction stem with
    | nil => decide
    | cons c rest ih =>
      by_cases space : isPySpace c = true
      next => simpa [space] using ih
      next => simp [space]
  have back (text : List Char) :
      (text ++ ".txt".toList).rdropWhile isPySpace = text ++ ".txt".toList := by
    rw [show text ++ ".txt".toList = (text ++ ".tx".toList) ++ ['t'] by simp,
      List.rdropWhile_concat_neg _ _ _ (by decide)]
  rw [strip, front, back]

-- The file is written at the path `same` starts with; `get_bbns_num_for_all_vms` reads it at the
-- other one, `distribute_sub_topo_to_vms` beside the full topology file.
structure NamesAgree (dir : String) (topoArgs : List String) : Prop where
  same : ∀ i, subTopoFilepath (osPathJoin dir (getFullTopoFilename topoArgs)) i =
    osPathJoin dir (getSubTopoFilename topoArgs i)
  beside : ∀ i, osPathJoin (osPathDirname (osPathJoin dir (getFullTopoFilename topoArgs)))
    (getSubTopoFilename topoArgs i) = osPathJoin dir (getSubTopoFilename topoArgs i)
  distinct : ∀ i j, i ≠ j →
    subTopoFilepath (osPathJoin dir (getFullTopoFilename topoArgs)) i ≠
      subTopoFilepath (osPathJoin dir (getFullTopoFilename topoArgs)) j

structure PlainStem (stem : List Char) : Prop where
  noDot : '.' ∉ stem
  noSpace : stem.dropWhile isPySpace = stem

theorem exists_firstDot (text : List Char) : ∃ front back,
    text ++ ".txt".toList = front ++ '.' :: back ∧ '.' ∉ front ∧
      ('.' ∉ text → front = text ∧ back = "txt".toList) ∧
      ('.' ∈ text → ∃ rest, text = front ++ '.' :: rest) := by
  induction text with
  | nil => exact ⟨[], "txt".toList, rfl, by simp, fun _ => ⟨rfl, rfl⟩, by simp⟩
  | cons c text ih =>
    by_cases dot : c = '.'
    next => exact ⟨[], text ++ ".txt".toList, by simp [dot], by simp, by simp [dot],
      fun _ => ⟨text, by simp [dot]⟩⟩
    next =>
      have ⟨front, back, whole, clean, plain, dotted⟩ := ih
      refine ⟨c :: front, back, by rw [List.cons_append, whole, List.cons_append],
        by simp [clean, Ne.symm dot], ?_, ?_⟩
      · intro absent
        have ⟨same, rest⟩ := plain fun member => absent (List.mem_cons_of_mem c member)
        exact ⟨by rw [same], rest⟩
      · intro member
        have ⟨rest, split⟩ := dotted ((List.mem_cons.mp member).resolve_left (Ne.symm dot))
        exact ⟨rest, by simp [← split]⟩

theorem written_path (dir : String) (topoArgs : List String) :
    ∃ front back, (∀ i,
      (subTopoFilepath (osPathJoin dir (getFullTopoFilename topoArgs)) i).toList =
        front ++ ".sub".toList ++ (toString i).toList ++ '.' :: back) ∧
      (topoStem dir topoArgs).toList.dropWhile isPySpace ++ ".txt".toList = front ++ '.' :: back ∧
      ('.' ∉ (topoStem dir topoArgs).toList.dropWhile isPySpace →
        front = (topoStem dir topoArgs).toList.dropWhile isPySpace ∧ back = "txt".toList) ∧
      ('.' ∈ (topoStem dir topoArgs).toList.dropWhile isPySpace → ∃ rest,
        (topoStem dir topoArgs).toList.dropWhile isPySpace = front ++ '.' :: rest) := by
  have ⟨front, back, whole, clean, plain, dotted⟩ :=
    exists_firstDot ((topoStem dir topoArgs).toList.dropWhile isPySpace)
  refine ⟨front, back, fun i => ?_, whole, plain, dotted⟩
  apply subTopoFilepath_split _ clean
  rw [fullTopoFilepath_eq, String.toList_append, strip_txt, whole]

theorem written_path_injective (dir : String) (topoArgs : List String) {i j : Nat}
    (same : subTopoFilepath (osPathJoin dir (getFullTopoFilename topoArgs)) i =
      subTopoFilepath (osPathJoin dir (getFullTopoFilename topoArgs)) j) : i = j := by
  have ⟨front, back, written, _⟩ := written_path dir topoArgs
  have listed := congrArg String.toList same
  rw [written, written] at listed
  have digits := List.append_cancel_left (List.append_cancel_right listed)
  exact Nat.repr_inj.mp (String.toList_inj.mp digits)

-- The written path has its component at the first dot, the read one before the suffix.
theorem not_same_of_dot {front rest : List Char}
    (zero : front ++ ".sub0.".toList ++ rest ++ ".txt".toList =
      front ++ '.' :: rest ++ ".sub0.txt".toList)
    (one : front ++ ".sub1.".toList ++ rest ++ ".txt".toList =
      front ++ '.' :: rest ++ ".sub1.txt".toList) : False := by
  simp only [List.append_assoc, List.append_cancel_left_eq] at zero one
  -- Where `rest` has a fourth character, it would be both digits.
  rcases rest with _ | ⟨a, _ | ⟨b, _ | ⟨c, _ | ⟨d, rest⟩⟩⟩⟩ <;> simp_all

theorem distributed_iff (dir : String) (topoArgs : List String) (i : Nat) :
    osPathJoin (osPathDirname (osPathJoin dir (getFullTopoFilename topoArgs)))
      (getSubTopoFilename topoArgs i) = osPathJoin dir (getSubTopoFilename topoArgs i) ↔
      FoundBeside dir.toList ("_".intercalate topoArgs).toList := by
  rw [fullTopoFilepath_eq, getSubTopoFilename_eq, String.append_assoc, String.append_assoc,
    topoStem]
  exact foundBeside_iff dir _ (by decide) (by simp)

theorem written_iff (dir : String) (topoArgs : List String) :
    (∀ i, subTopoFilepath (osPathJoin dir (getFullTopoFilename topoArgs)) i =
      osPathJoin dir (getSubTopoFilename topoArgs i)) ↔
      PlainStem (topoStem dir topoArgs).toList := by
  have ⟨front, back, written, whole, plain, dotted⟩ := written_path dir topoArgs
  constructor
  · intro agree
    have equal (i : Nat) : front ++ ".sub".toList ++ (toString i).toList ++ '.' :: back =
        (topoStem dir topoArgs).toList ++ ".sub".toList ++ (toString i).toList ++
          ".txt".toList := by
      rw [← written, agree, subTopoFilepath_read]
    have noSpace : (topoStem dir topoArgs).toList.dropWhile isPySpace =
        (topoStem dir topoArgs).toList := by
      have lengths := congrArg List.length (equal 0)
      have total := congrArg List.length whole
      simp only [List.length_append, List.length_cons] at lengths total
      exact (List.dropWhile_suffix _).eq_of_length (by omega)
    refine ⟨?_, noSpace⟩
    intro dot
    rw [← noSpace] at dot
    have ⟨rest, stem⟩ := dotted dot
    rw [stem, List.append_assoc, List.append_cancel_left_eq, List.cons_append,
      List.cons_inj_right] at whole
    rw [noSpace] at stem
    have zero := equal 0
    have one := equal 1
    rw [show (toString 0).toList = ['0'] from rfl, stem, ← whole] at zero
    rw [show (toString 1).toList = ['1'] from rfl, stem, ← whole] at one
    apply @not_same_of_dot front rest
    next => simpa using zero
    next => simpa using one
  · intro plainStem i
    have ⟨stem, suffix⟩ := plain (plainStem.noSpace.symm ▸ plainStem.noDot)
    apply String.toList_inj.mp
    rw [written, subTopoFilepath_read, stem, suffix, plainStem.noSpace]
    rfl

theorem NamesAgree.of_plain {dir : String} {topoArgs : List String}
    (stem : PlainStem (topoStem dir topoArgs).toList)
    (beside : FoundBeside dir.toList ("_".intercalate topoArgs).toList) :
    NamesAgree dir topoArgs where
  same := (written_iff dir topoArgs).mpr stem
  beside i := (distributed_iff dir topoArgs i).mpr beside
  distinct _ _ different same := different (written_path_injective dir topoArgs same)

end Paths

/-- The names agree exactly when the path has no dot before its suffix and no leading space, and
the file is found again in the directory of the full topology file. -/
theorem subTopoFilepath_namesAgree_iff (dir : String) (topoArgs : List String) :
    NamesAgree dir topoArgs ↔ PlainStem (topoStem dir topoArgs).toList ∧
      FoundBeside dir.toList ("_".intercalate topoArgs).toList := by
  constructor
  · intro agree
    exact ⟨(written_iff dir topoArgs).mp agree.same,
      (distributed_iff dir topoArgs 0).mp (agree.beside 0)⟩
  · intro plain
    exact .of_plain plain.1 plain.2

-- The first dot of the path is in the directory.
theorem versioned_names_differ :
    ¬ NamesAgree "/opt/splitnn-1.0/coordinator/topo" ["chain", "5"] := by
  intro agree
  exact absurd (agree.same 0) (by decide)

end SplitNN.Coordinator
