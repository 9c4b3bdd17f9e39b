import Mathlib
import SplitNN.Coordinator.SubTopology
import SplitNN.Shared.Text

set_option autoImplicit false

namespace SplitNN.Coordinator

open Text (ofLines)

def recordLine (edge : String × String) : String := edge.1 ++ " " ++ edge.2 ++ "\n"

def writeSubtopoToFile (sub : SubTopology) : String :=
  " ".intercalate sub.nodes ++ "\n" ++ String.join (sub.edges.map recordLine) ++
    String.join (sub.dangling.map recordLine)

def subTopoFilepath (inputTopoFilepath : String) (i : Nat) : String :=
  let tmpFilepathArr := ((Text.strip inputTopoFilepath.toList).splitOn '.').map String.ofList
  ".".intercalate (tmpFilepathArr.take 1 ++ ["sub" ++ toString i] ++ tmpFilepathArr.drop 1)

-- The files that `write_subtopos_to_file` writes, as pairs of a path and a text.
def writeSubtoposToFile (nodes : List NodeName) (adjacencyList : AdjacencyList)
    (node2serverid : Dict NodeName Nat) (serverNum : Nat) (inputTopoFilepath : String) :
    Option (List (String × String)) := do
  let subgraphs ← collectSubtopos nodes adjacencyList node2serverid serverNum
  (List.range serverNum).mapM fun i => do
    let sub ← subgraphs.get? i
    return (subTopoFilepath inputTopoFilepath i, writeSubtopoToFile sub)

-- The loop of `count_lines_islice`; each round but the last takes at least one line.
def countChunks (chunkSize : Nat) : Nat → List (List Char) → Nat → Nat
  | 0, _, count => count
  | fuel + 1, lines, count =>
    let buffer := lines.take chunkSize
    if buffer = [] then count
    else countChunks chunkSize fuel (lines.drop chunkSize)
      (count + (buffer.length - buffer.count []))

def countLinesIslice (text : String) (chunkSize : Nat) : Nat :=
  let lines := Text.fileLines text.toList
  countChunks chunkSize (lines.length + 1) lines 0

theorem countChunks_lines {chunkSize : Nat} (positive : 0 < chunkSize) (lines : List (List Char))
    (nonempty : [] ∉ lines) {fuel : Nat} (enough : lines.length < fuel) (count : Nat) :
    countChunks chunkSize fuel lines count = count + lines.length := by
  induction fuel generalizing lines count with
  | zero => simp at enough
  | succ fuel ih =>
    cases lines with
    | nil => simp [countChunks]
    | cons line rest =>
      have taken : (line :: rest).take chunkSize ≠ [] := by
        simp [List.take_eq_nil_iff]
        omega
      have clean : ((line :: rest).take chunkSize).count [] = 0 :=
        List.count_eq_zero.mpr fun member => nonempty (List.mem_of_mem_take member)
      have later := ih ((line :: rest).drop chunkSize)
        (fun member => nonempty (List.mem_of_mem_drop member))
        (by simp only [List.length_drop, List.length_cons] at enough ⊢; omega)
        (count + ((line :: rest).take chunkSize).length)
      simp only [countChunks, taken, if_false, clean, Nat.sub_zero]
      rw [later]
      simp only [List.length_take, List.length_drop]
      omega

def fileLinesOf (sub : SubTopology) : List (List Char) :=
  [' '].intercalate (sub.nodes.map String.toList) ::
    (sub.edges ++ sub.dangling).map fun edge => edge.1.toList ++ ' ' :: edge.2.toList

theorem writeSubtopoToFile_toList (sub : SubTopology) :
    (writeSubtopoToFile sub).toList = ofLines (fileLinesOf sub) := by
  have records (edges : List (String × String)) :
      (String.join (edges.map recordLine)).toList =
        ofLines (edges.map fun edge => edge.1.toList ++ ' ' :: edge.2.toList) := by
    induction edges with
    | nil => simp [ofLines]
    | cons edge rest ih =>
      rw [List.map_cons, List.map_cons, String.join_cons, String.toList_append, ih,
        Text.ofLines_cons]
      simp [recordLine]
  have append (first second : List (List Char)) :
      ofLines (first ++ second) = ofLines first ++ ofLines second := by
    simp [ofLines]
  rw [fileLinesOf, Text.ofLines_cons, List.map_append, append, ← records, ← records]
  simp [writeSubtopoToFile]

theorem countLinesIslice_writeSubtopoToFile (sub : SubTopology)
    (oneLine : ∀ line ∈ fileLinesOf sub, '\n' ∉ line)
    (clean : ∀ line ∈ fileLinesOf sub, '\r' ∉ line) {chunkSize : Nat} (positive : 0 < chunkSize) :
    countLinesIslice (writeSubtopoToFile sub) chunkSize =
      1 + sub.edges.length + sub.dangling.length := by
  have lines : Text.fileLines (writeSubtopoToFile sub).toList =
      (fileLinesOf sub).map fun line => line ++ ['\n'] := by
    rw [writeSubtopoToFile_toList, Text.fileLines_ofLines oneLine clean]
  rw [countLinesIslice, lines, countChunks_lines positive _ (by simp) (Nat.lt_succ_self _)]
  simp [fileLinesOf]
  omega

end SplitNN.Coordinator
