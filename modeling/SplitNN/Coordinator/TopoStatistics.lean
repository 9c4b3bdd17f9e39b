import Mathlib
import SplitNN.Coordinator.TrieTopology

set_option autoImplicit false

namespace SplitNN.Coordinator

section Model

-- `int` of a rational drops the fraction towards 0.
def pyInt (q : ℚ) : Int := if 0 ≤ q then ⌊q⌋ else ⌈q⌉

def getPairsNodeNum (n : Nat) : Int := pyInt (2 * n)

def getPairsLinkNum (n : Nat) : Int := pyInt n

def getChainNodeNum (n : Nat) : Int := pyInt n

def getChainLinkNum (n : Nat) : Int := pyInt (n - 1)

def getStarNodeNum (n : Nat) : Int := pyInt n

def getStarLinkNum (n : Nat) : Int := pyInt (n - 1)

def getFullmeshNodeNum (n : Nat) : Int := pyInt n

def getFullmeshLinkNum (n : Nat) : Int := pyInt (n * (n - 1) / 2)

def getTrieNodeNum (n _k : Nat) : Int := pyInt n

def getTrieLinkNum (n _k : Nat) : Int := pyInt (n - 1)

def getGridNodeNum (x y : Nat) : Int := pyInt (x * y)

def getGridLinkNum (x y : Nat) : Int := pyInt (2 * x * y)

def getClosNodeNum (k : Nat) : Int := pyInt (5 / 4 * k ^ 2 + k ^ 3 / 4)

def getClosLinkNum (k : Nat) : Int :=
  let podNum := k
  let superspineNum := (k / 2) ^ 2
  let spineNum := k / 2 * podNum
  let leafNum := k / 2 * podNum
  let clientNum := leafNum * k
  pyInt ((((superspineNum + spineNum + leafNum) * k + clientNum : Nat) : ℚ) / 2)

-- `topo_funcs`
def getNodeNum : Topo → Int
  | .chain n => getChainNodeNum n
  | .star n => getStarNodeNum n
  | .fullmesh n => getFullmeshNodeNum n
  | .pairs n => getPairsNodeNum n
  | .trie n k => getTrieNodeNum n k
  | .grid x y => getGridNodeNum x y
  | .clos k => getClosNodeNum k

def getLinkNum : Topo → Int
  | .chain n => getChainLinkNum n
  | .star n => getStarLinkNum n
  | .fullmesh n => getFullmeshLinkNum n
  | .pairs n => getPairsLinkNum n
  | .trie n k => getTrieLinkNum n k
  | .grid x y => getGridLinkNum x y
  | .clos k => getClosLinkNum k

end Model

theorem pyInt_intCast (z : Int) : pyInt z = z := by
  unfold pyInt
  split <;> simp

/-- Parameters from 1 on that the generator script accepts. -/
def Topo.Accepted : Topo → Prop
  | .chain n | .star n | .fullmesh n => 1 ≤ n
  | .pairs n => 2 ≤ n
  | .trie n k => 1 ≤ n ∧ 1 ≤ k
  | .grid x y => 1 ≤ x ∧ 1 ≤ y
  | .clos k => 1 ≤ k ∧ Even k

structure Agrees (topo : Topo) (file : TopoFile) : Prop where
  distinct : file.nodes.Nodup
  nodeNum : (file.nodes.length : Int) = getNodeNum topo
  linkNum : (file.edges.length : Int) = getLinkNum topo

def StatisticsAgree (topo : Topo) : Prop :=
  ∃ fuel file, generateTopology fuel topo = some file ∧ Agrees topo file

/-- The parameters for which the formulas were made. -/
def Topo.WithinFormulas : Topo → Prop
  | .chain _ | .star _ | .fullmesh _ | .pairs _ => True
  | .trie n k => 2 ≤ n ∧ 2 ≤ k
  | .grid x y => 2 ≤ x ∧ 2 ≤ y
  | .clos _ => False

section Kinds

theorem pyInt_natCast (n : Nat) : pyInt n = n := by
  exact_mod_cast pyInt_intCast n

theorem pyInt_pred {n : Nat} (positive : 1 ≤ n) : pyInt ((n : ℚ) - 1) = ((n - 1 : Nat) : Int) := by
  rw [← pyInt_natCast, Nat.cast_sub positive, Nat.cast_one]

theorem growTopology_agrees {topo : Topo} {edgesOf : Nat → List (Nat × Nat)} {n : Nat}
    (positive : 1 ≤ n) (nodeNum : getNodeNum topo = pyInt n)
    (linkNum : getLinkNum topo = pyInt ((n : ℚ) - 1)) (zero : edgesOf 0 = [])
    (one : ∀ i, (edgesOf (i + 1)).length = 1) : Agrees topo (growTopology edgesOf n) where
  distinct := numbered_nodup n
  nodeNum := by rw [nodeNum, pyInt_natCast, growTopology, List.length_map, List.length_range]
  linkNum := by rw [linkNum, pyInt_pred positive, growTopology_oneEach zero one]

theorem fullmesh_agrees {n : Nat} : Agrees (.fullmesh n) (generateFullmeshTopology n) where
  distinct := numbered_nodup n
  nodeNum := by
    simp [getNodeNum, getFullmeshNodeNum, pyInt_natCast, generateFullmeshTopology, growTopology]
  linkNum := by
    have twice := generateFullmeshTopology_edges n
    have half : ((n : ℚ) * (n - 1) / 2) = (generateFullmeshTopology n).edges.length := by
      cases n with
      | zero => simp [generateFullmeshTopology, growTopology]
      | succ n =>
        rw [Nat.add_sub_cancel] at twice
        have cast : ((generateFullmeshTopology (n + 1)).edges.length : ℚ) * 2 = (n + 1) * n := by
          exact_mod_cast twice
        rw [div_eq_iff two_ne_zero, cast]
        push_cast
        ring
    rw [getLinkNum, getFullmeshLinkNum, half, pyInt_natCast]

theorem pairs_agrees {n : Nat} (several : 2 ≤ n) : StatisticsAgree (.pairs n) := by
  have accepted : ¬ n < 2 := not_lt.mpr several
  refine ⟨0, _, by rw [generateTopology, generatePairs, if_neg accepted], ?_, ?_, ?_⟩
  · exact numbered_nodup (2 * n)
  · have double : ((2 * n : Nat) : ℚ) = 2 * n := by push_cast; rfl
    rw [getNodeNum, getPairsNodeNum, ← double, pyInt_natCast, List.length_map, List.length_range]
  · simp [getLinkNum, getPairsLinkNum, pyInt_natCast]

theorem grid_agrees_iff {x y : Nat} (accepted : 1 ≤ x ∧ 1 ≤ y) :
    Agrees (.grid x y) (generateGridTopology x y) ↔ 2 ≤ x ∧ 2 ≤ y := by
  have ⟨xPositive, yPositive⟩ := accepted
  have nodes := gridNodes_eq x y
  have edges := generateGridTopology_edges x y
  have nodeNum : getNodeNum (.grid x y) = (x * y : Nat) := by
    rw [← pyInt_natCast]
    simp [getNodeNum, getGridNodeNum]
  have linkNum : getLinkNum (.grid x y) = (2 * x * y : Nat) := by
    rw [← pyInt_natCast]
    simp [getLinkNum, getGridLinkNum]
  have area : 0 < x * y := Nat.mul_pos xPositive yPositive
  constructor
  · intro agrees
    have same := agrees.linkNum
    rw [linkNum, edges, Int.natCast_inj, ← Nat.mul_assoc] at same
    unfold wraps at same
    split_ifs at same <;> constructor <;> first | omega | (exfalso; nlinarith)
  · intro ⟨xWraps, yWraps⟩
    refine ⟨nodes ▸ numbered_nodup (x * y), ?_, ?_⟩
    · rw [nodeNum, nodes, List.length_map, List.length_range]
    · rw [linkNum, edges, wraps, wraps, if_pos (by omega), if_pos (by omega)]
      push_cast
      ring

theorem clos_nodes {k : Nat} (even : Even k) :
    ((closNames k).length : Int) = getNodeNum (.clos k) := by
  have ⟨half, whole⟩ := even
  have halved : k / 2 = half := by omega
  have count : (5 / 4 * (k : ℚ) ^ 2 + (k : ℚ) ^ 3 / 4) = (closNames k).length := by
    rw [length_closNames, halved, whole]
    push_cast
    ring
  rw [getNodeNum, getClosNodeNum, count, pyInt_natCast]

-- With `k = 2 * half` the file has 6 * half ^ 3 links and the formula gives 7 * half ^ 3.
theorem clos_links {k : Nat} (positive : 1 ≤ k) (even : Even k) :
    ((closLinks k).length : Int) ≠ getLinkNum (.clos k) := by
  have ⟨half, whole⟩ := even
  have halved : k / 2 = half := by omega
  have formula : getLinkNum (.clos k) = (7 * half ^ 3 : Nat) := by
    rw [← pyInt_natCast]
    simp only [getLinkNum, getClosLinkNum, halved]
    rw [whole]
    congr 1
    push_cast
    ring
  have cube : 0 < half ^ 3 := Nat.pow_pos (by omega)
  have counted : (closLinks k).length = 6 * half ^ 3 := by
    rw [length_closLinks, halved, whole]
    ring
  rw [formula, counted, Ne, Int.natCast_inj]
  omega

theorem clos_not_agrees {k : Nat} (accepted : (Topo.clos k).Accepted) :
    ¬ StatisticsAgree (.clos k) := by
  intro ⟨_, file, run, agrees⟩
  have ⟨edges, made, length⟩ := generateClosTopology_spec k
  cases Option.some.inj (made.symm.trans run)
  apply clos_links accepted.1 accepted.2
  rw [← length]
  exact agrees.linkNum

theorem trie_agrees_iff {n k : Nat} (accepted : (Topo.trie n k).Accepted) :
    StatisticsAgree (.trie n k) ↔ 2 ≤ n ∧ 2 ≤ k := by
  have linkNum : getLinkNum (.trie n k) = (n - 1 : Nat) := pyInt_pred accepted.1
  constructor
  · rintro ⟨fuel, file, run, agrees⟩
    have arity : 2 ≤ k := by
      by_contra unary
      obtain rfl : k = 1 := by
        have := accepted.2
        omega
      simp [generateTopology, generateTrieTopology, addTrieLayers_unary] at run
    refine ⟨?_, arity⟩
    by_contra single
    obtain rfl : n = 1 := by
      have := accepted.1
      omega
    have same := agrees.linkNum
    rw [linkNum, generateTrieTopology_single arity run] at same
    simp at same
  · rintro ⟨several, arity⟩
    obtain ⟨fuel, run⟩ := generateTrieTopology_edges arity several
    refine ⟨fuel, _, run 0, numbered_nodup n, ?_, ?_⟩
    · simp [getNodeNum, getTrieNodeNum, pyInt_natCast]
    · simp [linkNum, trieEdges]

end Kinds

/-- Generator and formulas agree exactly within the parameters the formulas were made for. -/
theorem statisticsAgree_iff {topo : Topo} (accepted : topo.Accepted) :
    StatisticsAgree topo ↔ topo.WithinFormulas := by
  cases topo with
  | chain n =>
    exact iff_of_true ⟨0, _, rfl, growTopology_agrees accepted rfl rfl rfl fun _ => rfl⟩ trivial
  | star n =>
    exact iff_of_true ⟨0, _, rfl, growTopology_agrees accepted rfl rfl rfl fun _ => rfl⟩ trivial
  | fullmesh n => exact iff_of_true ⟨0, _, rfl, fullmesh_agrees⟩ trivial
  | pairs n => exact iff_of_true (pairs_agrees accepted) trivial
  | trie n k => exact trie_agrees_iff accepted
  | grid x y =>
    rw [Topo.WithinFormulas, ← grid_agrees_iff accepted]
    constructor
    · intro ⟨_, file, run, agrees⟩
      exact Option.some.inj run ▸ agrees
    · exact fun agrees => ⟨0, _, rfl, agrees⟩
  | clos k => exact iff_of_false (clos_not_agrees accepted) id

theorem statisticsAgree_iff_sample :
    StatisticsAgree (.grid 3 4) ↔ (Topo.grid 3 4).WithinFormulas :=
  statisticsAgree_iff ⟨by decide, by decide⟩

-- The smallest fat tree has 6 links, and the formula gives 7.
theorem smallest_clos_not_agree : ¬ StatisticsAgree (.clos 2) :=
  clos_not_agrees ⟨by decide, by decide⟩

end SplitNN.Coordinator
