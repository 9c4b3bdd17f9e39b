import Mathlib
import SplitNN.Agent.NetworkSetup
import SplitNN.Agent.PlanCoverage

set_option autoImplicit false

namespace SplitNN.Agent

/-- Link `k` of the whole run is in namespace `k / L`, and so none carries more than `L` links. -/
structure Balanced (L : Nat) (plan : Plan) (trace : List Op) : Prop where
  placed : ∀ (k : Nat) edge, plan.edgeOrder.flatten[k]? = some edge →
    (linkPlacements trace)[k]? = some (some (k / L), edge)
  limit : ∀ j, (linkPlacements trace).countP (fun placement => decide (placement.1 = some j)) ≤ L

/-- Every link at whose number a namespace is due lies in the first step that has links. -/
def EntersInFirstStep (L edgeNum : Nat) (edgeOrder : List (List PlannedLink)) : Prop :=
  ∀ k < edgeNum, k % L = 0 → stepStart edgeOrder k = 0

theorem stepStart_zero {α : Type} (edgeOrder : List (List α)) : stepStart edgeOrder 0 = 0 := by
  induction edgeOrder with
  | nil => rfl
  | cons edges rest ih =>
    rw [stepStart]
    split
    next => rfl
    next empty =>
      rw [Nat.zero_sub, ih]
      omega

theorem countP_div_le {L : Nat} (positive : 0 < L) (n j : Nat) :
    (List.range n).countP (fun k => decide (k / L = j)) ≤ L := by
  rw [List.countP_eq_length_filter]
  have distinct : ((List.range n).filter fun k => decide (k / L = j)).Nodup :=
    List.nodup_range.filter _
  have inside : ((List.range n).filter fun k => decide (k / L = j)) ⊆ List.range' (j * L) L := by
    intro k member
    have share : k / L = j := by simpa using (List.mem_filter.mp member).2
    rw [Nat.div_eq_iff positive] at share
    rw [List.mem_range'_1]
    omega
  simpa using (distinct.subperm inside).length_le

theorem bbnsOf_eq_div_iff {L : Nat} (positive : 0 < L) {starts : Nat → Nat} (first : starts 0 = 0)
    {k : Nat} (due : k % L = 0) : bbnsOf L starts k = k / L ↔ starts k = 0 := by
  rw [bbnsOf_due starts due]
  cases Nat.eq_zero_or_pos (k / L) with
  | inl zero =>
    have start : k = 0 := by
      rw [← Nat.div_add_mod k L, zero, due]
      simp
    simp [start, first]
  | inr later =>
    rw [← entersBefore_eq_zero positive]
    omega

theorem limit_of_placed {L : Nat} {plan : Plan} {trace : List Op}
    (links : linkPlacements trace =
      plan.edgeOrder.flatten.zipIdx.map fun link => (some (link.2 / L), link.1))
    (positive : plan.edgeOrder.flatten ≠ [] → 0 < L) (j : Nat) :
    (linkPlacements trace).countP (fun placement => decide (placement.1 = some j)) ≤ L := by
  by_cases empty : plan.edgeOrder.flatten = []
  next => simp [links, empty]
  next =>
    have numbers : plan.edgeOrder.flatten.zipIdx.map Prod.snd =
        List.range plan.edgeOrder.flatten.length := by
      rw [List.zipIdx_map_snd, List.range_eq_range']
    have counted := countP_div_le (positive empty) plan.edgeOrder.flatten.length j
    rw [← numbers, List.countP_map] at counted
    rw [links, List.countP_map]
    simpa [Function.comp_def] using counted

/-- The splitting is balanced exactly when no namespace is due after the first step with links. -/
theorem networkSetup_balanced_iff {g : Graph} (wellFormed : g.WellFormed)
    (nonempty : g.adjacencyList.keys ≠ []) {planner : Planner} (valid : planner.Valid g)
    {plan : Plan} (planned : planner.run g = some plan) {backBoneNum : Nat}
    (some_bbns : 0 < backBoneNum) {fails : Failures}
    (succeeds : ∀ trace op, fails trace op = false) :
    (∃ trace, networkSetup fails g plan.nodeOrder plan.edgeOrder backBoneNum = .ok trace ∧
      Balanced (linkPerBackBoneNs g backBoneNum) plan trace) ↔
    EntersInFirstStep (linkPerBackBoneNs g backBoneNum) g.getEdgeNum plan.edgeOrder := by
  obtain ⟨found, same, covers, -⟩ := planner_spec wellFormed nonempty valid
  obtain rfl := Option.some.inj (planned.symm.trans same)
  have all : plan.edgeOrder.take plan.nodeOrder.length = plan.edgeOrder :=
    List.take_of_length_le (le_of_eq covers.steps)
  have total := covers.length_flatten
  obtain ⟨trace, run, placed⟩ := networkSetup_placed succeeds g some_bbns
    (le_of_eq covers.steps.symm) (by rw [all, total])
  rw [all] at placed
  have positive (some_link : 0 < g.getEdgeNum) : 0 < linkPerBackBoneNs g backBoneNum :=
    linkPerBackBoneNs_pos some_bbns some_link
  constructor
  next =>
    intro given k bound due
    rcases given with ⟨trace', run', balanced⟩
    obtain rfl := Except.ok.inj (run.symm.trans run')
    have edge : plan.edgeOrder.flatten[k]? = some plan.edgeOrder.flatten[k] :=
      List.getElem?_eq_getElem (by omega)
    have actual := placed.getElem? k
    rw [balanced.placed k _ edge, edge] at actual
    have index : k / linkPerBackBoneNs g backBoneNum =
        bbnsOf (linkPerBackBoneNs g backBoneNum) (stepStart plan.edgeOrder) k := by
      simpa using actual
    exact (bbnsOf_eq_div_iff (positive (by omega)) (stepStart_zero _) due).mp index.symm
  next =>
    intro entersInFirstStep
    have direct (k : Nat) (bound : k < g.getEdgeNum) :
        bbnsOf (linkPerBackBoneNs g backBoneNum) (stepStart plan.edgeOrder) k =
          k / linkPerBackBoneNs g backBoneNum := by
      have below := Nat.div_mul_le_self k (linkPerBackBoneNs g backBoneNum)
      rw [bbnsOf, entersInFirstStep _ (by omega) (Nat.mul_mod_left _ _),
        entersBefore_zero (positive (by omega)), Nat.sub_zero]
    have links : linkPlacements trace = plan.edgeOrder.flatten.zipIdx.map fun link =>
        (some (link.2 / linkPerBackBoneNs g backBoneNum), link.1) := by
      rw [placed.links]
      apply List.map_congr_left
      intro link member
      have bound := List.snd_lt_of_mem_zipIdx member
      rw [direct link.2 (by omega)]
    refine ⟨trace, run, ?_, limit_of_placed links fun some_link => ?_⟩
    · intro k edge listed
      have bound := (List.getElem?_eq_some_iff.mp listed).1
      rw [placed.getElem?, listed, direct k (by omega)]
      rfl
    · exact positive (total ▸ List.length_pos_iff.mpr some_link)

theorem networkSetup_balanced_iff_sample :
    (∃ trace, networkSetup noFailure sampleGraph
        (sampleGraph.naiveOrder [1, 2, 3] [1, 2, 3] [2]).nodeOrder
        (sampleGraph.naiveOrder [1, 2, 3] [1, 2, 3] [2]).edgeOrder 2 = .ok trace ∧
      Balanced (linkPerBackBoneNs sampleGraph 2)
        (sampleGraph.naiveOrder [1, 2, 3] [1, 2, 3] [2]) trace) ↔
    EntersInFirstStep (linkPerBackBoneNs sampleGraph 2) sampleGraph.getEdgeNum
      (sampleGraph.naiveOrder [1, 2, 3] [1, 2, 3] [2]).edgeOrder := by
  have valid : (Planner.naive [1, 2, 3] [1, 2, 3] [2]).Valid sampleGraph :=
    ⟨List.Perm.refl _, List.Perm.refl _, List.Perm.refl _⟩
  exact networkSetup_balanced_iff sampleGraph_wellFormed (by decide) valid rfl (by decide)
    fun _ _ => rfl

-- Three nodes in a row.
def pathGraph : Graph := ⟨⟨[(1, [2]), (2, [1, 3]), (3, [2])], by decide⟩, Dict.empty⟩

-- With two namespaces for two links in two steps, both links end up in the first namespace.
theorem pathGraph_not_balanced :
    pathGraph.WellFormed ∧ pathGraph.adjacencyList.keys ≠ [] ∧
      (Planner.dynamic [1, 2, 3]).Valid pathGraph ∧
      ∃ plan, (Planner.dynamic [1, 2, 3]).run pathGraph = some plan ∧
        ∃ trace, networkSetup noFailure pathGraph plan.nodeOrder plan.edgeOrder 2 = .ok trace ∧
          linkPlacements trace = [(some 0, (2, 1, -1, -1)), (some 0, (3, 2, -1, -1))] ∧
          ¬ Balanced (linkPerBackBoneNs pathGraph 2) plan trace := by
  have loopFree : Multigraph.LoopFree pathGraph.neighbors pathGraph.adjacencyList.keys := by
    unfold Multigraph.LoopFree
    decide
  have planned : (Planner.dynamic [1, 2, 3]).run pathGraph =
      some ⟨[1, 2, 3], [[], [(2, 1, -1, -1)], [(3, 2, -1, -1)]], [0, 1, 2]⟩ := by
    decide +kernel
  refine ⟨⟨⟨by decide, by decide, by decide⟩, loopFree, by decide⟩, by decide,
    List.Perm.refl _, _, planned,
    setUpOps [1, 2, 3] 2 ++ [.enterBbNs 0, .setupLink (2, 1, -1, -1), .enterBbNs 0,
      .setupLink (3, 2, -1, -1)], by rfl, by rfl, ?_⟩
  intro balanced
  have second := balanced.placed 1 (3, 2, -1, -1) rfl
  exact absurd second (by decide)

-- The naive plan keeps all its links for one step.
theorem naiveOrder_entersInFirstStep (g : Graph) (nodeOrder linkOrder danglingOrder : List Int)
    (L : Nat) {edgeNum : Nat} (bounded : edgeNum ≤
      (g.naiveOrder nodeOrder linkOrder danglingOrder).edgeOrder.flatten.length) :
    EntersInFirstStep L edgeNum (g.naiveOrder nodeOrder linkOrder danglingOrder).edgeOrder := by
  have idle (n : Nat) (edges : List PlannedLink) {k : Nat} (inside : k < edges.length) :
      stepStart (List.replicate n [] ++ [edges]) k = 0 := by
    induction n with
    | zero => simp [stepStart, inside]
    | succ n ih => simpa [List.replicate_succ, stepStart] using ih
  have empty (n : Nat) : (List.replicate n ([] : List PlannedLink)).flatten = [] := by simp
  intro k bound _
  simp only [Graph.naiveOrder, List.flatten_append, empty, List.flatten_singleton,
    List.nil_append] at bounded
  exact idle _ _ (lt_of_lt_of_le bound bounded)

end SplitNN.Agent
