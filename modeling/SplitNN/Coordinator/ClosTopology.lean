import Mathlib
import SplitNN.Shared.LoopNest
import SplitNN.Shared.Multigraph
import SplitNN.Shared.CText
import SplitNN.Coordinator.TopoGenerators

set_option autoImplicit false

namespace SplitNN.Coordinator

inductive ClosNode where
  | leaf (podId leafId : Nat)
  | spine (podId spineId : Nat)
  | superspine (superspineId : Nat)
  | client (podId leafId clientId : Nat)
deriving DecidableEq

namespace ClosNode

def name : ClosNode → String
  | leaf podId leafId => leafName podId leafId
  | spine podId spineId => spineName podId spineId
  | superspine superspineId => superspineName superspineId
  | client podId leafId clientId => clientName podId leafId clientId

def tier : ClosNode → Nat
  | client .. => 0
  | leaf .. => 1
  | spine .. => 2
  | superspine .. => 3

end ClosNode

section Names

-- What the names of a pod share, up to the first underscore.
def podText (podId : Nat) (tail : List Char) : List Char :=
  "pod".toList ++ Nat.toDigits 10 podId ++ '_' :: tail

theorem podText_inj {podId podId' : Nat} {tail tail' : List Char} :
    podText podId tail = podText podId' tail' ↔ podId = podId' ∧ tail = tail' := by
  constructor
  next =>
    intro same
    have clean (n : Nat) : '_' ∉ "pod".toList ++ Nat.toDigits 10 n := by simp
    have ⟨pods, tails⟩ := Text.separated_append_inj (clean podId) (clean podId') same
    exact ⟨Text.toDigits_injective (List.append_cancel_left pods), tails⟩
  next => exact fun ⟨pods, tails⟩ => by rw [pods, tails]

-- A word with a number behind it.
def numbered (word : String) (n : Nat) : List Char := word.toList ++ Nat.toDigits 10 n

theorem numbered_inj {word : String} {m n : Nat} : numbered word m = numbered word n ↔ m = n :=
  ⟨fun same => Text.toDigits_injective (List.append_cancel_left same), fun same => by rw [same]⟩

def ClosNode.text : ClosNode → List Char
  | leaf podId leafId => podText podId (numbered "leaf" leafId)
  | spine podId spineId => podText podId (numbered "spine" spineId)
  | superspine superspineId => numbered "superspine" superspineId
  | client podId leafId clientId =>
    podText podId (numbered "leaf" leafId ++ '_' :: numbered "client" clientId)

theorem ClosNode.toList_name (node : ClosNode) : node.name.toList = node.text := by
  have plain (s : String) : toString s = s := rfl
  cases node <;>
    simp [name, leafName, spineName, superspineName, clientName, plain, text, podText, numbered]

theorem leaf_not_underscored (leafId : Nat) : '_' ∉ numbered "leaf" leafId := by
  simp [numbered]

theorem ClosNode.text_inj {node other : ClosNode} (same : node.text = other.text) :
    node = other := by
  have notClient {leafId leafId' clientId : Nat} : numbered "leaf" leafId ≠
      numbered "leaf" leafId' ++ '_' :: numbered "client" clientId := by
    intro equal
    apply leaf_not_underscored leafId
    rw [equal]
    simp
  cases node with
  | leaf podId leafId =>
    cases other with
    | leaf podId' leafId' => simpa [text, podText_inj, numbered_inj] using same
    | spine podId' spineId => simp [text, podText_inj, numbered] at same
    | superspine superspineId => simp [text, podText, numbered] at same
    | client podId' leafId' clientId => exact absurd (podText_inj.mp same).2 notClient
  | spine podId spineId =>
    cases other with
    | leaf podId' leafId => simp [text, podText_inj, numbered] at same
    | spine podId' spineId' => simpa [text, podText_inj, numbered_inj] using same
    | superspine superspineId => simp [text, podText, numbered] at same
    | client podId' leafId clientId => simp [text, podText_inj, numbered] at same
  | superspine superspineId =>
    cases other with
    | superspine superspineId' => simpa [text, numbered_inj] using same
    | _ => simp [text, podText, numbered] at same
  | client podId leafId clientId =>
    cases other with
    | leaf podId' leafId' => exact absurd (podText_inj.mp same).2.symm notClient
    | spine podId' spineId => simp [text, podText_inj, numbered] at same
    | superspine superspineId => simp [text, podText, numbered] at same
    | client podId' leafId' clientId' =>
      have ⟨pods, tails⟩ := podText_inj.mp same
      have ⟨leaves, clients⟩ := Text.separated_append_inj (leaf_not_underscored leafId)
        (leaf_not_underscored leafId') tails
      rw [pods, numbered_inj.mp leaves, numbered_inj.mp clients]

theorem ClosNode.name_inj {node other : ClosNode} (same : node.name = other.name) :
    node = other :=
  text_inj (by rw [← toList_name, ← toList_name, same])

end Names

section Wires

variable {k : Nat}

def closNodes (k : Nat) : List ClosNode :=
  (upTo k).flatMap (fun podId => (upTo (k / 2)).map (.leaf podId) ++
      (upTo (k / 2)).map (.spine podId)) ++
    (upTo ((k / 2) ^ 2)).map .superspine ++
    (upTo k).flatMap fun podId => (upTo (k / 2)).flatMap fun leafId =>
      (upTo (k / 2)).map (.client podId leafId)

def podWires (k : Nat) : List (ClosNode × ClosNode) :=
  (upTo k).flatMap fun podId => (upTo (k / 2)).flatMap fun leafId =>
    (upTo (k / 2)).map fun spineId => (.leaf podId leafId, .spine podId spineId)

def uplinkWires (k : Nat) : List (ClosNode × ClosNode) :=
  (upTo k).flatMap fun podId => ((spineUplinks k).zipIdx 1).map fun (spineId, superspineId) =>
    (.spine podId spineId, .superspine superspineId)

def clientWires (k : Nat) : List (ClosNode × ClosNode) :=
  (upTo k).flatMap fun podId => (upTo (k / 2)).flatMap fun leafId =>
    (upTo (k / 2)).map fun clientId => (.client podId leafId clientId, .leaf podId leafId)

def closWires (k : Nat) : List (ClosNode × ClosNode) :=
  podWires k ++ uplinkWires k ++ clientWires k

theorem closNames_nodes (k : Nat) : closNames k = (closNodes k).map ClosNode.name := by
  simp [closNames, closNodes, List.map_flatMap, Function.comp_def, ClosNode.name]

theorem closLinks_wires (k : Nat) :
    closLinks k = (closWires k).map fun wire => (wire.1.name, wire.2.name) := by
  simp [closLinks, closWires, podWires, uplinkWires, clientWires, List.map_flatMap,
    Function.comp_def, ClosNode.name]

theorem upTo_nodup (n : Nat) : (upTo n).Nodup := List.nodup_range'

theorem upTo_range (n : Nat) : upTo n = (List.range n).map fun i => i + 1 := by
  simp [upTo, List.range'_eq_map_range, Nat.add_comm]

@[simp] theorem leaf_mem_closNodes {podId leafId : Nat} :
    .leaf podId leafId ∈ closNodes k ↔ podId ∈ upTo k ∧ leafId ∈ upTo (k / 2) := by
  simp [closNodes]

@[simp] theorem spine_mem_closNodes {podId spineId : Nat} :
    .spine podId spineId ∈ closNodes k ↔ podId ∈ upTo k ∧ spineId ∈ upTo (k / 2) := by
  simp [closNodes]

@[simp] theorem superspine_mem_closNodes {superspineId : Nat} :
    .superspine superspineId ∈ closNodes k ↔ superspineId ∈ upTo ((k / 2) ^ 2) := by
  simp [closNodes]

@[simp] theorem client_mem_closNodes {podId leafId clientId : Nat} :
    .client podId leafId clientId ∈ closNodes k ↔
      podId ∈ upTo k ∧ leafId ∈ upTo (k / 2) ∧ clientId ∈ upTo (k / 2) := by
  simp [closNodes]

theorem closNodes_nodup (k : Nat) : (closNodes k).Nodup := by
  have pods : ((upTo k).flatMap fun podId => (upTo (k / 2)).map (ClosNode.leaf podId) ++
      (upTo (k / 2)).map (ClosNode.spine podId)).Nodup := by
    refine LoopNest.nodup_flatMap (upTo_nodup k) (fun podId => ?_) ?_
    · refine List.Nodup.append ((upTo_nodup _).map fun _ _ => by simp)
        ((upTo_nodup _).map fun _ _ => by simp) ?_
      simp [List.disjoint_left]
    · intro podId podId' node here there
      simp only [List.mem_append, List.mem_map] at here there
      grind
  have clients : ((upTo k).flatMap fun podId => (upTo (k / 2)).flatMap fun leafId =>
      (upTo (k / 2)).map (ClosNode.client podId leafId)).Nodup :=
    LoopNest.nodup_nest (upTo_nodup k) (upTo_nodup _) (upTo_nodup _) (by simp +contextual)
  refine List.Nodup.append (pods.append ((upTo_nodup _).map fun _ _ => by simp) ?_) clients ?_
  · simp [List.disjoint_left]
    grind
  · simp [List.disjoint_left]
    grind

theorem spineUplinks_rows (k : Nat) :
    spineUplinks k = (List.range (k / 2 * (k / 2))).map fun i => i / (k / 2) + 1 := by
  rw [← LoopNest.flatMap_range, spineUplinks, upTo_range, List.flatMap_map]
  congr 1
  funext i
  rw [List.map_map]
  refine List.map_congr_left fun j member => ?_
  have inRow : j < k / 2 := List.mem_range.mp member
  rw [Nat.mul_comm, Nat.mul_add_div (by omega), Nat.div_eq_of_lt inRow]
  rfl

theorem spineUplinks_numbered (k : Nat) : (spineUplinks k).zipIdx 1 =
    (List.range (k / 2 * (k / 2))).map fun i => (i / (k / 2) + 1, i + 1) := by
  rw [spineUplinks_rows]
  apply List.ext_getElem
  · simp
  · intro i left right
    simp [Nat.add_comm]

/-- The wires of the fat tree; a superspine keeps its spine position in every pod. -/
inductive ClosWire (k : Nat) : ClosNode → ClosNode → Prop
  | pod {podId leafId spineId : Nat} : podId ∈ upTo k → leafId ∈ upTo (k / 2) →
      spineId ∈ upTo (k / 2) → ClosWire k (.leaf podId leafId) (.spine podId spineId)
  | uplink {podId superspineId : Nat} : podId ∈ upTo k → superspineId ∈ upTo ((k / 2) ^ 2) →
      ClosWire k (.spine podId ((superspineId - 1) / (k / 2) + 1)) (.superspine superspineId)
  | client {podId leafId clientId : Nat} : podId ∈ upTo k → leafId ∈ upTo (k / 2) →
      clientId ∈ upTo (k / 2) → ClosWire k (.client podId leafId clientId) (.leaf podId leafId)

theorem mem_podWires {wire : ClosNode × ClosNode} : wire ∈ podWires k ↔
    ∃ podId ∈ upTo k, ∃ leafId ∈ upTo (k / 2), ∃ spineId ∈ upTo (k / 2),
      (.leaf podId leafId, .spine podId spineId) = wire := by
  simp only [podWires, List.mem_flatMap, List.mem_map]

theorem mem_uplinkWires {wire : ClosNode × ClosNode} : wire ∈ uplinkWires k ↔
    ∃ podId ∈ upTo k, ∃ i, i < k / 2 * (k / 2) ∧
      (.spine podId (i / (k / 2) + 1), .superspine (i + 1)) = wire := by
  simp [uplinkWires, spineUplinks_numbered]

theorem mem_clientWires {wire : ClosNode × ClosNode} : wire ∈ clientWires k ↔
    ∃ podId ∈ upTo k, ∃ leafId ∈ upTo (k / 2), ∃ clientId ∈ upTo (k / 2),
      (.client podId leafId clientId, .leaf podId leafId) = wire := by
  simp only [clientWires, List.mem_flatMap, List.mem_map]

theorem mem_closWires {node other : ClosNode} :
    (node, other) ∈ closWires k ↔ ClosWire k node other := by
  rw [closWires, List.mem_append, List.mem_append, mem_podWires, mem_uplinkWires, mem_clientWires]
  constructor
  next =>
    rintro ((⟨podId, pod, leafId, leaf, spineId, spine, same⟩ | ⟨podId, pod, i, bound, same⟩) |
      ⟨podId, pod, leafId, leaf, clientId, client, same⟩)
    · cases same
      exact .pod pod leaf spine
    · cases same
      have superspine : i + 1 ∈ upTo ((k / 2) ^ 2) := mem_upTo.mpr (by rw [sq]; omega)
      exact .uplink pod superspine
    · cases same
      exact .client pod leaf client
  next =>
    intro wire
    cases wire with
    | pod pod leaf spine => exact .inl (.inl ⟨_, pod, _, leaf, _, spine, rfl⟩)
    | @uplink podId superspineId pod superspine =>
      have ⟨low, high⟩ := mem_upTo.mp superspine
      rw [sq] at high
      refine .inl (.inr ⟨_, pod, superspineId - 1, by omega, ?_⟩)
      rw [Nat.sub_add_cancel low]
    | client pod leaf client => exact .inr ⟨_, pod, _, leaf, _, client, rfl⟩

theorem ClosWire.tier_lt {node other : ClosNode} (wire : ClosWire k node other) :
    node.tier < other.tier := by
  cases wire <;> simp [ClosNode.tier]

theorem spinePosition_mem {superspineId : Nat} (superspine : superspineId ∈ upTo ((k / 2) ^ 2)) :
    (superspineId - 1) / (k / 2) + 1 ∈ upTo (k / 2) := by
  have ⟨low, high⟩ := mem_upTo.mp superspine
  have row : (superspineId - 1) / (k / 2) < k / 2 := by
    apply Nat.div_lt_of_lt_mul
    rw [sq] at high
    omega
  exact mem_upTo.mpr ⟨Nat.le_add_left 1 _, row⟩

theorem ClosWire.mem_closNodes {node other : ClosNode} (wire : ClosWire k node other) :
    node ∈ closNodes k ∧ other ∈ closNodes k := by
  cases wire with
  | pod pod leaf spine => simp [pod, leaf, spine]
  | uplink pod superspine => simp [pod, spinePosition_mem superspine, superspine]
  | client pod leaf client => simp [pod, leaf, client]

theorem closWires_nodup (k : Nat) : (closWires k).Nodup := by
  have pods : (podWires k).Nodup :=
    LoopNest.nodup_nest (upTo_nodup k) (upTo_nodup _) (upTo_nodup _) (by simp +contextual)
  have uplinks : (uplinkWires k).Nodup := by
    simp only [uplinkWires, spineUplinks_numbered, List.map_map]
    refine LoopNest.nodup_flatMap (upTo_nodup k)
      (fun podId => List.nodup_range.map fun i j same => by simpa using (Prod.mk.inj same).2) ?_
    intro podId podId' wire here there
    simp only [List.mem_map, Function.comp_apply] at here there
    grind
  have clients : (clientWires k).Nodup :=
    LoopNest.nodup_nest (upTo_nodup k) (upTo_nodup _) (upTo_nodup _) (by simp +contextual)
  refine List.Nodup.append (pods.append uplinks ?_) clients ?_
  · intro wire here there
    have ⟨_, _, _, _, _, _, pod⟩ := mem_podWires.mp here
    have ⟨_, _, _, _, uplink⟩ := mem_uplinkWires.mp there
    cases pod.trans uplink.symm
  · intro wire here there
    have ⟨_, _, _, _, _, _, client⟩ := mem_clientWires.mp there
    rcases List.mem_append.mp here with inPod | inUplinks
    · have ⟨_, _, _, _, _, _, pod⟩ := mem_podWires.mp inPod
      cases pod.trans client.symm
    · have ⟨_, _, _, _, uplink⟩ := mem_uplinkWires.mp inUplinks
      cases uplink.trans client.symm

end Wires

section Degrees

variable {V : Type} [DecidableEq V]

-- The number of link ends at a node.
def degree (links : List (V × V)) (node : V) : Nat :=
  (links.map Prod.fst).count node + (links.map Prod.snd).count node

theorem degree_append (links links' : List (V × V)) (node : V) :
    degree (links ++ links') node = degree links node + degree links' node := by
  simp only [degree, List.map_append, List.count_append]
  omega

variable {k : Nat}

def podDegree (k : Nat) : ClosNode → Nat
  | .leaf .. => k / 2
  | .spine .. => k / 2
  | _ => 0

def uplinkDegree (k : Nat) : ClosNode → Nat
  | .spine .. => k / 2
  | .superspine .. => k
  | _ => 0

def clientDegree (k : Nat) : ClosNode → Nat
  | .client .. => 1
  | .leaf .. => k / 2
  | _ => 0

theorem degree_podWires {node : ClosNode} (member : node ∈ closNodes k) :
    degree (podWires k) node = podDegree k node := by
  simp only [degree, podWires, List.map_flatMap, List.map_map, Function.comp_def]
  cases node with
  | leaf podId leafId =>
    have ⟨pod, leaf⟩ := leaf_mem_closNodes.mp member
    rw [LoopNest.count_flatMap_only (upTo_nodup k) pod (by simp +contextual),
      LoopNest.count_flatMap_only (upTo_nodup _) leaf (by simp +contextual)]
    simp [List.count_eq_zero, podDegree]
  | spine podId spineId =>
    have ⟨pod, spine⟩ := spine_mem_closNodes.mp member
    have once : ((upTo (k / 2)).map (ClosNode.spine podId)).count (.spine podId spineId) = 1 :=
      LoopNest.count_map_one (upTo_nodup _) (fun _ _ => by simp) spine
    rw [Nat.add_comm, LoopNest.count_flatMap_only (upTo_nodup k) pod (by simp +contextual),
      LoopNest.count_flatMap_each fun _ _ => once]
    simp [List.count_eq_zero, podDegree]
  | superspine superspineId => simp [List.count_eq_zero, podDegree]
  | client podId leafId clientId => simp [List.count_eq_zero, podDegree]

theorem degree_uplinkWires {node : ClosNode} (member : node ∈ closNodes k) :
    degree (uplinkWires k) node = uplinkDegree k node := by
  simp only [degree, uplinkWires, List.map_flatMap, List.map_map, Function.comp_def]
  cases node with
  | spine podId spineId =>
    have ⟨pod, spine⟩ := spine_mem_closNodes.mp member
    have spines : (((spineUplinks k).zipIdx 1).map fun uplink =>
        ClosNode.spine podId uplink.1) = (spineUplinks k).map (.spine podId) := by
      conv_rhs => rw [← List.zipIdx_map_fst 1 (spineUplinks k), List.map_map]
      rfl
    have ports : (((spineUplinks k).zipIdx 1).map fun uplink =>
        ClosNode.spine podId uplink.1).count (.spine podId spineId) = k / 2 := by
      rw [spines, LoopNest.count_map_apart (by simp), spineUplinks,
        LoopNest.count_flatMap_only (upTo_nodup _) spine (by simp +contextual)]
      simp
    rw [LoopNest.count_flatMap_only (upTo_nodup k) pod (by simp +contextual), ports]
    simp [List.count_eq_zero, uplinkDegree]
  | superspine superspineId =>
    have superspine := superspine_mem_closNodes.mp member
    have once (podId : Nat) : (((spineUplinks k).zipIdx 1).map fun uplink =>
        ClosNode.superspine uplink.2).count (.superspine superspineId) = 1 := by
      have numbers : (((spineUplinks k).zipIdx 1).map fun uplink =>
          ClosNode.superspine uplink.2) = (upTo ((k / 2) ^ 2)).map .superspine := by
        rw [sq, upTo, ← length_spineUplinks, ← List.zipIdx_map_snd 1 (spineUplinks k),
          List.map_map]
        rfl
      rw [numbers]
      exact LoopNest.count_map_one (upTo_nodup _) (fun _ _ => by simp) superspine
    rw [Nat.add_comm, LoopNest.count_flatMap_each fun podId _ => once podId]
    simp [List.count_eq_zero, uplinkDegree]
  | leaf podId leafId => simp [List.count_eq_zero, uplinkDegree]
  | client podId leafId clientId => simp [List.count_eq_zero, uplinkDegree]

theorem degree_clientWires {node : ClosNode} (member : node ∈ closNodes k) :
    degree (clientWires k) node = clientDegree k node := by
  simp only [degree, clientWires, List.map_flatMap, List.map_map, Function.comp_def]
  cases node with
  | leaf podId leafId =>
    have ⟨pod, leaf⟩ := leaf_mem_closNodes.mp member
    rw [Nat.add_comm, LoopNest.count_flatMap_only (upTo_nodup k) pod (by simp +contextual),
      LoopNest.count_flatMap_only (upTo_nodup _) leaf (by simp +contextual)]
    simp [List.count_eq_zero, clientDegree]
  | client podId leafId clientId =>
    have ⟨pod, leaf, client⟩ := client_mem_closNodes.mp member
    have once : ((upTo (k / 2)).map (ClosNode.client podId leafId)).count
        (.client podId leafId clientId) = 1 :=
      LoopNest.count_map_one (upTo_nodup _) (fun _ _ => by simp) client
    rw [LoopNest.count_flatMap_only (upTo_nodup k) pod (by simp +contextual),
      LoopNest.count_flatMap_only (upTo_nodup _) leaf (by simp +contextual), once]
    simp [List.count_eq_zero, clientDegree]
  | superspine superspineId => simp [List.count_eq_zero, clientDegree]
  | spine podId spineId => simp [List.count_eq_zero, clientDegree]

theorem degree_closWires {node : ClosNode} (member : node ∈ closNodes k) :
    degree (closWires k) node = podDegree k node + uplinkDegree k node + clientDegree k node := by
  rw [closWires, degree_append, degree_append, degree_podWires member, degree_uplinkWires member,
    degree_clientWires member]

end Degrees

section Numbering

theorem addClosNodes_absent {name : String} (names : List String) (st : ClosState)
    (absent : name ∉ names) :
    (names.foldl addClosNode st).name2id.get? name = st.name2id.get? name := by
  induction names generalizing st with
  | nil => rfl
  | cons first rest ih =>
    rw [List.mem_cons, not_or] at absent
    rw [List.foldl_cons, ih _ absent.2, addClosNode, Dict.get?_set, if_neg absent.1]

theorem addClosNodes_get? {name : String} {names : List String} (distinct : names.Nodup)
    (st : ClosState) (member : name ∈ names) :
    (names.foldl addClosNode st).name2id.get? name = some (st.nodeId + names.idxOf name) := by
  induction names generalizing st with
  | nil => cases member
  | cons first rest ih =>
    have ⟨absent, later⟩ := List.nodup_cons.mp distinct
    rw [List.foldl_cons]
    by_cases here : name = first
    next =>
      rw [here, addClosNodes_absent _ _ absent, addClosNode, Dict.get?_set, if_pos rfl,
        List.idxOf_cons_self]
      rfl
    next =>
      have inRest : name ∈ rest := (List.mem_cons.mp member).resolve_left here
      rw [ih later _ inRest, List.idxOf_cons_ne _ (Ne.symm here), addClosNode]
      congr 1
      simp only
      omega

variable {k : Nat}

def closTable (k : Nat) : Dict String Nat :=
  ((closNames k).foldl addClosNode ⟨Dict.empty, [], 1⟩).name2id

def closId (k : Nat) (node : ClosNode) : Nat := (closNames k).idxOf node.name + 1

theorem closNames_nodup (k : Nat) : (closNames k).Nodup := by
  rw [closNames_nodes]
  exact (closNodes_nodup k).map fun _ _ same => ClosNode.name_inj same

theorem name_mem_closNames {node : ClosNode} (member : node ∈ closNodes k) :
    node.name ∈ closNames k :=
  closNames_nodes k ▸ List.mem_map_of_mem member

theorem closTable_get? {node : ClosNode} (member : node ∈ closNodes k) :
    (closTable k).get? node.name = some (closId k node) := by
  rw [closTable, addClosNodes_get? (closNames_nodup k) _ (name_mem_closNames member), closId,
    Nat.add_comm]

theorem closId_inj {node other : ClosNode} (member : node ∈ closNodes k)
    (same : closId k node = closId k other) : node = other :=
  ClosNode.name_inj ((List.idxOf_inj (name_mem_closNames member)).mp (Nat.succ.inj same))

theorem mem_closIds {i : Nat} : i ∈ List.range' 1 (closNodes k).length ↔
    ∃ node ∈ closNodes k, closId k node = i := by
  rw [List.mem_range'_1]
  have length : (closNames k).length = (closNodes k).length := by
    rw [closNames_nodes, List.length_map]
  constructor
  next =>
    intro ⟨low, high⟩
    have inside : i - 1 < (closNodes k).length := by omega
    refine ⟨(closNodes k)[i - 1], List.getElem_mem inside, ?_⟩
    have insideNames : i - 1 < (closNames k).length := by omega
    have named : (closNodes k)[i - 1].name = (closNames k)[i - 1] := by
      simp [closNames_nodes]
    rw [closId, named, (closNames_nodup k).idxOf_getElem]
    omega
  next =>
    rintro ⟨node, member, rfl⟩
    have place := List.idxOf_lt_length_of_mem (name_mem_closNames member)
    rw [closId]
    omega

def closFile (k : Nat) : TopoFile where
  nodes := List.range' 1 (closNodes k).length
  edges := (closWires k).map fun wire => (closId k wire.1, closId k wire.2)

theorem generateClosTopology_file (k : Nat) : generateClosTopology k = some (closFile k) := by
  have ⟨numbered, _⟩ := addClosNodes_spec (closNames k) ⟨Dict.empty, [], 1⟩
  have found : ((closLinks k).mapM fun link => do
      let nodeIdI ← (closTable k).get? link.1
      let nodeIdJ ← (closTable k).get? link.2
      return (nodeIdI, nodeIdJ)) = some (closFile k).edges := by
    rw [Monadic.mapM_eq_some, closLinks_wires, List.map_map, closFile, List.map_map]
    refine List.map_congr_left fun wire listed => ?_
    have ⟨first, second⟩ := (mem_closWires.mp listed).mem_closNodes
    simp [closTable_get? first, closTable_get? second]
  have nodes : ((closNames k).foldl addClosNode ⟨Dict.empty, [], 1⟩).nodes =
      (closFile k).nodes := by
    rw [numbered, closNames_nodes, List.length_map]
    rfl
  simp only [closTable] at found
  simp only [generateClosTopology, nodes]
  rw [found]
  rfl

end Numbering

section FatTree

variable {k : Nat}

def Linked (links : List (Nat × Nat)) (u v : Nat) : Prop := s(u, v) ∈ Multigraph.unordered links

theorem linked_iff {node other : ClosNode} (here : node ∈ closNodes k)
    (there : other ∈ closNodes k) :
    Linked (closFile k).edges (closId k node) (closId k other) ↔
      ClosWire k node other ∨ ClosWire k other node := by
  simp only [Linked, Multigraph.unordered, closFile, List.map_map, List.mem_map,
    Function.comp_apply]
  constructor
  next =>
    rintro ⟨⟨first, second⟩, listed, same⟩
    rcases Sym2.eq_iff.mp same with ⟨left, right⟩ | ⟨left, right⟩
    · rw [closId_inj here left.symm, closId_inj there right.symm]
      exact .inl (mem_closWires.mp listed)
    · rw [closId_inj here right.symm, closId_inj there left.symm]
      exact .inr (mem_closWires.mp listed)
  next =>
    rintro (wire | wire)
    · exact ⟨(node, other), mem_closWires.mpr wire, rfl⟩
    · exact ⟨(other, node), mem_closWires.mpr wire, Sym2.eq_swap⟩

theorem degree_closFile {node : ClosNode} (member : node ∈ closNodes k) :
    degree (closFile k).edges (closId k node) = degree (closWires k) node := by
  have apart (part : ClosNode × ClosNode → ClosNode)
      (inside : ∀ wire ∈ closWires k, part wire ∈ closNodes k) :
      ((closWires k).map fun wire => closId k (part wire)).count (closId k node) =
        ((closWires k).map part).count node := by
    rw [← LoopNest.count_map_apart (f := closId k), List.map_map]
    · rfl
    · exact fun other _ same => (closId_inj member same.symm).symm
  simp only [degree, closFile, List.map_map, Function.comp_def]
  rw [apart Prod.fst fun wire listed => (mem_closWires.mp listed).mem_closNodes.1,
    apart Prod.snd fun wire listed => (mem_closWires.mp listed).mem_closNodes.2]

theorem closFile_simple (k : Nat) : (Multigraph.unordered (closFile k).edges).Nodup := by
  rw [Multigraph.unordered, closFile, List.map_map]
  refine (closWires_nodup k).map_on ?_
  rintro ⟨node, other⟩ listed ⟨node', other'⟩ listed' same
  have wire := mem_closWires.mp listed
  have wire' := mem_closWires.mp listed'
  obtain ⟨here, there⟩ := wire.mem_closNodes
  rcases Sym2.eq_iff.mp same with ⟨left, right⟩ | ⟨left, right⟩
  · rw [closId_inj here left, closId_inj there right]
  · -- Each of the two wires would lead to a higher tier than the other.
    obtain rfl : node = other' := closId_inj here left
    obtain rfl : other = node' := closId_inj there right
    exact absurd (wire.tier_lt.trans wire'.tier_lt) (Nat.lt_irrefl _)

/-- Switches with `k` ports in `k` pods; `id` numbers the nodes. -/
structure FatTree (k : Nat) (id : ClosNode → Nat) (file : TopoFile) : Prop where
  numbered : file.nodes = List.range' 1 (closNodes k).length
  named : ∀ i, i ∈ file.nodes ↔ ∃ node ∈ closNodes k, id node = i
  apart : ∀ node ∈ closNodes k, ∀ other ∈ closNodes k, id node = id other → node = other
  inside : ∀ link ∈ file.edges, link.1 ∈ file.nodes ∧ link.2 ∈ file.nodes
  loopFree : ∀ link ∈ file.edges, link.1 ≠ link.2
  simple : (Multigraph.unordered file.edges).Nodup
  ports : ∀ node ∈ closNodes k,
    degree file.edges (id node) = if node.tier = 0 then 1 else k
  leafSwitches : ∀ podId leafId other, .leaf podId leafId ∈ closNodes k → other ∈ closNodes k →
    1 ≤ other.tier → (Linked file.edges (id (.leaf podId leafId)) (id other) ↔
      ∃ spineId, other = .spine podId spineId)
  superspineToPods : ∀ superspineId, .superspine superspineId ∈ closNodes k →
    ∃ position ∈ upTo (k / 2), ∀ podId spineId, .spine podId spineId ∈ closNodes k →
      (Linked file.edges (id (.superspine superspineId)) (id (.spine podId spineId)) ↔
        spineId = position)

/-- Every name is numbered once, and the wires make a fat tree. -/
theorem generateClosTopology_fatTree (even : Even k) :
    ∃ file, generateClosTopology k = some file ∧
      (∀ node ∈ closNodes k, (closTable k).get? node.name = some (closId k node)) ∧
      FatTree k (closId k) file := by
  refine ⟨closFile k, generateClosTopology_file k, fun node => closTable_get?, ?_⟩
  have halves : k / 2 + k / 2 = k := by
    have ⟨half, double⟩ := even
    omega
  constructor
  case numbered => rfl
  case named => exact fun i => mem_closIds
  case apart => exact fun node member other _ same => closId_inj member same
  case inside =>
    intro link listed
    have ⟨wire, joined, same⟩ := List.mem_map.mp listed
    have ⟨here, there⟩ := (mem_closWires.mp joined).mem_closNodes
    exact same ▸ ⟨mem_closIds.mpr ⟨_, here, rfl⟩, mem_closIds.mpr ⟨_, there, rfl⟩⟩
  case loopFree =>
    intro link listed
    have ⟨wire, joined, same⟩ := List.mem_map.mp listed
    have closWire := mem_closWires.mp joined
    rw [← same]
    intro loop
    have up := closWire.tier_lt
    rw [closId_inj closWire.mem_closNodes.1 loop] at up
    exact Nat.lt_irrefl _ up
  case simple => exact closFile_simple k
  case ports =>
    intro node member
    rw [degree_closFile member, degree_closWires member]
    cases node <;> simp [podDegree, uplinkDegree, clientDegree, ClosNode.tier, halves]
  case leafSwitches =>
    intro podId leafId other leaf member switch
    rw [linked_iff leaf member]
    constructor
    · rintro (wire | wire)
      · cases wire
        exact ⟨_, rfl⟩
      · cases wire
        simp [ClosNode.tier] at switch
    · rintro ⟨spineId, rfl⟩
      have ⟨pod, leafPlace⟩ := leaf_mem_closNodes.mp leaf
      exact .inl (.pod pod leafPlace (spine_mem_closNodes.mp member).2)
  case superspineToPods =>
    intro superspineId superspine
    have listed := superspine_mem_closNodes.mp superspine
    refine ⟨_, spinePosition_mem listed, fun podId spineId spine => ?_⟩
    rw [linked_iff superspine spine]
    constructor
    · rintro (wire | wire)
      · cases wire
      · cases wire
        rfl
    · rintro rfl
      exact .inr (.uplink (spine_mem_closNodes.mp spine).1 listed)

theorem generateClosTopology_fatTree_four : ∃ file, generateClosTopology 4 = some file ∧
    (∀ node ∈ closNodes 4, (closTable 4).get? node.name = some (closId 4 node)) ∧
    FatTree 4 (closId 4) file :=
  generateClosTopology_fatTree (by decide)

end FatTree

end SplitNN.Coordinator
