import Mathlib
import SplitNN.Shared.Monadic
import SplitNN.Agent.TopoMeaning
import SplitNN.Agent.GreedyOrder

set_option autoImplicit false

namespace SplitNN.Agent

open PriorityQueue (heap)

namespace Graph

/-- Both ends list a link equally often, and a link from a node to itself is listed twice. -/
structure Paired (g : Graph) : Prop where
  closed : ∀ u, ∀ v ∈ g.neighbors u, v ∈ g.adjacencyList.keys
  symmetric : ∀ u v, u ≠ v → (g.neighbors u).count v = (g.neighbors v).count u
  even : ∀ u, Even ((g.neighbors u).count u)

theorem Paired.undirected {g : Graph} (paired : g.Paired) :
    Multigraph.Undirected g.neighbors g.adjacencyList.keys := by
  refine ⟨g.adjacencyList.keys_nodup, fun u _ => paired.closed u, fun u _ v _ => ?_⟩
  by_cases same : u = v
  next => rw [same]
  next => exact paired.symmetric u v same

theorem paired_of_no_links {g : Graph} (none : ∀ u, g.neighbors u = []) : g.Paired := by
  constructor <;> simp [none]

theorem count_addEdge (g : Graph) (u v x y : Int) : ((addEdge g u v).neighbors x).count y =
    (g.neighbors x).count y + (if x = u ∧ y = v then 1 else 0) +
      (if x = v ∧ y = u then 1 else 0) :=
  addEdge_counts g u v x y

theorem keys_addEdge (g : Graph) (u v x : Int) : x ∈ (addEdge g u v).adjacencyList.keys ↔
    x ∈ g.adjacencyList.keys ∨ x = u ∨ x = v := by
  simp only [SplitNN.Agent.addEdge, appendAt, Dict.mem_keys_set, or_assoc]

theorem Paired.addEdge {g : Graph} (paired : g.Paired) (u v : Int) : (addEdge g u v).Paired := by
  constructor
  case closed =>
    intro x y listed
    rw [keys_addEdge]
    have here : 0 < ((SplitNN.Agent.addEdge g u v).neighbors x).count y :=
      List.count_pos_iff.mpr listed
    rw [count_addEdge] at here
    by_cases old : y ∈ g.neighbors x
    next => exact .inl (paired.closed x y old)
    next =>
      rw [List.count_eq_zero.mpr old] at here
      split_ifs at here with first second second
      next => exact .inr (.inr first.2)
      next => exact .inr (.inr first.2)
      next => exact .inr (.inl second.2)
      next => omega
  case symmetric =>
    intro x y different
    rw [count_addEdge, count_addEdge, paired.symmetric x y different]
    simp only [and_comm (a := y = u), and_comm (a := y = v)]
    omega
  case even =>
    intro x
    rw [count_addEdge, add_assoc]
    refine (paired.even x).add ?_
    simp only [and_comm (a := x = v)]
    exact ⟨_, rfl⟩

end Graph

-- A link line adds at both ends, and what it reads may be anything.
theorem readLink_keeps {g g' : Graph} {text : List Char} (read : readLink g text = .ok g')
    (paired : g.Paired) : g'.Paired := by
  unfold readLink at read
  split at read
  next first second _ =>
    split at read
    next =>
      dsimp only at read
      split at read
      next => exact Except.ok.inj read ▸ ⟨paired.closed, paired.symmetric, paired.even⟩
      next => cases read
    next => exact Except.ok.inj read ▸ paired.addEdge _ _
  next => exact Except.ok.inj read ▸ paired

theorem readGraphFromFile_paired {text : String} {g : Graph}
    (loaded : readGraphFromFile text = .ok g) : g.Paired := by
  rw [readGraphFromFile_eq] at loaded
  have ⟨declared, first, rest⟩ := Monadic.bind_eq_ok.mp loaded
  have ⟨linked, links, last⟩ := Monadic.bind_eq_ok.mp rest
  have none : ∀ u, declared.neighbors u = [] :=
    Monadic.foldlM_keeps (P := fun g : Graph => ∀ u, g.neighbors u = [])
      (fun _ _ _ none _ declared => declareNode_keeps declared none) (fun _ => rfl) first
  have paired : linked.Paired := Monadic.foldlM_keeps (P := Graph.Paired)
    (fun _ _ _ paired _ read => readLink_keeps read paired) (Graph.paired_of_no_links none) links
  split at last
  next => cases last
  next => exact Except.ok.inj last ▸ paired

-- `nodeMap` has the node, and the queue has it at the index that it records.
def PriorityQueue.Finds (pq : PriorityQueue) (id : Int) : Prop :=
  ∃ node, pq.nodes.get? id = some node ∧ 0 ≤ node.index ∧
    pq.queue[node.index.toNat]? = some id

theorem PriorityQueue.Indexed.finds {pq : PriorityQueue} (indexed : pq.Indexed) {id : Int}
    (queued : id ∈ pq.queue.toList) : pq.Finds id := by
  have ⟨node, stored⟩ := indexed.known queued
  have ⟨i, place⟩ := List.mem_iff_getElem?.mp queued
  have found : pq.queue[i]? = some id := by simpa using place
  have index : node.index = i := by simpa [stored] using indexed.index i id found
  exact ⟨node, stored, by omega, by simpa [index] using found⟩

def Graph.LooksUp (g : Graph) (delta : Int) (st : PlanState) (pq : PriorityQueue) (u : Int) :
    Prop :=
  ∃ node taken done rest step, Heap.pop heap st.pq = some (node, taken) ∧
    st.selectedNodes.getD node false = false ∧ g.neighbors node = done ++ u :: rest ∧
    done.foldlM (visitNeighbor delta (st.selectedNodes.set node true) node)
      ⟨taken, [], st.curEdgeNum⟩ = some step ∧
    (st.selectedNodes.set node true).getD u false = false ∧ pq = step.pq

section Lookups

variable {g : Graph} {mapOrder : List Int} {initContribution : Int → Int} {delta : Int}
  {st : PlanState}

theorem QueueInvariant.looksUp (invariant : QueueInvariant mapOrder [] st)
    (nodes : mapOrder.Perm g.adjacencyList.keys) (paired : g.Paired) {pq : PriorityQueue} {u : Int}
    (lookup : g.LooksUp delta st pq u) : pq.Finds u := by
  obtain ⟨node, taken, done, rest, step, popped, _, listed, run, free, same⟩ := lookup
  have nonempty : 0 < st.pq.len := by
    by_contra empty
    have none : heap.len st.pq = 0 := Nat.eq_zero_of_not_pos empty
    rw [Heap.pop, if_pos none] at popped
    cases popped
  obtain ⟨node', taken', popped', invariant', _⟩ := invariant.pop nodes nonempty
  obtain ⟨sameNode, sameQueue⟩ := Prod.mk.inj (Option.some.inj (popped.symm.trans popped'))
  subst sameNode sameQueue
  have queued : ∀ v ∈ g.neighbors node,
      (st.selectedNodes.set node true).getD v false = false → v ∈ taken.queue.toList :=
    fun _ => invariant'.neighbor_queued nodes paired.undirected
  obtain ⟨visited, run', indexed, perm, _⟩ := visitNeighbors_spec delta
    (st.selectedNodes.set node true) node done ⟨taken, [], st.curEdgeNum⟩ invariant'.indexed
    fun v member => queued v (by rw [listed]; exact List.mem_append_left _ member)
  have reached : visited = step := Option.some.inj (run'.symm.trans run)
  subst reached same
  exact indexed.finds (perm.mem_iff.mpr (queued u (by simp [listed]) free))

theorem QueueInvariant.round (invariant : QueueInvariant mapOrder [] st) (delta : Int)
    (nodes : mapOrder.Perm g.adjacencyList.keys) (paired : g.Paired) (nonempty : 0 < st.pq.len) :
    ∃ st', g.planRound delta st = some st' ∧ QueueInvariant mapOrder [] st' ∧
      st'.pq.len + 1 = st.pq.len := by
  have ⟨node, taken, _, invariant', shorter, round⟩ := invariant.pop nodes nonempty
  have ⟨st', selected, invariant'', length⟩ := invariant'.selectNode nodes paired.undirected delta
  exact ⟨st', (round delta).trans selected, invariant'', by rw [length, shorter]⟩

theorem planStart_queue (initContribution : Int → Int)
    (nodes : mapOrder.Perm g.adjacencyList.keys) :
    QueueInvariant mapOrder [] (Graph.planStart initContribution mapOrder) :=
  (planStart_invariant initContribution nodes).1.toQueueInvariant

theorem rounds_queue (nodes : mapOrder.Perm g.adjacencyList.keys) (paired : g.Paired)
    (reached : (g.rounds initContribution delta mapOrder).Reachable st) :
    QueueInvariant mapOrder [] st := by
  refine reached.invariant (P := QueueInvariant mapOrder []) ?_ ?_
  next => exact fun st start => start ▸ planStart_queue initContribution nodes
  next =>
    intro st st' invariant ⟨nonempty, stepped⟩
    have ⟨last, round, invariant', _⟩ := invariant.round delta nodes paired nonempty
    exact Option.some.inj (round.symm.trans stepped) ▸ invariant'

theorem HeapPlanner.run_ends (planner : HeapPlanner) (nodes : mapOrder.Perm g.adjacencyList.keys)
    (paired : g.Paired) : ∃ plan, planner.run g mapOrder = some plan := by
  by_cases starts : planner.Starts g
  next =>
    have ⟨_, length⟩ := planStart_invariant (planner.initContribution g) nodes
    have ⟨last, run, _⟩ := planLoop_rule (P := QueueInvariant mapOrder [])
      (fun st invariant nonempty => invariant.round planner.delta nodes paired nonempty)
      (planStart_queue (planner.initContribution g) nodes) length
    refine ⟨⟨last.nodeOrder, last.edgeOrder, last.curEdgeNumSeq⟩, ?_⟩
    rw [planner.run_eq g mapOrder starts]
    rw [Graph.planStart] at run
    simp only [Graph.maximizeEdgesOrder, run]
    rfl
  next => exact ⟨_, planner.run_unknown starts mapOrder⟩

end Lookups

/-- Whatever the file says, no planner follows a pointer that `nodeMap` or the heap lacks. -/
theorem loaded_lookups_found {text : String} {g : Graph} (loaded : readGraphFromFile text = .ok g) :
    g.Paired ∧ ∀ (planner : HeapPlanner) (mapOrder : List Int),
      mapOrder.Perm g.adjacencyList.keys →
        (∀ st, (planner.rounds g mapOrder).Reachable st →
          ∀ pq u, g.LooksUp planner.delta st pq u → pq.Finds u) ∧
        ∃ plan, planner.run g mapOrder = some plan := by
  have paired := readGraphFromFile_paired loaded
  refine ⟨paired, fun planner mapOrder nodes => ⟨?_, planner.run_ends nodes paired⟩⟩
  intro st reached pq u lookup
  exact (rounds_queue nodes paired (HeapPlanner.reachable_rounds reached)).looksUp nodes paired
    lookup

-- Neither 0 nor 3 is declared.
def undeclaredGraph : Graph :=
  ⟨⟨[(1, [2]), (2, [1, 0]), (0, [2]), (3, [3, 3])], by decide⟩, Dict.empty⟩

theorem loaded_lookups_found_sample :
    readGraphFromFile "1 2\n1 2\n2 x\n3 3\n" = .ok undeclaredGraph ∧ undeclaredGraph.Paired ∧
      ∀ (planner : HeapPlanner) (mapOrder : List Int),
        mapOrder.Perm undeclaredGraph.adjacencyList.keys →
          (∀ st, (planner.rounds undeclaredGraph mapOrder).Reachable st →
            ∀ pq u, undeclaredGraph.LooksUp planner.delta st pq u → pq.Finds u) ∧
          ∃ plan, planner.run undeclaredGraph mapOrder = some plan := by
  have loaded : readGraphFromFile "1 2\n1 2\n2 x\n3 3\n" = .ok undeclaredGraph := rfl
  exact ⟨loaded, loaded_lookups_found loaded⟩

end SplitNN.Agent
