import Mathlib
import SplitNN.Agent.LinkThreads

set_option autoImplicit false

-- Link set-ups that stop at any moment, the clean-up after them, and the set-up after that.
namespace SplitNN.Agent.NtlBr

-- The namespaces that `ip -all netns del` and the killed nodes take along; the host's stays.
def cleanNamespaces (kernel : Kernel) : Kernel :=
  { kernel with devices := fun ns name => if ns = .host then kernel.devices ns name else none }

-- An id is free again when its device is gone.
def networkClean (st : ThreadState) : ThreadState :=
  { st with
    kernel := cleanNamespaces st.kernel
    vxlanIds := fun vxlanID => (st.vxlanIds vxlanID).filter fun name =>
      decide (st.kernel.devices .host name = some .vxlan) }

@[simp] theorem cleanNamespaces_host (kernel : Kernel) (name : DevName) :
    (cleanNamespaces kernel).devices .host name = kernel.devices .host name := rfl

theorem cleanNamespaces_away {kernel : Kernel} {ns : Namespace} (away : ns ≠ .host)
    (name : DevName) : (cleanNamespaces kernel).devices ns name = none := if_neg away

/-- What a set-up of the topology can begin with: after any number of set-ups, each with its own
plan, namespaces and workers, that stopped in whatever state they were and were cleaned up. -/
inductive Interrupted (g : Graph) (first : ThreadState) : ThreadState → Prop where
  | never : Interrupted g first first
  | again {start : ThreadState} {plan : Plan} {backBoneNum numWorkers tries : Nat}
      {st : PoolRun PlannedLink ThreadState LinkFailure}
      (before : Interrupted g first start) (covers : CoversOnce g plan)
      (some_bbns : 0 < backBoneNum)
      (entersFirst : EntersFirst (linkPerBackBoneNs g backBoneNum) plan.edgeOrder)
      (some_tries : 0 < tries)
      (reachable : (linkPool g backBoneNum numWorkers tries start plan.edgeOrder).Reachable st) :
      Interrupted g first (networkClean st.shared)

-- Nodes and backbone namespaces are not there before the set-up makes them.
def HostOnly (kernel : Kernel) : Prop := ∀ place, kernel.Taken place → place.1 = .host

structure LeftBehind (g : Graph) (first st : ThreadState) : Prop where
  hostOnly : HostOnly st.kernel
  host : ∀ name, st.kernel.devices .host name = first.kernel.devices .host name ∨
    ∃ link ∈ g.danglingLinks g.danglingEdgeList.keys, InFlight link name ∧
      st.kernel.devices .host name = some .vxlan
  ids : ∀ vxlanID name, st.vxlanIds vxlanID = some name →
    first.vxlanIds vxlanID = some name ∨
    ∃ link ∈ g.danglingLinks g.danglingEdgeList.keys, Owns link vxlanID ∧
      name = vxlanName link.1 link.2.1 ∧ st.kernel.devices .host name = some .vxlan

section Leftovers

variable {g : Graph} {plan : Plan} {first start : ThreadState}
  {backBoneNum numWorkers tries : Nat} {st : PoolRun PlannedLink ThreadState LinkFailure}

theorem InFlight.inside {link : PlannedLink} {name : DevName} (flying : InFlight link name)
    (nonneg : 0 ≤ link.1 ∧ 0 ≤ link.2.1) : (.host, name) ∈ region link :=
  flying.2 ▸ vxlan_region nonneg .host

theorem InFlight.owner (single : SingleLinks g) (covers : CoversOnce g plan) {link : PlannedLink}
    {name : DevName} (flying : InFlight link name)
    (dangling : link ∈ g.danglingLinks g.danglingEdgeList.keys) :
    link ∈ plan.edgeOrder.flatten ∧ (Namespace.host, name) ∈ region link := by
  have plans : Plans g plan.edgeOrder.flatten := covers.links
  have listed := (plans.external flying.1).mpr dangling
  exact ⟨listed, flying.inside (single.link plans listed).1⟩

theorem LeftBehind.region_taken (single : SingleLinks g) (covers : CoversOnce g plan)
    (unnumbered : Unnumbered first.kernel) (left : LeftBehind g first start) {link : PlannedLink}
    (member : link ∈ plan.edgeOrder.flatten) {place : Namespace × DevName}
    (inside : place ∈ region link) (taken : start.kernel.Taken place) :
    link.2.2.2 ≠ -1 ∧ place = (.host, vxlanName link.1 link.2.1) ∧
      start.kernel.devices .host (vxlanName link.1 link.2.1) = some .vxlan := by
  obtain ⟨ns, name⟩ := place
  obtain rfl : ns = .host := left.hostOnly _ taken
  rcases left.host name with same | ⟨other, dangling, flying, vxlan⟩
  · rw [Kernel.Taken, same] at taken
    exact absurd taken (unnumbered.untaken inside)
  · obtain ⟨member', inside'⟩ := flying.owner single covers dangling
    have same : link = other := by
      by_contra different
      have apart : ends link ≠ ends other := fun equal =>
        different (links_apart single covers.links member member' equal)
      exact region_disjoint apart inside inside'
    subst same
    obtain ⟨external, rfl⟩ := flying
    exact ⟨external, rfl, vxlan⟩

theorem LeftBehind.ready (single : SingleLinks g) (tunnels : TunnelIds g)
    (covers : CoversOnce g plan) (unnumbered : Unnumbered first.kernel)
    (free : TunnelsFree g first) (left : LeftBehind g first start) (some_tries : 0 < tries)
    {link : PlannedLink} (member : link ∈ plan.edgeOrder.flatten) :
    Ready False tries link start := by
  have plans : Plans g plan.edgeOrder.flatten := covers.links
  by_cases clear : ∀ place ∈ region link, ¬ start.kernel.Taken place
  next =>
    refine .clear (fun place inside => by simpa using clear place inside) ?_
    rintro vxlanID ⟨external, rfl⟩
    have dangling := (plans.external external).mp member
    refine ⟨tunnels.small link dangling external, ?_⟩
    by_contra used
    obtain ⟨name, found⟩ := Option.ne_none_iff_exists'.mp used
    rcases left.ids _ name found with old | ⟨other, dangling', owns, rfl, vxlan⟩
    · simp [free link dangling external] at old
    · -- The id is the one of this link, whose device would be in the host's namespace.
      have member' := (plans.external owns.1).mpr dangling'
      have same := links_apart single plans member member'
        (Owns.unique tunnels plans member member' ⟨external, rfl⟩ owns)
      subst same
      refine clear _ (vxlan_region (single.link plans member).1 .host) ?_
      rw [Kernel.Taken, vxlan]
      rfl
  next =>
    push Not at clear
    obtain ⟨place, inside, taken⟩ := clear
    obtain ⟨external, rfl, vxlan⟩ :=
      left.region_taken single covers unnumbered member inside taken
    refine .left not_false some_tries external (fun other inside' => ?_) vxlan
    rw [List.mem_singleton]
    refine ⟨fun taken' =>
      (left.region_taken single covers unnumbered member inside' taken').2.1, ?_⟩
    rintro rfl
    exact taken

theorem linkPlaces_not_host {placement : Nat × PlannedLink} {name : DevName} :
    (Namespace.host, name) ∉ linkPlaces placement := by
  unfold linkPlaces linkDevices
  dsimp only
  split_ifs <;> simp [br, vethOuti, vethOutj, vxlanOut, Device.place]

theorem untaken_none {kernel : Kernel} {ns : Namespace} {name : DevName}
    (untaken : ¬ kernel.Taken (ns, name)) : kernel.devices ns name = none :=
  Option.not_isSome_iff_eq_none.mp untaken

theorem hostOnly_clean (kernel : Kernel) : HostOnly (cleanNamespaces kernel) := by
  rintro ⟨ns, name⟩ taken
  by_contra away
  rw [Kernel.Taken, cleanNamespaces_away away] at taken
  cases taken

theorem LeftBehind.again (single : SingleLinks g) (covers : CoversOnce g plan)
    (unnumbered : Unnumbered first.kernel) (left : LeftBehind g first start)
    {stopped : ThreadState}
    (promised : PromisedTogether False plan.edgeOrder.flatten start stopped) :
    LeftBehind g first (networkClean stopped) := by
  have plans : Plans g plan.edgeOrder.flatten := covers.links
  constructor
  case hostOnly => exact hostOnly_clean stopped.kernel
  case host =>
    intro name
    simp only [networkClean, cleanNamespaces_host]
    rcases promised.host name with same | gone | ⟨link, member, flying, vxlan⟩
    · rw [same]
      exact left.host name
    · rw [gone]
      by_cases inside : ∃ link ∈ plan.edgeOrder.flatten, (Namespace.host, name) ∈ region link
      next =>
        obtain ⟨link, -, named⟩ := inside
        exact .inl (untaken_none (unnumbered.untaken named)).symm
      next =>
        push Not at inside
        have same := promised.outside (.host, name) inside
        rcases left.host name with kept | ⟨link, dangling, flying, -⟩
        · exact .inl (gone.symm.trans (same.trans kept))
        · obtain ⟨member, named⟩ := flying.owner single covers dangling
          exact absurd named (inside link member)
    · exact .inr ⟨link, (plans.external flying.1).mp member, flying, vxlan⟩
  case ids =>
    intro vxlanID name found
    obtain ⟨used, vxlan⟩ := Option.filter_eq_some_iff.mp found
    simp only [decide_eq_true_eq] at vxlan
    rcases promised.ids vxlanID with same | ⟨link, member, owns, now⟩
    · rw [same] at used
      rcases left.ids vxlanID name used with old | ⟨link, dangling, owns, named, -⟩
      · exact .inl old
      · exact .inr ⟨link, dangling, owns, named, vxlan⟩
    · obtain rfl := Option.some.inj (now.symm.trans used)
      exact .inr ⟨link, (plans.external owns.1).mp member, owns, rfl, vxlan⟩

theorem Interrupted.leftBehind (single : SingleLinks g) (tunnels : TunnelIds g)
    (unnumbered : Unnumbered first.kernel) (free : TunnelsFree g first)
    (hostOnly : HostOnly first.kernel) {st : ThreadState}
    (interrupted : Interrupted g first st) : LeftBehind g first st := by
  induction interrupted with
  | never => exact ⟨hostOnly, fun _ => .inl rfl, fun _ _ => .inl⟩
  | again before covers some_bbns entersFirst some_tries reachable left =>
    have sound := linkPool_sound single tunnels covers some_bbns entersFirst
      (fun link member =>
        left.ready single tunnels covers unnumbered free some_tries member) reachable
    exact left.again single covers unnumbered sound.promised

structure Recovers (g : Graph) (backBoneNum numWorkers tries : Nat) (first : ThreadState)
    (plan : Plan) (st : PoolRun PlannedLink ThreadState LinkFailure) : Prop where
  noFailure : ∀ link ∈ plan.edgeOrder.flatten, (st.progs link).failed = false
  completes : ∃ last, PoolRun.Moves numWorkers
    (linkMain (linkPerBackBoneNs g backBoneNum) backBoneNum) (linkTask tries) st last ∧ last.Done
  built : st.Done → ∀ place, st.shared.kernel.Taken place ↔ first.kernel.Taken place ∨
    ∃ link ∈ plan.edgeOrder.flatten, place ∈ linkPlaces (0, link)

/-- After set-ups that stopped at any moment and were cleaned up, the next one goes through, and
ends with the devices of its links and with nothing that an earlier one left. -/
theorem linkPool_recovers (single : SingleLinks g) (tunnels : TunnelIds g)
    (unnumbered : Unnumbered first.kernel) (free : TunnelsFree g first)
    (hostOnly : HostOnly first.kernel) (interrupted : Interrupted g first start)
    (covers : CoversOnce g plan) (some_bbns : 0 < backBoneNum)
    (entersFirst : EntersFirst (linkPerBackBoneNs g backBoneNum) plan.edgeOrder)
    (some_workers : 0 < numWorkers) (some_tries : 0 < tries)
    (reachable : (linkPool g backBoneNum numWorkers tries start plan.edgeOrder).Reachable st) :
    Recovers g backBoneNum numWorkers tries first plan st := by
  have left := interrupted.leftBehind single tunnels unnumbered free hostOnly
  have ready (link : PlannedLink) (member : link ∈ plan.edgeOrder.flatten) :
      Ready False tries link start :=
    left.ready single tunnels covers unnumbered free some_tries member
  have sound := linkPool_sound single tunnels covers some_bbns entersFirst ready reachable
  constructor
  case noFailure => exact fun link member => sound.not_failed member
  case completes =>
    exact sound.completes
      (linkTasks_compatible single tunnels covers some_bbns entersFirst ready) some_workers
  case built =>
    intro done place
    rw [sound.built single covers done]
    refine or_congr_left ⟨?_, fun before => ?_⟩
    · rintro ⟨taken, outside⟩
      obtain ⟨ns, name⟩ := place
      obtain rfl : ns = .host := left.hostOnly _ taken
      rcases left.host name with same | ⟨link, dangling, flying, -⟩
      · rwa [Kernel.Taken, same] at taken
      · obtain ⟨member, named⟩ := flying.owner single covers dangling
        exact absurd named (outside link member)
    · obtain ⟨ns, name⟩ := place
      obtain rfl : ns = .host := hostOnly _ before
      refine ⟨?_, fun link _ inside => unnumbered.untaken inside before⟩
      rcases left.host name with same | ⟨link, -, -, vxlan⟩
      · rwa [Kernel.Taken, same]
      · simp [Kernel.Taken, vxlan]

/-- What a set-up that stops leaves behind is a VXLAN device for each of some tasks that a worker
was at, and so no more devices than there are workers. -/
theorem linkPool_leaves (single : SingleLinks g) (tunnels : TunnelIds g)
    (unnumbered : Unnumbered start.kernel) (free : TunnelsFree g start)
    (hostOnly : HostOnly start.kernel) (covers : CoversOnce g plan) (some_bbns : 0 < backBoneNum)
    (entersFirst : EntersFirst (linkPerBackBoneNs g backBoneNum) plan.edgeOrder)
    (reachable : (linkPool g backBoneNum numWorkers tries start plan.edgeOrder).Reachable st) :
    ∃ tasks : List PlannedLink, tasks.length ≤ numWorkers ∧
      (∀ link ∈ tasks, link ∈ st.started ∧ (st.progs link).finished = false ∧
        link.2.2.2 ≠ -1) ∧
      ∀ place, (networkClean st.shared).kernel.Taken place ↔ start.kernel.Taken place ∨
        ∃ link ∈ tasks, place = (.host, vxlanName link.1 link.2.1) := by
  have plans : Plans g plan.edgeOrder.flatten := covers.links
  have ready (link : PlannedLink) (member : link ∈ plan.edgeOrder.flatten) :
      Ready True tries link start := unnumbered.ready tunnels free covers member
  have sound := linkPool_sound single tunnels covers some_bbns entersFirst ready reachable
  have promised := sound.promised
  let leaves (link : PlannedLink) : Bool :=
    !(st.progs link).finished && decide (link.2.2.2 ≠ -1 ∧
      st.shared.kernel.Taken (.host, vxlanName link.1 link.2.1))
  refine ⟨st.started.filter leaves, ?_, fun link member => ?_, fun place => ?_⟩
  · rw [← List.countP_eq_length_filter]
    refine (List.countP_mono_left fun link _ left => ?_).trans
      (PoolRun.busy_le (links_nodup single plans) reachable)
    exact (Bool.and_eq_true_iff.mp left).1
  · obtain ⟨begun, left⟩ := List.mem_filter.mp member
    simp only [leaves, Bool.and_eq_true, Bool.not_eq_true', decide_eq_true_eq] at left
    exact ⟨begun, left.1, left.2.1⟩
  · constructor
    · intro taken
      obtain ⟨ns, name⟩ := place
      obtain rfl : ns = .host := hostOnly_clean st.shared.kernel _ taken
      simp only [networkClean, Kernel.Taken, cleanNamespaces_host] at taken
      rcases promised.host name with same | gone | ⟨link, member, flying, vxlan⟩
      · exact .inl (by rwa [Kernel.Taken, ← same])
      · simp [gone] at taken
      · have inside := flying.inside (single.link plans member).1
        have begun : link ∈ st.started := by
          by_contra idle
          have same : st.shared.kernel.devices .host name = start.kernel.devices .host name :=
            (sound.waiting link member idle).2.names _ inside
          refine unnumbered.untaken inside ?_
          rwa [Kernel.Taken, ← same]
        have unfinished : (st.progs link).finished = false := by
          by_contra finished
          have built := sound.ended link begun (Bool.not_eq_false _ ▸ finished)
          exact linkPlaces_not_host ((built _ inside).mp taken)
        refine .inr ⟨link, List.mem_filter.mpr ⟨begun, ?_⟩, by rw [flying.2]⟩
        simp only [leaves, unfinished, Bool.not_false, Bool.true_and, decide_eq_true_eq]
        exact ⟨flying.1, flying.2 ▸ taken⟩
    · rintro (before | ⟨link, member, rfl⟩)
      · obtain ⟨ns, name⟩ := place
        obtain rfl : ns = .host := hostOnly _ before
        have same := promised.outside (.host, name) fun link _ inside =>
          unnumbered.untaken inside before
        simp only [networkClean, Kernel.Taken, cleanNamespaces_host]
        rwa [same]
      · have left := (List.mem_filter.mp member).2
        simp only [leaves, Bool.and_eq_true, decide_eq_true_eq] at left
        exact left.2.2

end Leftovers

section Border

def borderVxlan : Namespace × DevName := (.host, "7-12-v".toList)

-- The worker at the external link has made its VXLAN device and not moved it yet.
theorem stops_at_vxlan : ∃ st,
    (linkPool borderGraph 1 2 1 idleThreads borderPlan.edgeOrder).Reachable st ∧
    (networkClean st.shared).kernel.Taken borderVxlan := by
  have begun : (linkPool borderGraph 1 2 1 idleThreads borderPlan.edgeOrder).Reachable _ :=
    .start rfl
  have empty := begun.next (.batch rfl rfl rfl)
  have batch := empty.next (.batch rfl rfl rfl)
  have entered := batch.next (.prepare rfl rfl rfl)
  have internal := entered.next (.take rfl rfl (by decide))
  have prepared := internal.next (.prepare rfl rfl rfl)
  have external := prepared.next (.take rfl rfl (by decide))
  have inside := external.next (.act (i := (12, 7, 1, 4097)) (by decide) rfl)
  have read := inside.next (.act (i := (12, 7, 1, 4097)) (by decide) rfl)
  have made := read.next (.act (i := (12, 7, 1, 4097)) (by decide) rfl)
  exact ⟨_, made, by decide⟩

theorem idleThreads_hostOnly : HostOnly idleThreads.kernel := by
  intro place taken
  simp [idleThreads, Kernel.Taken] at taken

theorem linkPool_leaves_border : ∃ st,
    (linkPool borderGraph 1 2 1 idleThreads borderPlan.edgeOrder).Reachable st ∧
    ∃ tasks : List PlannedLink, tasks ≠ [] ∧ tasks.length ≤ 2 ∧
      (∀ link ∈ tasks, link ∈ st.started ∧ (st.progs link).finished = false ∧
        link.2.2.2 ≠ -1) ∧
      ∀ place, (networkClean st.shared).kernel.Taken place ↔ idleThreads.kernel.Taken place ∨
        ∃ link ∈ tasks, place = (.host, vxlanName link.1 link.2.1) := by
  obtain ⟨st, reachable, taken⟩ := stops_at_vxlan
  obtain ⟨tasks, few, stopped, places⟩ := linkPool_leaves singleLinks_borderGraph
    borderGraph_tunnelIds idleThreads_unnumbered (fun _ _ _ => rfl) idleThreads_hostOnly
    borderPlan_coversOnce (by decide) borderPlan_entersFirst reachable
  refine ⟨st, reachable, tasks, ?_, few, stopped, places⟩
  rintro rfl
  rw [places] at taken
  simp [idleThreads, Kernel.Taken] at taken

theorem linkPool_recovers_border : ∃ start : ThreadState, start.kernel.Taken borderVxlan ∧
    Recovers borderGraph 1 2 1 idleThreads borderPlan
      (PoolRun.start (start.newAgent 1) borderPlan.edgeOrder) := by
  obtain ⟨st, reachable, taken⟩ := stops_at_vxlan
  refine ⟨networkClean st.shared, taken, ?_⟩
  exact linkPool_recovers singleLinks_borderGraph borderGraph_tunnelIds idleThreads_unnumbered
    (fun _ _ _ => rfl) idleThreads_hostOnly
    (.again .never borderPlan_coversOnce (by decide) borderPlan_entersFirst
      (show 0 < 1 by decide) reachable) borderPlan_coversOnce (by decide) borderPlan_entersFirst
    (by decide) (show 0 < 1 by decide) (.start rfl)

end Border

end SplitNN.Agent.NtlBr
