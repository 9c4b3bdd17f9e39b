import SplitNN.Agent.NtlBr

set_option autoImplicit false

namespace SplitNN.Agent.NtlBr

open Text

def vxlanOut (bbnsIndex : Nat) (nodeIdi nodeIdj : Int) : Device :=
  ⟨.backbone bbnsIndex, vxlanName nodeIdi nodeIdj, .vxlan⟩

def linkDevices (bbnsIndex : Nat) (link : PlannedLink) : List Device :=
  let (nodeIdi, nodeIdj, _, vxlanID) := link
  if vxlanID = -1 then
    br bbnsIndex nodeIdi nodeIdj [] ++ vethOuti bbnsIndex nodeIdi nodeIdj [] ++
      vethOutj bbnsIndex nodeIdi nodeIdj []
  else
    [vxlanOut bbnsIndex nodeIdi nodeIdj] ++ br bbnsIndex nodeIdi nodeIdj [] ++
      vethOuti bbnsIndex nodeIdi nodeIdj []

def linkPlaces (placement : Nat × PlannedLink) : List (Namespace × DevName) :=
  (linkDevices placement.1 placement.2).map Device.place

def setupLinks (placements : List (Nat × PlannedLink)) (st : LinkState) :
    Except LinkFailure LinkState :=
  placements.foldlM (fun st placement => setupLink placement.2 (enterBbNs placement.1 st)) st

section Steps

variable {st : LinkState}

theorem Kernel.make_append (k : Kernel) (xs ys : List Device) :
    k.make (xs ++ ys) = (k.make xs).make ys :=
  List.foldl_append

theorem Kernel.free_make {k : Kernel} {xs ys : List Device} (free : k.Free (xs ++ ys))
    (distinct : ((xs ++ ys).map Device.place).Nodup) : (k.make xs).Free ys := by
  intro d member taken
  rw [List.map_append, List.nodup_append] at distinct
  rcases (Kernel.taken_make xs).mp taken with made | before
  · exact distinct.2.2 _ made _ (List.mem_map_of_mem member) rfl
  · exact free d (List.mem_append_right xs member) before

theorem addOrRepeat_free {message : String} {wanted : DevName → List Device}
    (free : st.kernel.Free (wanted [])) : addOrRepeat message wanted st =
      .ok ([], { st with kernel := st.kernel.make (wanted []) }) := by
  simp only [addOrRepeat, Kernel.linkAdd_free free]

theorem addOnce_free {message : String} {wanted : List Device} (free : st.kernel.Free wanted) :
    addOnce message wanted st = .ok { st with kernel := st.kernel.make wanted } := by
  simp only [addOnce, Kernel.linkAdd_free free]

theorem linkSetUp_taken {nodeId : Int} {name : DevName}
    (taken : st.kernel.Taken (.node nodeId, name)) : linkSetUp st nodeId name = .ok () := by
  simp only [linkSetUp, if_pos taken]

theorem setupInternalLink_free {i j : Int}
    (free : st.kernel.Free (br st.curBackBoneNs i j [] ++ vethOuti st.curBackBoneNs i j [] ++
      vethOutj st.curBackBoneNs i j []))
    (distinct : ((br st.curBackBoneNs i j [] ++ vethOuti st.curBackBoneNs i j [] ++
      vethOutj st.curBackBoneNs i j []).map Device.place).Nodup) :
    setupInternalLink i j st = .ok { st with
      kernel := st.kernel.make (br st.curBackBoneNs i j [] ++ vethOuti st.curBackBoneNs i j [] ++
        vethOutj st.curBackBoneNs i j []) } := by
  have first : st.kernel.Free (br st.curBackBoneNs i j []) := fun d member =>
    free d (by simp [member])
  have second : (st.kernel.make (br st.curBackBoneNs i j [])).Free
      (vethOuti st.curBackBoneNs i j []) := by
    rw [List.append_assoc] at free distinct
    have rest := Kernel.free_make free distinct
    exact fun d member => rest d (List.mem_append_left _ member)
  have third := Kernel.free_make free distinct
  rw [Kernel.make_append] at third
  simp only [setupInternalLink, addOrRepeat_free first, bind, Except.bind]
  rw [addOrRepeat_free second]
  dsimp only
  rw [addOrRepeat_free third]
  dsimp only
  rw [linkSetUp_taken (by simp [Kernel.taken_make, vethOuti, Device.place]),
    linkSetUp_taken (by simp [Kernel.taken_make, vethOutj, Device.place])]
  simp only [Kernel.make_append]
  rfl

theorem addVxlan_free {name : DevName} (free : ¬ st.kernel.Taken (.host, name)) :
    addVxlan name st = .ok { st with kernel := st.kernel.put (.host, name) (some .vxlan) } := by
  have alone : st.kernel.Free [⟨.host, name, .vxlan⟩] := by
    simpa [Kernel.Free, Device.place] using free
  simp only [addVxlan, Kernel.linkAdd_free alone]
  rfl

theorem vxlan_moved {i j : Int} (host : ¬ st.kernel.Taken (.host, vxlanName i j))
    (free : ¬ st.kernel.Taken (.backbone st.curBackBoneNs, vxlanName i j)) :
    ∃ st', (addVxlan (vxlanName i j) st >>= linkSetNsFd (vxlanName i j)) = .ok st' ∧
      st'.curBackBoneNs = st.curBackBoneNs ∧ st'.repeatDevCounter = st.repeatDevCounter ∧
      st'.kernel.rejections = st.kernel.rejections ∧
      ∀ place, st'.kernel.Taken place ↔
        place = (vxlanOut st.curBackBoneNs i j).place ∨ st.kernel.Taken place := by
  have still : ¬ (st.kernel.put (.host, vxlanName i j) (some .vxlan)).Taken
      (.backbone st.curBackBoneNs, vxlanName i j) := by
    simp [free]
  rw [addVxlan_free host]
  simp only [bind, Except.bind, linkSetNsFd, if_neg still]
  refine ⟨_, rfl, rfl, rfl, rfl, fun place => ?_⟩
  simp only [Kernel.taken_put_some, Kernel.taken_put_none, vxlanOut, Device.place]
  by_cases inHost : place = (.host, vxlanName i j)
  next => simp [inHost, host]
  next => simp [inHost]

theorem setupExternalLink_free {i j : Int}
    (host : ¬ st.kernel.Taken (.host, vxlanName i j))
    (free : st.kernel.Free ([vxlanOut st.curBackBoneNs i j] ++ br st.curBackBoneNs i j [] ++
      vethOuti st.curBackBoneNs i j []))
    (distinct : (([vxlanOut st.curBackBoneNs i j] ++ br st.curBackBoneNs i j [] ++
      vethOuti st.curBackBoneNs i j []).map Device.place).Nodup) :
    ∃ st', setupExternalLink i j st = .ok st' ∧
      st'.repeatDevCounter = st.repeatDevCounter ∧
      st'.kernel.rejections = st.kernel.rejections ∧
      ∀ place, st'.kernel.Taken place ↔
        place ∈ ([vxlanOut st.curBackBoneNs i j] ++ br st.curBackBoneNs i j [] ++
          vethOuti st.curBackBoneNs i j []).map Device.place ∨ st.kernel.Taken place := by
  have ⟨moved, run, sameNs, sameCounter, sameRejections, taken⟩ :=
    vxlan_moved host (free (vxlanOut st.curBackBoneNs i j) (by simp))
  rw [List.append_assoc] at free distinct
  have rest : moved.kernel.Free (br st.curBackBoneNs i j [] ++
      vethOuti st.curBackBoneNs i j []) := by
    have apart := Kernel.free_make free distinct
    intro d member used
    apply apart d member
    simpa [Kernel.taken_make] using (taken d.place).mp used
  have tail : ((br st.curBackBoneNs i j [] ++ vethOuti st.curBackBoneNs i j []).map
      Device.place).Nodup := by
    rw [List.map_append] at distinct
    exact (List.nodup_append.mp distinct).2.1
  have first : moved.kernel.Free (br st.curBackBoneNs i j []) := fun d member =>
    rest d (List.mem_append_left _ member)
  have second := Kernel.free_make rest tail
  have start : setupExternalLink i j st =
      (addVxlan (vxlanName i j) st >>= linkSetNsFd (vxlanName i j)) >>= fun st' =>
        addOnce "failed to create bridge: file exists" (br st.curBackBoneNs i j []) st' >>=
          fun st' => addOnce "failed to create VethPeer in nodeiNetNs: file exists"
            (vethOuti st.curBackBoneNs i j []) st' >>= fun st' =>
              linkSetUp st' i (insideVethName i j) >>= fun _ => .ok st' := by
    rw [bind_assoc]
    rfl
  rw [start, run]
  simp only [bind, Except.bind]
  rw [addOnce_free first]
  dsimp only
  rw [addOnce_free second]
  dsimp only
  rw [linkSetUp_taken (by simp [Kernel.taken_make, vethOuti, Device.place])]
  refine ⟨_, rfl, sameCounter, ?_, fun place => ?_⟩
  · simp only [Kernel.rejections_make, sameRejections]
  · simp only [Kernel.taken_make, taken, List.map_append, List.mem_append, List.map_cons,
      List.map_nil, List.mem_singleton]
    tauto

theorem setupLink_free {link : PlannedLink}
    (host : link.2.2.2 ≠ -1 → ¬ st.kernel.Taken (.host, vxlanName link.1 link.2.1))
    (free : ∀ place ∈ linkPlaces (st.curBackBoneNs, link), ¬ st.kernel.Taken place)
    (distinct : (linkPlaces (st.curBackBoneNs, link)).Nodup) :
    ∃ st', setupLink link st = .ok st' ∧ st'.repeatDevCounter = st.repeatDevCounter ∧
      st'.kernel.rejections = st.kernel.rejections ∧
      ∀ place, st'.kernel.Taken place ↔
        place ∈ linkPlaces (st.curBackBoneNs, link) ∨ st.kernel.Taken place := by
  obtain ⟨i, j, serverID, vxlanID⟩ := link
  by_cases internal : vxlanID = -1
  next =>
    simp only [linkPlaces, linkDevices, if_pos internal] at free distinct ⊢
    have devices : st.kernel.Free (br st.curBackBoneNs i j [] ++
        vethOuti st.curBackBoneNs i j [] ++ vethOutj st.curBackBoneNs i j []) := fun d member =>
      free d.place (List.mem_map_of_mem member)
    simp only [setupLink, if_pos internal, setupInternalLink_free devices distinct]
    exact ⟨_, rfl, rfl, Kernel.rejections_make _, fun place => Kernel.taken_make _⟩
  next =>
    simp only [linkPlaces, linkDevices, if_neg internal] at free distinct ⊢
    simp only [setupLink, if_neg internal]
    exact setupExternalLink_free (host internal)
      (fun d member => free d.place (List.mem_map_of_mem member)) distinct

end Steps

section Names

theorem dash_not_mem {n : Int} (nonneg : 0 ≤ n) : '-' ∉ itoa n := by
  have ⟨natural, same⟩ := Int.eq_ofNat_of_zero_le nonneg
  subst same
  exact sign_not_digit natural

-- What follows the two numbers in a name that is tried first.
def Tail (tail : DevName) : Prop := tail = [] ∨ ∃ c, tail = ['-', c]

theorem dashed_append (u v : Int) (tail : DevName) :
    dashed u v ++ tail = itoa u ++ '-' :: (itoa v ++ tail) := by
  simp [dashed]

theorem append_tail_injective {v v' : Int} (nonneg : 0 ≤ v) (nonneg' : 0 ≤ v')
    {tail tail' : DevName} (known : Tail tail) (known' : Tail tail')
    (same : itoa v ++ tail = itoa v' ++ tail') : v = v' := by
  have absent := dash_not_mem nonneg
  have absent' := dash_not_mem nonneg'
  apply itoa_injective
  rcases known with rfl | ⟨c, rfl⟩ <;> rcases known' with rfl | ⟨c', rfl⟩
  · simpa using same
  · rw [List.append_nil] at same
    exact absurd (by simp [same]) absent
  · rw [List.append_nil] at same
    exact absurd (by simp [← same]) absent'
  · exact (separated_append_inj absent absent' same).1

theorem dashed_injective {u v u' v' : Int} (nonneg : 0 ≤ u ∧ 0 ≤ v) (nonneg' : 0 ≤ u' ∧ 0 ≤ v')
    {tail tail' : DevName} (known : Tail tail) (known' : Tail tail')
    (same : dashed u v ++ tail = dashed u' v' ++ tail') : u = u' ∧ v = v' := by
  rw [dashed_append, dashed_append] at same
  have ⟨front, rest⟩ := separated_append_inj (dash_not_mem nonneg.1) (dash_not_mem nonneg'.1) same
  exact ⟨itoa_injective front, append_tail_injective nonneg.2 nonneg'.2 known known' rest⟩

def ends (link : PlannedLink) : Sym2 Int := s(link.1, link.2.1)

theorem brName_dashed (i j : Int) :
    ∃ u v, s(u, v) = s(i, j) ∧ (0 ≤ i ∧ 0 ≤ j → 0 ≤ u ∧ 0 ≤ v) ∧ brName i j = dashed u v := by
  unfold brName
  split
  next => exact ⟨i, j, rfl, id, rfl⟩
  next => exact ⟨j, i, Sym2.eq_swap, And.symm, rfl⟩

theorem linkPlaces_dashed {placement : Nat × PlannedLink} {place : Namespace × DevName}
    (member : place ∈ linkPlaces placement)
    (nonneg : 0 ≤ placement.2.1 ∧ 0 ≤ placement.2.2.1) :
    place.1 ≠ .host ∧ ∃ u v tail, s(u, v) = ends placement.2 ∧ (0 ≤ u ∧ 0 ≤ v) ∧ Tail tail ∧
      place.2 = dashed u v ++ tail := by
  obtain ⟨bbnsIndex, i, j, serverID, vxlanID⟩ := placement
  have ⟨u, v, sameEnds, positive, name⟩ := brName_dashed i j
  have plain : Tail [] := .inl rfl
  have lettered (c : Char) : Tail ['-', c] := .inr ⟨c, rfl⟩
  have outer {tail : DevName} (known : Tail tail) : ∃ u v tail', s(u, v) = s(i, j) ∧
      (0 ≤ u ∧ 0 ≤ v) ∧ Tail tail' ∧ brName i j ++ tail = dashed u v ++ tail' :=
    ⟨u, v, tail, sameEnds, positive nonneg, known, by rw [name]⟩
  have bare := outer plain
  rw [List.append_nil] at bare
  have insidei : ∃ u v tail', s(u, v) = s(i, j) ∧ (0 ≤ u ∧ 0 ≤ v) ∧ Tail tail' ∧
      dashed i j = dashed u v ++ tail' :=
    ⟨i, j, [], rfl, nonneg, plain, by simp⟩
  have insidej : ∃ u v tail', s(u, v) = s(i, j) ∧ (0 ≤ u ∧ 0 ≤ v) ∧ Tail tail' ∧
      dashed j i = dashed u v ++ tail' :=
    ⟨j, i, [], Sym2.eq_swap, nonneg.symm, plain, by simp⟩
  unfold linkPlaces linkDevices at member
  dsimp only at member
  split at member
  · simp only [br, vethOuti, vethOutj, Device.place, List.append_nil, List.cons_append,
      List.nil_append, List.map_cons, List.map_nil, List.mem_cons, List.not_mem_nil,
      or_false] at member
    rcases member with rfl | rfl | rfl | rfl | rfl
    · exact ⟨nofun, bare⟩
    · exact ⟨nofun, outer (lettered 'i')⟩
    · exact ⟨nofun, insidei⟩
    · exact ⟨nofun, outer (lettered 'j')⟩
    · exact ⟨nofun, insidej⟩
  · simp only [br, vethOuti, vxlanOut, Device.place, List.append_nil, List.cons_append,
      List.nil_append, List.map_cons, List.map_nil, List.mem_cons, List.not_mem_nil,
      or_false] at member
    rcases member with rfl | rfl | rfl | rfl
    · exact ⟨nofun, outer (lettered 'v')⟩
    · exact ⟨nofun, bare⟩
    · exact ⟨nofun, outer (lettered 'i')⟩
    · exact ⟨nofun, insidei⟩

theorem linkPlaces_nodup {placement : Nat × PlannedLink}
    (different : placement.2.1 ≠ placement.2.2.1) : (linkPlaces placement).Nodup := by
  obtain ⟨bbnsIndex, i, j, serverID, vxlanID⟩ := placement
  unfold linkPlaces linkDevices
  dsimp only
  split <;>
    simp [br, vethOuti, vethOutj, vxlanOut, Device.place, vethNamei, vethNamej, vxlanName,
      different]

theorem linkPlaces_disjoint {p q : Nat × PlannedLink} (nonneg : 0 ≤ p.2.1 ∧ 0 ≤ p.2.2.1)
    (nonneg' : 0 ≤ q.2.1 ∧ 0 ≤ q.2.2.1) (different : ends p.2 ≠ ends q.2) :
    List.Disjoint (linkPlaces p) (linkPlaces q) := by
  intro place member member'
  have ⟨_, u, v, tail, sameEnds, positive, known, name⟩ := linkPlaces_dashed member nonneg
  have ⟨_, u', v', tail', sameEnds', positive', known', name'⟩ :=
    linkPlaces_dashed member' nonneg'
  have ⟨sameU, sameV⟩ := dashed_injective positive positive' known known' (name.symm.trans name')
  exact different (by rw [← sameEnds, ← sameEnds', sameU, sameV])

end Names

section Runs

theorem setupLinks_free {placements : List (Nat × PlannedLink)} {st : LinkState}
    (nonneg : ∀ p ∈ placements, 0 ≤ p.2.1 ∧ 0 ≤ p.2.2.1)
    (host : ∀ p ∈ placements, ¬ st.kernel.Taken (.host, vxlanName p.2.1 p.2.2.1))
    (free : ∀ place ∈ placements.flatMap linkPlaces, ¬ st.kernel.Taken place)
    (distinct : (placements.flatMap linkPlaces).Nodup) :
    ∃ final, setupLinks placements st = .ok final ∧
      final.repeatDevCounter = st.repeatDevCounter ∧
      final.kernel.rejections = st.kernel.rejections ∧
      ∀ place, final.kernel.Taken place ↔
        place ∈ placements.flatMap linkPlaces ∨ st.kernel.Taken place := by
  induction placements generalizing st with
  | nil => exact ⟨st, rfl, rfl, rfl, by simp⟩
  | cons p rest ih =>
    rw [List.flatMap_cons, List.nodup_append] at distinct
    have here : ∀ place ∈ linkPlaces p, ¬ (enterBbNs p.1 st).kernel.Taken place := by
      intro place member
      exact free place (by rw [List.flatMap_cons]; exact List.mem_append_left _ member)
    have ⟨st', run, counter, rejections, taken⟩ :=
      @setupLink_free (enterBbNs p.1 st) p.2 (fun _ => host p (by simp)) here distinct.1
    have host' : ∀ q ∈ rest, ¬ st'.kernel.Taken (.host, vxlanName q.2.1 q.2.2.1) := by
      intro q member used
      rcases (taken _).mp used with made | before
      · exact (linkPlaces_dashed made (nonneg p (by simp))).1 rfl
      · exact host q (by simp [member]) before
    have free' : ∀ place ∈ rest.flatMap linkPlaces, ¬ st'.kernel.Taken place := by
      intro place member used
      rcases (taken place).mp used with made | before
      · exact distinct.2.2 place made place member rfl
      · exact free place (by rw [List.flatMap_cons]; exact List.mem_append_right _ member) before
    have ⟨final, runs, counter', rejections', taken'⟩ :=
      ih (fun q member => nonneg q (by simp [member])) host' free' distinct.2.1
    refine ⟨final, ?_, counter'.trans counter, rejections'.trans rejections, fun place => ?_⟩
    · simp only [setupLinks, List.foldlM_cons, run]
      exact runs
    · rw [taken', taken, List.flatMap_cons, List.mem_append]
      simp only [enterBbNs]
      tauto

end Runs

section Networks

variable {g : Graph}

/-- The links of a plan: every internal link once, in one of its two orientations, and every
dangling link. -/
def Plans (g : Graph) (links : List PlannedLink) : Prop :=
  ∃ internal : List (Int × Int),
    links.Perm (internal.map internalLink ++ g.danglingLinks g.danglingEdgeList.keys) ∧
    ∀ u v, (Multigraph.unordered internal).count s(u, v) = (g.neighbors u).count v

structure SingleLinks (g : Graph) : Prop where
  nonneg : ∀ u, ∀ v ∈ g.neighbors u, 0 ≤ u ∧ 0 ≤ v
  loopFree : ∀ u, u ∉ g.neighbors u
  danglingNonneg : ∀ u, ∀ link ∈ g.dangling u, 0 ≤ u ∧ 0 ≤ link.1
  danglingLoopFree : ∀ u, ∀ link ∈ g.dangling u, u ≠ link.1
  single : ∀ u v, (g.neighbors u).count v +
    (g.danglingLinks g.danglingEdgeList.keys).countP (fun link => ends link = s(u, v)) ≤ 1

theorem SingleLinks.link (single : SingleLinks g) {links : List PlannedLink}
    (plans : Plans g links) {link : PlannedLink} (member : link ∈ links) :
    (0 ≤ link.1 ∧ 0 ≤ link.2.1) ∧ link.1 ≠ link.2.1 := by
  have ⟨internal, listed, counted⟩ := plans
  rcases List.mem_append.mp (listed.mem_iff.mp member) with inside | outside
  · have ⟨pair, found, same⟩ := List.mem_map.mp inside
    subst same
    have edge : s(pair.1, pair.2) ∈ Multigraph.unordered internal := List.mem_map_of_mem found
    have neighbor : pair.2 ∈ g.neighbors pair.1 := by
      rw [← List.count_pos_iff] at edge ⊢
      rwa [← counted]
    refine ⟨single.nonneg pair.1 pair.2 neighbor, fun loop => ?_⟩
    simp only [internalLink] at loop
    exact single.loopFree pair.2 (by rwa [loop] at neighbor)
  · simp only [Graph.danglingLinks, List.mem_flatMap, List.mem_map] at outside
    obtain ⟨u, _, away, listed, rfl⟩ := outside
    exact ⟨single.danglingNonneg u away listed, single.danglingLoopFree u away listed⟩

theorem SingleLinks.ends_nodup (single : SingleLinks g) {links : List PlannedLink}
    (plans : Plans g links) : (links.map ends).Nodup := by
  have ⟨internal, listed, counted⟩ := plans
  have forget : (internal.map internalLink).map ends = Multigraph.unordered internal := by
    simp [Multigraph.unordered, internalLink, ends, Function.comp_def]
  rw [List.nodup_iff_count_le_one]
  intro edge
  induction edge with
  | _ u v =>
    rw [(listed.map ends).count_eq, List.map_append, forget, List.count_append, counted]
    have away (links : List PlannedLink) :
        (links.map ends).count s(u, v) = links.countP fun link => ends link = s(u, v) := by
      rw [List.count, List.countP_map]
      exact List.countP_congr fun link _ => by simp
    rw [away]
    exact single.single u v

-- No device is named like a link yet.
def Unnumbered (kernel : Kernel) : Prop :=
  ∀ place, kernel.Taken place → ∀ c ∈ place.2.head?, c.isDigit = false

def idle : LinkState := ⟨⟨fun _ _ => none, 0⟩, 0, 0⟩

theorem unnumbered_idle : Unnumbered idle.kernel := by
  intro place taken
  simp [idle, Kernel.Taken] at taken

theorem Unnumbered.free {kernel : Kernel} (unnumbered : Unnumbered kernel) {ns : Namespace}
    {u v : Int} (nonneg : 0 ≤ u) (tail : DevName) :
    ¬ kernel.Taken (ns, dashed u v ++ tail) := by
  intro taken
  have ⟨natural, same⟩ := Int.eq_ofNat_of_zero_le nonneg
  have some_digit : itoa u ≠ [] := itoa_ne_nil u
  have ⟨c, digits, shape⟩ := List.exists_cons_of_ne_nil some_digit
  have digit : c.isDigit = true := by
    have member : c ∈ Nat.toDigits 10 natural := by
      rw [← itoa_natCast, ← same, shape]
      simp
    exact Nat.isDigit_of_mem_toDigits (by decide) (by decide) member
  have other := unnumbered _ taken c (by simp [dashed, shape])
  simp [digit] at other

theorem plan_places_nodup (single : SingleLinks g) {placements : List (Nat × PlannedLink)}
    (plans : Plans g (placements.map Prod.snd)) : (placements.flatMap linkPlaces).Nodup := by
  have each {p : Nat × PlannedLink} (member : p ∈ placements) :=
    single.link plans (List.mem_map_of_mem member)
  have apart := single.ends_nodup plans
  rw [List.map_map, List.Nodup, List.pairwise_map] at apart
  rw [List.nodup_flatMap]
  refine ⟨fun p member => linkPlaces_nodup (each member).2, ?_⟩
  exact apart.imp_of_mem fun left right different =>
    linkPlaces_disjoint (each left).1 (each right).1 different

/-- In a network without parallel links no name is asked for twice, so that every device is made
under the name that is tried first. -/
theorem deviceNames_unique (single : SingleLinks g) {placements : List (Nat × PlannedLink)}
    (plans : Plans g (placements.map Prod.snd)) :
    (placements.flatMap linkPlaces).Nodup ∧
    ∀ start : LinkState, Unnumbered start.kernel → ∃ final,
      setupLinks placements start = .ok final ∧
      final.kernel.rejections = start.kernel.rejections ∧
      final.repeatDevCounter = start.repeatDevCounter ∧
      ∀ place, final.kernel.Taken place ↔
        place ∈ placements.flatMap linkPlaces ∨ start.kernel.Taken place := by
  have distinct := plan_places_nodup single plans
  have nonneg : ∀ p ∈ placements, 0 ≤ p.2.1 ∧ 0 ≤ p.2.2.1 := fun p member =>
    (single.link plans (List.mem_map_of_mem member)).1
  refine ⟨distinct, fun start unnumbered => ?_⟩
  have host : ∀ p ∈ placements, ¬ start.kernel.Taken (.host, vxlanName p.2.1 p.2.2.1) := by
    intro p member
    have ⟨u, v, _, positive, name⟩ := brName_dashed p.2.1 p.2.2.1
    rw [vxlanName, name]
    exact unnumbered.free (positive (nonneg p member)).1 _
  have free : ∀ place ∈ placements.flatMap linkPlaces, ¬ start.kernel.Taken place := by
    intro place member
    have ⟨p, listed, found⟩ := List.mem_flatMap.mp member
    have ⟨_, u, v, tail, _, positive, _, name⟩ := linkPlaces_dashed found (nonneg p listed)
    have shape : place = (place.1, dashed u v ++ tail) := by rw [← name]
    rw [shape]
    exact unnumbered.free positive.1 tail
  have ⟨final, run, counter, rejections, taken⟩ := setupLinks_free nonneg host free distinct
  exact ⟨final, run, rejections, counter, taken⟩

-- Two nodes here and one on another server.
def borderGraph : Graph :=
  ⟨⟨[(1, [12]), (12, [1])], by decide⟩, ⟨[(12, [(7, 1, 4097)])], by decide⟩⟩

theorem neighbors_borderGraph (u : Int) :
    borderGraph.neighbors u = if u = 1 then [12] else if u = 12 then [1] else [] := by
  by_cases first : u = 1
  next => rw [first]; rfl
  next =>
    by_cases second : u = 12
    next => rw [second]; rfl
    next =>
      rw [if_neg first, if_neg second]
      apply Graph.neighbors_unlisted
      simp [borderGraph, Dict.keys, first, second]

theorem dangling_borderGraph (u : Int) :
    borderGraph.dangling u = if u = 12 then [(7, 1, 4097)] else [] := by
  by_cases listed : u = 12
  next => rw [listed]; rfl
  next =>
    rw [if_neg listed]
    apply Graph.dangling_unlisted
    simp [borderGraph, Dict.keys, listed]

theorem singleLinks_borderGraph : SingleLinks borderGraph := by
  have outside : borderGraph.danglingLinks borderGraph.danglingEdgeList.keys =
      [(12, 7, 1, 4097)] := by rfl
  constructor
  case nonneg =>
    intro u v neighbor
    rw [neighbors_borderGraph] at neighbor
    split_ifs at neighbor <;> simp_all
  case loopFree =>
    intro u neighbor
    rw [neighbors_borderGraph] at neighbor
    split_ifs at neighbor <;> simp_all
  case danglingNonneg =>
    intro u link listed
    rw [dangling_borderGraph] at listed
    split_ifs at listed <;> simp_all
  case danglingLoopFree =>
    intro u link listed
    rw [dangling_borderGraph] at listed
    split_ifs at listed <;> simp_all
  case single =>
    intro u v
    rw [outside, neighbors_borderGraph]
    simp only [List.countP_singleton, ends, Sym2.eq_iff]
    split_ifs <;> simp only [List.count_singleton, List.count_nil] <;> grind

theorem deviceNames_unique_border :
    ([(0, (12, 1, -1, -1)), (1, (12, 7, 1, 4097))].flatMap linkPlaces).Nodup ∧
    ∃ final, setupLinks [(0, (12, 1, -1, -1)), (1, (12, 7, 1, 4097))] idle = .ok final ∧
      final.kernel.rejections = 0 ∧ final.repeatDevCounter = 0 := by
  have plans : Plans borderGraph [(12, 1, -1, -1), (12, 7, 1, 4097)] := by
    refine ⟨[(12, 1)], List.Perm.refl _, fun u v => ?_⟩
    rw [neighbors_borderGraph]
    simp only [Multigraph.unordered, List.map_cons, List.map_nil, List.count_singleton,
      beq_iff_eq, Sym2.eq_iff]
    split_ifs <;> simp only [List.count_singleton, List.count_nil] <;> grind
  obtain ⟨distinct, runs⟩ := @deviceNames_unique borderGraph singleLinks_borderGraph
    [(0, (12, 1, -1, -1)), (1, (12, 7, 1, 4097))] plans
  obtain ⟨final, run, rejections, counter, _⟩ := runs idle unnumbered_idle
  exact ⟨distinct, final, run, rejections, counter⟩

end Networks

end SplitNN.Agent.NtlBr
