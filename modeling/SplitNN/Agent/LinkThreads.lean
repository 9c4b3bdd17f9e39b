import Mathlib
import SplitNN.Shared.RelyGuarantee
import SplitNN.Agent.DeviceNames
import SplitNN.Agent.ParallelSetup

set_option autoImplicit false

-- The link set-up of a worker as the kernel sees it: one call after another, with the calls of
-- other workers in between, and with the handles that the main thread opens and closes.
namespace SplitNN.Agent.NtlBr

open Text

-- The namespaces that main has entered, in the fields of `SetupState`.
structure Entered where
  curBbnsIndex : Nat
  curBackBoneNs : NsHandle
  -- The field of the link manager, `none` for -1.
  lmCurBackBoneNs : Option NsHandle
  -- The namespace of each handle opened so far.
  handles : List Nat
  closed : List NsHandle

-- What the threads of an agent share.
structure ThreadState where
  kernel : Kernel
  -- The device that has a VXLAN id, whichever namespace it is in now.
  vxlanIds : Int → Option DevName
  repeatDevCounter : Nat
  entered : Entered

abbrev LinkProg := Prog ThreadState LinkFailure

section Calls

def callLinkAdd (wanted : List Device) : LinkProg Bool :=
  .atomic fun st =>
    ((st.kernel.linkAdd wanted).1, { st with kernel := (st.kernel.linkAdd wanted).2 })

-- An id has 24 bits and is for one device.
def ThreadState.vxlanAdd (st : ThreadState) (name : DevName) (vxlanID : Int) :
    Bool × ThreadState :=
  if (0 ≤ vxlanID ∧ vxlanID < 2 ^ 24) ∧ st.vxlanIds vxlanID = none ∧
      ¬ st.kernel.Taken (.host, name) then
    (true, { st with
      kernel := st.kernel.put (.host, name) (some .vxlan)
      vxlanIds := Function.update st.vxlanIds vxlanID (some name) })
  else (false, { st with kernel := { st.kernel with rejections := st.kernel.rejections + 1 } })

def callVxlanAdd (name : DevName) (vxlanID : Int) : LinkProg Bool :=
  .atomic fun st => st.vxlanAdd name vxlanID

def readBackBoneNs : LinkProg (Option NsHandle) := .check fun st => .ok st.entered.lmCurBackBoneNs

def readCounter : LinkProg Nat := .check fun st => .ok st.repeatDevCounter

-- `lm.repeatDevCounter++`, which nothing protects: another worker may come in between.
def bumpCounter : LinkProg Unit := do
  let counter ← readCounter
  .atomic fun st => ((), { st with repeatDevCounter := counter + 1 })

-- The namespace of a handle that is open.
def Entered.namespaceOf (entered : Entered) (handle : Option NsHandle) : Option Nat :=
  match handle with
  | none => none
  | some handle => if handle ∈ entered.closed then none else entered.handles[handle]?

-- The namespace that the thread is in after `netns.Set`.
def netnsSet (message : String) (handle : Option NsHandle) : LinkProg Nat :=
  .check fun st =>
    match st.entered.namespaceOf handle with
    | some bbns => .ok bbns
    | none => .error (.error message)

def callLinkSetUp (nodeId : Int) (name : DevName) : LinkProg Unit :=
  .check fun st =>
    if st.kernel.Taken (.node nodeId, name) then .ok ()
    else .error (.error "failed to LinkSetUp: no such device")

def isVxlan (name : DevName) : LinkProg Bool :=
  .check fun st => .ok (decide (st.kernel.devices .host name = some .vxlan))

def callLinkSetNsFd (name : DevName) (backboneNs : Option NsHandle) : LinkProg Unit :=
  .guarded fun st =>
    match st.entered.namespaceOf backboneNs with
    | none => .error (.error "failed to link set nsfd: bad file descriptor")
    | some bbns =>
      if st.kernel.Taken (.backbone bbns, name) then
        .error (.error "failed to link set nsfd: file exists")
      else .ok { st with
        kernel := (st.kernel.put (.host, name) none).put (.backbone bbns, name) (some .vxlan) }

-- The device found by its name is then given its group and its bridge and set up.
def callLinkByName (name : DevName) (bbns : Nat) : LinkProg Unit :=
  .check fun st =>
    if st.kernel.Taken (.backbone bbns, name) then .ok ()
    else .error (.error "failed to LinkByName")

end Calls

section Source

variable (bbns : Nat) (nodeIdi nodeIdj : Int)

def addBridge : LinkProg Unit := do
  if ← callLinkAdd (br bbns nodeIdi nodeIdj []) then return ()
  else
    let counter ← readCounter
    bumpCounter
    if ← callLinkAdd (br bbns nodeIdi nodeIdj (itoa counter)) then return ()
    else .fail (.error "failed to create bridge: file exists")

def vethPair (outer : DevName) (nodeId : Int) (inner : DevName) : List Device :=
  [⟨.backbone bbns, outer, .veth⟩, ⟨.node nodeId, inner, .veth⟩]

-- The counter is read once for each of the three names.
def addVeth (outer : DevName) (nodeId : Int) (inner : DevName) : LinkProg DevName := do
  if ← callLinkAdd (vethPair bbns outer nodeId inner) then return inner
  else
    let forOuter ← readCounter
    let forPeer ← readCounter
    let forInner ← readCounter
    bumpCounter
    if ← callLinkAdd (vethPair bbns (outer ++ itoa forOuter) nodeId (inner ++ itoa forPeer)) then
      return inner ++ itoa forInner
    else .fail (.error "failed to create veth: file exists")

-- `SetupInternalLink` in a thread that is in the namespace `bbns`.
def internalProg : LinkProg Unit := do
  let backboneNs ← readBackBoneNs
  addBridge bbns nodeIdi nodeIdj
  let insideVethNamei ←
    addVeth bbns (vethNamei nodeIdi nodeIdj) nodeIdi (insideVethName nodeIdi nodeIdj)
  let insideVethNamej ←
    addVeth bbns (vethNamej nodeIdi nodeIdj) nodeIdj (insideVethName nodeIdj nodeIdi)
  callLinkSetUp nodeIdi insideVethNamei
  callLinkSetUp nodeIdj insideVethNamej
  let _ ← netnsSet "failed to netns.Set: bad file descriptor" backboneNs
  return ()

-- The loop around `LinkAdd` after its first turn, cut off after some number of turns.
def retryVxlan (name : DevName) (vxlanID : Int) : Nat → LinkProg Unit
  | 0 => .fail .hangs
  | tries + 1 => do
    if ← callVxlanAdd name vxlanID then return ()
    else if ← isVxlan name then return ()
    else retryVxlan name vxlanID tries

def addVxlanProg (tries : Nat) (name : DevName) (vxlanID : Int) : LinkProg Unit := do
  if ← callVxlanAdd name vxlanID then return ()
  else retryVxlan name vxlanID tries

def addOnceProg (message : String) (wanted : List Device) : LinkProg Unit := do
  if ← callLinkAdd wanted then return () else .fail (.error message)

-- `SetupExternalLink`, which leaves the thread's namespace for the host's and comes back to the
-- one that was current when it began.
def externalProg (vxlanID : Int) (tries : Nat) : LinkProg Unit := do
  let backboneNs ← readBackBoneNs
  addVxlanProg tries (vxlanName nodeIdi nodeIdj) vxlanID
  callLinkSetNsFd (vxlanName nodeIdi nodeIdj) backboneNs
  let bbns ← netnsSet "failed to netns.Set: bad file descriptor" backboneNs
  addOnceProg "failed to create bridge: file exists" (br bbns nodeIdi nodeIdj [])
  addOnceProg "failed to create VethPeer in nodeiNetNs: file exists"
    (vethOuti bbns nodeIdi nodeIdj [])
  callLinkByName (vxlanName nodeIdi nodeIdj) bbns
  callLinkSetUp nodeIdi (insideVethName nodeIdi nodeIdj)
  let _ ← netnsSet "failed to netns.Set: bad file descriptor" backboneNs
  return ()

end Source

section MainThread

-- The function that `AddTask` is given, with the handle that is current at that moment.
def linkTask (tries : Nat) (link : PlannedLink) (st : ThreadState) : LinkProg Unit := do
  let (nodeIdi, nodeIdj, _, vxlanID) := link
  let bbns ← netnsSet "bad file descriptor" (some st.entered.curBackBoneNs)
  if vxlanID = -1 then internalProg bbns nodeIdi nodeIdj
  else externalProg nodeIdi nodeIdj vxlanID tries

-- `EnterBbNs` closes the handle before; `none` where there is no such namespace.
def Entered.enterBbNs (backBoneNum : Nat) (entered : Entered) : Option Entered :=
  if entered.curBbnsIndex < backBoneNum then
    some {
      curBbnsIndex := entered.curBbnsIndex + 1
      curBackBoneNs := entered.handles.length
      lmCurBackBoneNs := some entered.handles.length
      handles := entered.handles ++ [entered.curBbnsIndex]
      closed := entered.lmCurBackBoneNs.toList ++ entered.closed }
  else none

-- The loop over the steps and their links, `none` for a division by 0 or an error of `EnterBbNs`.
def linkMain (linkPerBackBoneNs backBoneNum : Nat) : Main ThreadState where
  begins st := { st with entered := { st.entered with curBbnsIndex := 0 } }
  prepares curLinkNum st :=
    if linkPerBackBoneNs = 0 then none
    else if curLinkNum % linkPerBackBoneNs = 0 then
      (st.entered.enterBbNs backBoneNum).map fun entered => { st with entered := entered }
    else some st

-- A new agent process, after `SetupBbNs` was called for every namespace.
def ThreadState.newAgent (backBoneNum : Nat) (st : ThreadState) : ThreadState :=
  { st with
    repeatDevCounter := 0
    entered := ⟨0, backBoneNum - 1, none, List.range backBoneNum, []⟩ }

-- `NetworkSetup` with `Parallel > 0`, from its first link on, call by call.
def linkPool (g : Graph) (backBoneNum numWorkers tries : Nat) (start : ThreadState)
    (edgeOrder : List (List PlannedLink)) :
    TransitionSystem (PoolRun PlannedLink ThreadState LinkFailure) :=
  PoolRun.system numWorkers (linkMain (linkPerBackBoneNs g backBoneNum) backBoneNum)
    (linkTask tries) (start.newAgent backBoneNum) edgeOrder

end MainThread

section Contracts

def region (link : PlannedLink) : Set (Namespace × DevName) :=
  {place | ∃ u v tail, s(u, v) = ends link ∧ (0 ≤ u ∧ 0 ≤ v) ∧ Tail tail ∧
    place.2 = dashed u v ++ tail}

theorem region_disjoint {link link' : PlannedLink} (different : ends link ≠ ends link')
    {place : Namespace × DevName} (inside : place ∈ region link) : place ∉ region link' := by
  rintro ⟨u', v', tail', sameEnds', positive', known', name'⟩
  obtain ⟨u, v, tail, sameEnds, positive, known, name⟩ := inside
  obtain ⟨sameU, sameV⟩ := dashed_injective positive positive' known known' (name.symm.trans name')
  exact different (by rw [← sameEnds, ← sameEnds', sameU, sameV])

theorem linkPlaces_region {placement : Nat × PlannedLink}
    (nonneg : 0 ≤ placement.2.1 ∧ 0 ≤ placement.2.2.1) {place : Namespace × DevName}
    (member : place ∈ linkPlaces placement) : place ∈ region placement.2 :=
  (linkPlaces_dashed member nonneg).2

theorem vxlan_region {link : PlannedLink} (nonneg : 0 ≤ link.1 ∧ 0 ≤ link.2.1) (ns : Namespace) :
    (ns, vxlanName link.1 link.2.1) ∈ region link := by
  obtain ⟨u, v, sameEnds, positive, name⟩ := brName_dashed link.1 link.2.1
  exact ⟨u, v, ['-', 'v'], sameEnds, positive nonneg, .inr ⟨'v', rfl⟩, by rw [vxlanName, name]; rfl⟩

/-- A VXLAN device that the task of a link leaves in the host's namespace for a while. -/
def InFlight (link : PlannedLink) (name : DevName) : Prop :=
  link.2.2.2 ≠ -1 ∧ name = vxlanName link.1 link.2.1

def Owns (link : PlannedLink) (vxlanID : Int) : Prop := link.2.2.2 ≠ -1 ∧ vxlanID = link.2.2.2

/-- What one action of a link's task may do. In a clean network it is never turned down. -/
structure Promised (clean : Prop) (link : PlannedLink) (st st' : ThreadState) : Prop where
  outside : ∀ place ∉ region link,
    st'.kernel.devices place.1 place.2 = st.kernel.devices place.1 place.2
  host : ∀ name, st'.kernel.devices .host name = st.kernel.devices .host name ∨
    st'.kernel.devices .host name = none ∨
    InFlight link name ∧ st'.kernel.devices .host name = some .vxlan
  ids : ∀ vxlanID, st'.vxlanIds vxlanID = st.vxlanIds vxlanID ∨
    Owns link vxlanID ∧ st'.vxlanIds vxlanID = some (vxlanName link.1 link.2.1)
  rejections : clean → st'.kernel.rejections = st.kernel.rejections
  counter : st'.repeatDevCounter = st.repeatDevCounter
  entered : st'.entered = st.entered

-- Nobody has touched the names and the id of a link.
structure Untouched (link : PlannedLink) (st st' : ThreadState) : Prop where
  names : ∀ place ∈ region link,
    st'.kernel.devices place.1 place.2 = st.kernel.devices place.1 place.2
  ids : ∀ vxlanID, Owns link vxlanID → st'.vxlanIds vxlanID = st.vxlanIds vxlanID

theorem Untouched.refl (link : PlannedLink) (st : ThreadState) : Untouched link st st :=
  ⟨fun _ _ => rfl, fun _ _ => rfl⟩

theorem Untouched.trans {link : PlannedLink} {st st' st'' : ThreadState}
    (first : Untouched link st st') (second : Untouched link st' st'') : Untouched link st st'' :=
  ⟨fun place inside => (second.names place inside).trans (first.names place inside),
    fun vxlanID owns => (second.ids vxlanID owns).trans (first.ids vxlanID owns)⟩

-- A link's task owns the names of its link and its VXLAN id, and no handle is opened or closed
-- while it runs.
def linkContract (clean : Prop) (link : PlannedLink) : Contract ThreadState where
  rely st st' := Untouched link st st' ∧ st'.entered = st.entered
  absent := Untouched link
  guarantee := Promised clean link
  relyRefl st := ⟨.refl link st, rfl⟩
  relyTrans first second := ⟨first.1.trans second.1, second.2.trans first.2⟩
  relyAbsent := And.left
  absentTrans := Untouched.trans

-- Of the names of the link, these are taken.
def Holds (link : PlannedLink) (places : List (Namespace × DevName)) (st : ThreadState) : Prop :=
  ∀ place ∈ region link, st.kernel.Taken place ↔ place ∈ places

structure Has (entered : Entered) (link : PlannedLink) (places : List (Namespace × DevName))
    (st : ThreadState) : Prop where
  holds : Holds link places st
  entered : st.entered = entered

variable {clean : Prop} {link : PlannedLink} {places : List (Namespace × DevName)}
  {st st' : ThreadState} {entered : Entered}

theorem Promised.of_same (same : st'.kernel.devices = st.kernel.devices)
    (ids : st'.vxlanIds = st.vxlanIds)
    (rejections : clean → st'.kernel.rejections = st.kernel.rejections)
    (counter : st'.repeatDevCounter = st.repeatDevCounter) (entered : st'.entered = st.entered) :
    Promised clean link st st' where
  outside _ _ := by rw [same]
  host _ := .inl (by rw [same])
  ids _ := .inl (by rw [ids])
  rejections := rejections
  counter := counter
  entered := entered

theorem Promised.refl (clean : Prop) (link : PlannedLink) (st : ThreadState) :
    Promised clean link st st :=
  .of_same rfl rfl (fun _ => rfl) rfl rfl

theorem Holds.later (holds : Holds link places st) (others : Untouched link st st') :
    Holds link places st' := by
  intro place inside
  rw [← holds place inside, Kernel.Taken, Kernel.Taken, others.names place inside]

theorem Has.later (has : Has entered link places st)
    (others : (linkContract clean link).rely st st') : Has entered link places st' :=
  ⟨has.holds.later others.1, others.2.trans has.entered⟩

theorem devices_make {wanted : List Device} (k : Kernel) {place : Namespace × DevName}
    (absent : place ∉ wanted.map Device.place) :
    (k.make wanted).devices place.1 place.2 = k.devices place.1 place.2 := by
  unfold Kernel.make
  induction wanted generalizing k with
  | nil => rfl
  | cons d rest ih =>
    rw [List.map_cons, List.mem_cons, not_or] at absent
    rw [List.foldl_cons, ih _ absent.2]
    exact if_neg fun same => absent.1 (Prod.ext same.1 same.2)

variable {Q : Unit → ThreadState → Prop}

theorem Has.callLinkAdd {α : Type} {Q : α → ThreadState → Prop} (has : Has entered link places st)
    {wanted : List Device} (inside : ∀ d ∈ wanted, d.place ∈ region link)
    (fresh : ∀ d ∈ wanted, d.place ∉ places) (away : ∀ d ∈ wanted, d.ns ≠ .host)
    {next : Bool → LinkProg α}
    (onwards : ∀ st', Has entered link (places ++ wanted.map Device.place) st' →
      (linkContract clean link).Meets Q (next true) st') :
    (linkContract clean link).Meets Q ((callLinkAdd wanted).bind next) st := by
  apply Contract.Meets.bind
  apply Contract.meets_atomic
  intro middle others
  have now := has.later others
  have free : middle.kernel.Free wanted := fun d member taken =>
    fresh d member ((now.holds _ (inside d member)).mp taken)
  have made : Has entered link (places ++ wanted.map Device.place)
      { middle with kernel := middle.kernel.make wanted } := by
    refine ⟨fun place listed => ?_, now.entered⟩
    rw [Kernel.taken_make, now.holds place listed, List.mem_append, or_comm]
  rw [Kernel.linkAdd_free free]
  refine ⟨⟨fun place outside => ?_, fun name => ?_, fun _ => .inl rfl,
    fun _ => Kernel.rejections_make wanted, rfl, rfl⟩, fun last others => onwards last
    (made.later others)⟩
  · apply devices_make
    intro made
    obtain ⟨d, member, rfl⟩ := List.mem_map.mp made
    exact outside (inside d member)
  · have absent : (Namespace.host, name) ∉ wanted.map Device.place := by
      intro made
      obtain ⟨d, member, same⟩ := List.mem_map.mp made
      exact away d member (congrArg Prod.fst same)
    exact .inl (devices_make middle.kernel absent)

theorem Has.check {α : Type} (has : Has entered link places st)
    {f : ThreadState → Except LinkFailure α} {value : α}
    (succeeds : ∀ st, Has entered link places st → f st = .ok value) {next : α → LinkProg Unit}
    (onwards : ∀ st', Has entered link places st' →
      (linkContract clean link).Meets Q (next value) st') :
    (linkContract clean link).Meets Q ((Prog.check f).bind next) st := by
  apply Contract.Meets.bind
  apply Contract.meets_check
  intro middle others
  have now := has.later others
  exact ⟨value, succeeds middle now, .refl clean link middle,
    fun last others => onwards last (now.later others)⟩

theorem Has.readBackBoneNs (has : Has entered link places st)
    {next : Option NsHandle → LinkProg Unit}
    (onwards : ∀ st', Has entered link places st' →
      (linkContract clean link).Meets Q (next entered.lmCurBackBoneNs) st') :
    (linkContract clean link).Meets Q (readBackBoneNs.bind next) st :=
  has.check (fun _ now => by rw [now.entered]) onwards

theorem Has.netnsSet (has : Has entered link places st) {message : String}
    {handle : Option NsHandle} {bbns : Nat} (open_ : entered.namespaceOf handle = some bbns)
    {next : Nat → LinkProg Unit}
    (onwards : ∀ st', Has entered link places st' →
      (linkContract clean link).Meets Q (next bbns) st') :
    (linkContract clean link).Meets Q ((netnsSet message handle).bind next) st :=
  has.check (fun _ now => by rw [now.entered, open_]) onwards

theorem Has.callLinkSetUp (has : Has entered link places st) {nodeId : Int} {name : DevName}
    (inside : (.node nodeId, name) ∈ region link) (member : (.node nodeId, name) ∈ places)
    {next : Unit → LinkProg Unit}
    (onwards : ∀ st', Has entered link places st' →
      (linkContract clean link).Meets Q (next ()) st') :
    (linkContract clean link).Meets Q ((callLinkSetUp nodeId name).bind next) st :=
  has.check (fun _ now => if_pos ((now.holds _ inside).mpr member)) onwards

theorem Has.callLinkByName (has : Has entered link places st) {bbns : Nat} {name : DevName}
    (inside : (.backbone bbns, name) ∈ region link) (member : (.backbone bbns, name) ∈ places)
    {next : Unit → LinkProg Unit}
    (onwards : ∀ st', Has entered link places st' →
      (linkContract clean link).Meets Q (next ()) st') :
    (linkContract clean link).Meets Q ((callLinkByName name bbns).bind next) st :=
  has.check (fun _ now => if_pos ((now.holds _ inside).mpr member)) onwards

theorem Has.addBridge (has : Has entered link places st) {bbns : Nat} {i j : Int}
    (inside : ∀ d ∈ br bbns i j [], d.place ∈ region link)
    (fresh : ∀ d ∈ br bbns i j [], d.place ∉ places) {next : Unit → LinkProg Unit}
    (onwards : ∀ st', Has entered link (places ++ (br bbns i j []).map Device.place) st' →
      (linkContract clean link).Meets Q (next ()) st') :
    (linkContract clean link).Meets Q ((addBridge bbns i j).bind next) st := by
  apply Contract.Meets.bind
  exact has.callLinkAdd inside fresh (by simp [br]) fun _ more last others => onwards last
    (more.later others)

theorem Has.addVeth (has : Has entered link places st) {bbns : Nat} {nodeId : Int}
    {outer inner : DevName}
    (inside : ∀ d ∈ vethPair bbns outer nodeId inner, d.place ∈ region link)
    (fresh : ∀ d ∈ vethPair bbns outer nodeId inner, d.place ∉ places)
    {next : DevName → LinkProg Unit}
    (onwards : ∀ st', Has entered link
        (places ++ (vethPair bbns outer nodeId inner).map Device.place) st' →
      (linkContract clean link).Meets Q (next inner) st') :
    (linkContract clean link).Meets Q ((addVeth bbns outer nodeId inner).bind next) st := by
  apply Contract.Meets.bind
  exact has.callLinkAdd inside fresh (by simp [vethPair]) fun _ more last others => onwards last
    (more.later others)

theorem Has.addOnceProg (has : Has entered link places st) {message : String}
    {wanted : List Device} (inside : ∀ d ∈ wanted, d.place ∈ region link)
    (fresh : ∀ d ∈ wanted, d.place ∉ places) (away : ∀ d ∈ wanted, d.ns ≠ .host)
    {next : Unit → LinkProg Unit}
    (onwards : ∀ st', Has entered link (places ++ wanted.map Device.place) st' →
      (linkContract clean link).Meets Q (next ()) st') :
    (linkContract clean link).Meets Q ((addOnceProg message wanted).bind next) st := by
  apply Contract.Meets.bind
  exact has.callLinkAdd inside fresh away fun _ more last others => onwards last
    (more.later others)

-- The kernel has no reason to turn the link's id down.
def IdFree (link : PlannedLink) (st : ThreadState) : Prop :=
  ∀ vxlanID, Owns link vxlanID → (0 ≤ vxlanID ∧ vxlanID < 2 ^ 24) ∧ st.vxlanIds vxlanID = none

/-- A link may be begun: nothing is there under its names and its id is free, or there is only the
VXLAN device that an attempt before this one left in the host's namespace. -/
inductive Ready (clean : Prop) (tries : Nat) (link : PlannedLink) (st : ThreadState) : Prop where
  | clear (clear : Holds link [] st) (free : IdFree link st)
  | left (unclean : ¬ clean) (some_tries : 0 < tries) (external : link.2.2.2 ≠ -1)
      (holds : Holds link [(.host, vxlanName link.1 link.2.1)] st)
      (vxlan : st.kernel.devices .host (vxlanName link.1 link.2.1) = some .vxlan)

theorem Ready.later {tries : Nat} (ready : Ready clean tries link st)
    (nonneg : 0 ≤ link.1 ∧ 0 ≤ link.2.1) (others : Untouched link st st') :
    Ready clean tries link st' := by
  cases ready with
  | clear clear free =>
    refine .clear (clear.later others) fun vxlanID owns => ?_
    rw [others.ids vxlanID owns]
    exact free vxlanID owns
  | left unclean some_tries external holds vxlan =>
    exact .left unclean some_tries external (holds.later others)
      ((others.names _ (vxlan_region nonneg .host)).trans vxlan)

theorem meets_refused {α : Type} {Q : α → ThreadState → Prop} (unclean : ¬ clean) {name : DevName}
    (vxlanID : Int) (inside : (.host, name) ∈ region link)
    (there : st.kernel.devices .host name = some .vxlan) {next : Bool → LinkProg α}
    (onwards : ∀ st', (linkContract clean link).rely st st' →
      (linkContract clean link).Meets Q (next false) st') :
    (linkContract clean link).Meets Q ((callVxlanAdd name vxlanID).bind next) st := by
  apply Contract.Meets.bind
  apply Contract.meets_atomic
  intro middle others
  have taken : middle.kernel.Taken (.host, name) := by
    rw [Kernel.Taken, others.1.names _ inside, there]
    rfl
  rw [ThreadState.vxlanAdd, if_neg fun free => free.2.2 taken]
  refine ⟨.of_same rfl rfl (fun yes => absurd yes unclean) rfl rfl, fun last more => ?_⟩
  refine onwards last ((linkContract clean link).relyTrans others ⟨?_, more.2⟩)
  exact ⟨more.1.names, more.1.ids⟩

theorem meets_added {α : Type} {Q : α → ThreadState → Prop} (clear : Has entered link [] st)
    (external : link.2.2.2 ≠ -1) (nonneg : 0 ≤ link.1 ∧ 0 ≤ link.2.1)
    (free : IdFree link st) {next : Bool → LinkProg α}
    (onwards : ∀ st', Has entered link [(.host, vxlanName link.1 link.2.1)] st' →
      (linkContract clean link).Meets Q (next true) st') :
    (linkContract clean link).Meets Q
      ((callVxlanAdd (vxlanName link.1 link.2.1) link.2.2.2).bind next) st := by
  have inside := vxlan_region nonneg .host
  apply Contract.Meets.bind
  apply Contract.meets_atomic
  intro middle others
  have now := clear.later others
  have untaken : ¬ middle.kernel.Taken (.host, vxlanName link.1 link.2.1) := by
    simp [now.holds _ inside]
  obtain ⟨small, unused⟩ := free _ ⟨external, rfl⟩
  have still := (others.1.ids _ ⟨external, rfl⟩).trans unused
  have made : Has entered link [(.host, vxlanName link.1 link.2.1)] { middle with
      kernel := middle.kernel.put (.host, vxlanName link.1 link.2.1) (some .vxlan)
      vxlanIds := Function.update middle.vxlanIds link.2.2.2
        (some (vxlanName link.1 link.2.1)) } := by
    refine ⟨fun place listed => ?_, now.entered⟩
    rw [Kernel.taken_put_some, now.holds place listed]
    simp
  rw [ThreadState.vxlanAdd, if_pos ⟨small, still, untaken⟩]
  refine ⟨?_, fun last more => onwards last (made.later more)⟩
  constructor
  case outside =>
    rintro ⟨ns, name⟩ outside
    have away : ¬ (ns = .host ∧ name = vxlanName link.1 link.2.1) := by
      rintro ⟨rfl, rfl⟩
      exact outside inside
    exact if_neg away
  case host =>
    intro name
    by_cases same : name = vxlanName link.1 link.2.1
    next => exact .inr (.inr ⟨⟨external, same⟩, if_pos ⟨rfl, same⟩⟩)
    next => exact .inl (if_neg fun both => same both.2)
  case ids =>
    intro vxlanID
    by_cases same : vxlanID = link.2.2.2
    next => exact .inr ⟨⟨external, same⟩, by simp [same]⟩
    next => exact .inl (Function.update_of_ne same _ _)
  case rejections => exact fun _ => rfl
  case counter => rfl
  case entered => rfl

theorem Ready.addVxlanProg {tries : Nat} (ready : Ready clean tries link st)
    (same : st.entered = entered) (external : link.2.2.2 ≠ -1)
    (nonneg : 0 ≤ link.1 ∧ 0 ≤ link.2.1) {next : Unit → LinkProg Unit}
    (onwards : ∀ st', Has entered link [(.host, vxlanName link.1 link.2.1)] st' →
      (linkContract clean link).Meets Q (next ()) st') :
    (linkContract clean link).Meets Q
      ((addVxlanProg tries (vxlanName link.1 link.2.1) link.2.2.2).bind next) st := by
  have inside := vxlan_region nonneg .host
  apply Contract.Meets.bind
  cases ready with
  | clear clear free =>
    exact meets_added ⟨clear, same⟩ external nonneg free
      fun _ more last others => onwards last (more.later others)
  | left unclean some_tries _ holds vxlan =>
    obtain ⟨more, rfl⟩ := Nat.exists_eq_add_of_lt some_tries
    rw [Nat.zero_add]
    have has : Has entered link [(.host, vxlanName link.1 link.2.1)] st := ⟨holds, same⟩
    refine meets_refused unclean _ inside vxlan fun refused others => ?_
    have still := (others.1.names _ inside).trans vxlan
    refine meets_refused unclean _ inside still fun again others' => ?_
    have there := (others'.1.names _ inside).trans still
    apply Contract.Meets.bind
    apply Contract.meets_check
    intro found others''
    have vxlan' : found.kernel.devices .host (vxlanName link.1 link.2.1) = some .vxlan :=
      (others''.1.names _ inside).trans there
    refine ⟨true, by simp [vxlan'], .refl clean link found, fun last onLast => ?_⟩
    intro final onFinal
    have kept := ((has.later others).later others').later others''
    exact onwards final ((kept.later onLast).later onFinal)

theorem Has.callLinkSetNsFd {name : DevName} (has : Has entered link [(.host, name)] st)
    {backboneNs : Option NsHandle} {bbns : Nat}
    (open_ : entered.namespaceOf backboneNs = some bbns) (host : (.host, name) ∈ region link)
    (inside : (.backbone bbns, name) ∈ region link) {next : Unit → LinkProg Unit}
    (onwards : ∀ st', Has entered link [(.backbone bbns, name)] st' →
      (linkContract clean link).Meets Q (next ()) st') :
    (linkContract clean link).Meets Q ((callLinkSetNsFd name backboneNs).bind next) st := by
  apply Contract.Meets.bind
  apply Contract.meets_guarded
  intro middle others
  have now := has.later others
  obtain rfl := now.entered
  have free : ¬ middle.kernel.Taken (.backbone bbns, name) := by
    rw [now.holds _ inside]
    simp
  have made : Has middle.entered link [(.backbone bbns, name)] { middle with
      kernel := (middle.kernel.put (.host, name) none).put (.backbone bbns, name)
        (some .vxlan) } := by
    refine ⟨fun place listed => ?_, rfl⟩
    simp only [Kernel.taken_put_some, Kernel.taken_put_none, now.holds place listed,
      List.mem_singleton]
    tauto
  refine ⟨_, by simp only [open_, if_neg free], ?_,
    fun last others' => onwards last (made.later others')⟩
  constructor
  case outside =>
    rintro ⟨ns, other⟩ outside
    have apart : ¬ (ns = .backbone bbns ∧ other = name) := by
      rintro ⟨rfl, rfl⟩
      exact outside inside
    have away : ¬ (ns = .host ∧ other = name) := by
      rintro ⟨rfl, rfl⟩
      exact outside host
    simp [Kernel.put, apart, away]
  case host =>
    intro other
    by_cases same : other = name <;> simp [Kernel.put, same]
  case ids => exact fun _ => .inl rfl
  case rejections => exact fun _ => rfl
  case counter => rfl
  case entered => rfl

end Contracts

section Tasks

-- Main and the link manager are in the first namespace, through a handle that is open.
structure Entered.Current (entered : Entered) : Prop where
  last : entered.lmCurBackBoneNs = some entered.curBackBoneNs
  opened : entered.namespaceOf (some entered.curBackBoneNs) = some 0
  closed : ∀ handle ∈ entered.closed, handle < entered.handles.length

variable {clean : Prop} {tries : Nat} {link : PlannedLink} {st : ThreadState}

def Built (link : PlannedLink) (st : ThreadState) : Prop := Holds link (linkPlaces (0, link)) st

theorem internalProg_meets {entered : Entered} (current : entered.Current)
    (internal : link.2.2.2 = -1) (nonneg : 0 ≤ link.1 ∧ 0 ≤ link.2.1)
    (different : link.1 ≠ link.2.1) (clear : Has entered link [] st) :
    (linkContract clean link).Meets (fun _ => Built link) (internalProg 0 link.1 link.2.1) st := by
  obtain ⟨i, j, serverID, vxlanID⟩ := link
  dsimp only at internal different
  subst internal
  have places : linkPlaces (0, (i, j, serverID, -1)) = (br 0 i j [] ++
      (vethPair 0 (vethNamei i j) i (insideVethName i j) ++
        vethPair 0 (vethNamej i j) j (insideVethName j i))).map Device.place := by
    simp [linkPlaces, linkDevices, vethOuti, vethOutj, vethPair]
  have inside {place : Namespace × DevName}
      (member : place ∈ linkPlaces (0, (i, j, serverID, -1))) :
      place ∈ region (i, j, serverID, -1) := linkPlaces_region nonneg member
  rw [places] at inside
  unfold internalProg
  apply clear.readBackBoneNs
  intro begun has
  apply has.addBridge
  · exact fun d member => inside (List.mem_map_of_mem (List.mem_append_left _ member))
  · simp
  intro bridged has
  apply has.addVeth
  · exact fun d member => inside (List.mem_map_of_mem
      (List.mem_append_right _ (List.mem_append_left _ member)))
  · simp [vethPair, br, Device.place, vethNamei]
  intro joined has
  apply has.addVeth
  · exact fun d member => inside (List.mem_map_of_mem
      (List.mem_append_right _ (List.mem_append_right _ member)))
  · simp [vethPair, br, Device.place, vethNamei, vethNamej, Ne.symm different]
  intro both has
  apply has.callLinkSetUp
  · exact inside (by simp [vethPair, Device.place])
  · simp [vethPair, Device.place]
  intro up has
  apply has.callLinkSetUp
  · exact inside (by simp [vethPair, Device.place])
  · simp [vethPair, Device.place]
  intro done has
  apply has.netnsSet (current.last ▸ current.opened)
  intro back has last others
  rw [Built, places]
  simpa using (has.later others).holds

theorem externalProg_meets (current : st.entered.Current) (external : link.2.2.2 ≠ -1)
    (nonneg : 0 ≤ link.1 ∧ 0 ≤ link.2.1) (ready : Ready clean tries link st) :
    (linkContract clean link).Meets (fun _ => Built link)
      (externalProg link.1 link.2.1 link.2.2.2 tries) st := by
  obtain ⟨i, j, serverID, vxlanID⟩ := link
  have host := vxlan_region nonneg .host
  have places : linkPlaces (0, (i, j, serverID, vxlanID)) =
      ([vxlanOut 0 i j] ++ (br 0 i j [] ++ vethOuti 0 i j [])).map Device.place := by
    dsimp only at external
    simp [linkPlaces, linkDevices, external]
  have inside {place : Namespace × DevName}
      (member : place ∈ linkPlaces (0, (i, j, serverID, vxlanID))) :
      place ∈ region (i, j, serverID, vxlanID) := linkPlaces_region nonneg member
  rw [places] at inside
  have back : st.entered.namespaceOf st.entered.lmCurBackBoneNs = some 0 :=
    current.last ▸ current.opened
  unfold externalProg
  apply Contract.Meets.bind
  apply Contract.meets_check
  intro begun others
  refine ⟨_, rfl, .refl clean _ begun, fun now others' => ?_⟩
  have same := others'.2.trans others.2
  rw [others.2]
  have begins := (ready.later nonneg others.1).later nonneg others'.1
  apply begins.addVxlanProg same external nonneg
  intro added has
  apply has.callLinkSetNsFd back host (inside (by simp [vxlanOut, Device.place]))
  intro moved has
  apply has.netnsSet back
  intro there has
  apply has.addOnceProg
  · exact fun d member => inside (List.mem_map_of_mem
      (List.mem_append_right _ (List.mem_append_left _ member)))
  · simp [br, Device.place, vxlanName]
  · simp [br]
  intro bridged has
  apply has.addOnceProg
  · exact fun d member => inside (List.mem_map_of_mem
      (List.mem_append_right _ (List.mem_append_right _ member)))
  · simp [vethOuti, br, Device.place, vxlanName, vethNamei]
  · simp [vethOuti]
  intro joined has
  apply has.callLinkByName
  · exact inside (by simp [vxlanOut, Device.place])
  · simp
  intro found has
  apply has.callLinkSetUp
  · exact inside (by simp [vethOuti, Device.place])
  · simp [vethOuti, Device.place]
  intro done has
  apply has.netnsSet back
  intro returned has last others
  rw [Built, places]
  simpa [vxlanOut, Device.place] using (has.later others).holds

theorem linkTask_meets (current : st.entered.Current) (nonneg : 0 ≤ link.1 ∧ 0 ≤ link.2.1)
    (different : link.1 ≠ link.2.1) (ready : Ready clean tries link st) :
    (linkContract clean link).Meets (fun _ => Built link) (linkTask tries link st) st := by
  unfold linkTask
  apply Contract.Meets.bind
  apply Contract.meets_check
  intro begun others
  refine ⟨0, ?_, .refl clean link begun, fun inside others' => ?_⟩
  · rw [others.2, current.opened]
  have same : inside.entered = st.entered := others'.2.trans others.2
  have begins := (ready.later nonneg others.1).later nonneg others'.1
  rw [← same] at current
  split
  next internal =>
    cases begins with
    | clear clear => exact internalProg_meets current internal nonneg different ⟨clear, rfl⟩
    | left _ _ external => exact absurd internal external
  next external => exact externalProg_meets current external nonneg begins

end Tasks

section MainThread

variable {entered : Entered} {backBoneNum : Nat}

-- What main has when a step begins; `count` links were handed out before it.
structure Entered.Between (count : Nat) (entered : Entered) : Prop where
  index : entered.curBbnsIndex = 0
  current : entered.Current ∨
    count = 0 ∧ entered.lmCurBackBoneNs = none ∧ entered.closed = []

theorem Entered.Current.fromZero (current : entered.Current) :
    Entered.Current { entered with curBbnsIndex := 0 } :=
  ⟨current.last, current.opened, current.closed⟩

theorem Entered.Current.opened_lt (current : entered.Current) :
    entered.curBackBoneNs < entered.handles.length := by
  have opened := current.opened
  simp only [Entered.namespaceOf] at opened
  split at opened
  · cases opened
  · exact (List.getElem?_eq_some_iff.mp opened).1

-- The namespace of a step's first link is always the first one.
theorem Entered.Between.enters {count : Nat} (between : entered.Between count)
    (some_bbns : 0 < backBoneNum) :
    ∃ next, entered.enterBbNs backBoneNum = some next ∧ next.Current := by
  have closed : ∀ handle ∈ entered.lmCurBackBoneNs.toList ++ entered.closed,
      handle < entered.handles.length := by
    rcases between.current with current | ⟨-, none, nothing⟩
    · rw [current.last]
      exact List.forall_mem_cons.mpr ⟨current.opened_lt, current.closed⟩
    · simp [none, nothing]
  refine ⟨_, if_pos (between.index ▸ some_bbns), rfl, ?_, fun handle member => ?_⟩
  · have live : entered.handles.length ∉ entered.lmCurBackBoneNs.toList ++ entered.closed :=
      fun member => lt_irrefl _ (closed _ member)
    simp only [Entered.namespaceOf, if_neg live]
    simp [between.index]
  · rw [List.length_append]
    exact Nat.lt_add_right 1 (closed handle member)

end MainThread

section Pools

variable {g : Graph} {plan : Plan} {clean : Prop} {backBoneNum numWorkers tries : Nat}
  {start : ThreadState}

-- The tunnels of the external links: an id of 24 bits for each.
structure TunnelIds (g : Graph) : Prop where
  small : ∀ link ∈ g.danglingLinks g.danglingEdgeList.keys, link.2.2.2 ≠ -1 →
    0 ≤ link.2.2.2 ∧ link.2.2.2 < 2 ^ 24
  distinct : ∀ link ∈ g.danglingLinks g.danglingEdgeList.keys,
    ∀ link' ∈ g.danglingLinks g.danglingEdgeList.keys, link.2.2.2 ≠ -1 →
      link.2.2.2 = link'.2.2.2 → ends link = ends link'

theorem Plans.external {links : List PlannedLink} (plans : Plans g links) {link : PlannedLink}
    (external : link.2.2.2 ≠ -1) :
    link ∈ links ↔ link ∈ g.danglingLinks g.danglingEdgeList.keys := by
  obtain ⟨internal, listed, -⟩ := plans
  rw [listed.mem_iff, List.mem_append, or_iff_right]
  intro inside
  obtain ⟨ends, -, rfl⟩ := List.mem_map.mp inside
  exact external rfl

theorem links_apart (single : SingleLinks g) {links : List PlannedLink} (plans : Plans g links)
    {link link' : PlannedLink} (member : link ∈ links) (member' : link' ∈ links)
    (same : ends link = ends link') : link = link' :=
  List.inj_on_of_nodup_map (single.ends_nodup plans) member member' same

theorem links_nodup (single : SingleLinks g) {links : List PlannedLink} (plans : Plans g links) :
    links.Nodup :=
  (single.ends_nodup plans).of_map _

theorem Owns.unique (tunnels : TunnelIds g) {links : List PlannedLink} (plans : Plans g links)
    {link link' : PlannedLink} (member : link ∈ links) (member' : link' ∈ links) {vxlanID : Int}
    (owns : Owns link vxlanID) (owns' : Owns link' vxlanID) : ends link = ends link' :=
  tunnels.distinct link ((plans.external owns.1).mp member) link'
    ((plans.external owns'.1).mp member') owns.1 (owns.2.symm.trans owns'.2)

def linkSpec (clean : Prop) : PoolRun.Spec PlannedLink ThreadState where
  contracts := linkContract clean
  post := Built
  between count st := st.entered.Between count
  within st := st.entered.Current

theorem linkMain_untouched {linkPerBackBoneNs count : Nat} {st st' : ThreadState}
    (link : PlannedLink)
    (prepares : (linkMain linkPerBackBoneNs backBoneNum).prepares count st = some st') :
    Untouched link st st' := by
  simp only [linkMain] at prepares
  split at prepares
  · cases prepares
  · split at prepares
    · obtain ⟨entered, -, rfl⟩ := Option.map_eq_some_iff.mp prepares
      exact ⟨fun _ _ => rfl, fun _ _ => rfl⟩
    · exact Option.some.inj prepares ▸ .refl link st

/-- The tasks of a plan go together, whatever VXLAN devices they find in the host's namespace. -/
theorem linkTasks_compatible (single : SingleLinks g) (tunnels : TunnelIds g)
    (covers : CoversOnce g plan) (some_bbns : 0 < backBoneNum)
    (entersFirst : EntersFirst (linkPerBackBoneNs g backBoneNum) plan.edgeOrder)
    (ready : ∀ link ∈ plan.edgeOrder.flatten, Ready clean tries link start) :
    PoolRun.Compatible (linkMain (linkPerBackBoneNs g backBoneNum) backBoneNum) (linkTask tries)
      (linkSpec clean) (start.newAgent backBoneNum) plan.edgeOrder := by
  have plans : Plans g plan.edgeOrder.flatten := covers.links
  have positive {link : PlannedLink} (member : link ∈ plan.edgeOrder.flatten) :
      linkPerBackBoneNs g backBoneNum ≠ 0 := by
    have some_link := List.length_pos_of_mem member
    rw [covers.length_flatten] at some_link
    exact (linkPerBackBoneNs_pos some_bbns some_link).ne'
  constructor
  case distinct => exact links_nodup single plans
  case others =>
    intro link member link' member' different st st' keeps
    have ends_differ : ends link' ≠ ends link := fun same =>
      different (links_apart single plans member member' same.symm)
    refine ⟨⟨fun place inside => ?_, fun vxlanID owns => ?_⟩, keeps.entered⟩
    · exact keeps.outside place (region_disjoint ends_differ inside)
    · rcases keeps.ids vxlanID with same | ⟨owns', -⟩
      · exact same
      · exact absurd (Owns.unique tunnels plans member' member owns owns') ends_differ
  case keeps =>
    intro link member st st' keeps within
    change st'.entered.Current
    rw [keeps.entered]
    exact within
  case starts =>
    intro link member st untouched current
    obtain ⟨nonneg, different⟩ := single.link plans member
    have again : Untouched link start (start.newAgent backBoneNum) :=
      ⟨fun _ _ => rfl, fun _ _ => rfl⟩
    exact linkTask_meets current nonneg different
      ((ready link member).later nonneg (again.trans untouched))
  case ends => exact fun link member st st' built untouched => built.later untouched
  case begins => exact fun link member st => ⟨fun _ _ => rfl, fun _ _ => rfl⟩
  case prepares => exact fun link member count st st' prepares => linkMain_untouched link prepares
  case between =>
    rintro count st (between | current)
    · refine ⟨rfl, between.current.imp Entered.Current.fromZero id⟩
    · exact ⟨rfl, .inl current.fromZero⟩
  case first =>
    intro link member count st between
    simp only [linkMain, if_neg (positive member)]
    split
    next due =>
      obtain ⟨entered, run, current⟩ := between.enters some_bbns
      exact ⟨{ st with entered := entered }, by rw [run]; rfl, current⟩
    next waiting =>
      refine ⟨st, rfl, between.current.resolve_right fun fresh => waiting ?_⟩
      rw [fresh.1, Nat.zero_mod]
  case calm =>
    intro before sent link rest later whole some_sent st
    have member : link ∈ plan.edgeOrder.flatten := by simp [whole]
    have waiting : (before.flatten ++ sent).length % linkPerBackBoneNs g backBoneNum ≠ 0 :=
      fun due => some_sent (entersFirst.first whole List.length_append due)
    simp only [linkMain, if_neg (positive member), if_neg waiting]

abbrev LinkPoolSound (g : Graph) (clean : Prop) (backBoneNum : Nat) (start : ThreadState)
    (plan : Plan) (st : PoolRun PlannedLink ThreadState LinkFailure) : Prop :=
  PoolRun.Sound (linkMain (linkPerBackBoneNs g backBoneNum) backBoneNum) (linkSpec clean)
    (start.newAgent backBoneNum) plan.edgeOrder st

theorem linkPool_sound (single : SingleLinks g) (tunnels : TunnelIds g)
    (covers : CoversOnce g plan) (some_bbns : 0 < backBoneNum)
    (entersFirst : EntersFirst (linkPerBackBoneNs g backBoneNum) plan.edgeOrder)
    (ready : ∀ link ∈ plan.edgeOrder.flatten, Ready clean tries link start)
    {st : PoolRun PlannedLink ThreadState LinkFailure}
    (reachable : (linkPool g backBoneNum numWorkers tries start plan.edgeOrder).Reachable st) :
    LinkPoolSound g clean backBoneNum start plan st :=
  PoolRun.reachable_sound
    (linkTasks_compatible single tunnels covers some_bbns entersFirst ready)
    ⟨rfl, .inr ⟨rfl, rfl, rfl⟩⟩ reachable

structure PromisedTogether (clean : Prop) (links : List PlannedLink) (start st : ThreadState) :
    Prop where
  outside : ∀ place, (∀ link ∈ links, place ∉ region link) →
    st.kernel.devices place.1 place.2 = start.kernel.devices place.1 place.2
  host : ∀ name, st.kernel.devices .host name = start.kernel.devices .host name ∨
    st.kernel.devices .host name = none ∨
    ∃ link ∈ links, InFlight link name ∧ st.kernel.devices .host name = some .vxlan
  ids : ∀ vxlanID, st.vxlanIds vxlanID = start.vxlanIds vxlanID ∨
    ∃ link ∈ links, Owns link vxlanID ∧
      st.vxlanIds vxlanID = some (vxlanName link.1 link.2.1)
  rejections : clean → st.kernel.rejections = start.kernel.rejections
  counter : st.repeatDevCounter = 0

theorem LinkPoolSound.promised {st : PoolRun PlannedLink ThreadState LinkFailure}
    (sound : LinkPoolSound g clean backBoneNum start plan st) :
    PromisedTogether clean plan.edgeOrder.flatten start st.shared := by
  have moved := sound.moved
  generalize st.shared = shared at moved
  induction moved with
  | refl => exact ⟨fun _ _ => rfl, fun _ => .inl rfl, fun _ => .inl rfl, fun _ => rfl, rfl⟩
  | tail _ step ih =>
    obtain ⟨outside, host, ids, rejections, counter⟩ := ih
    rcases step with rfl | ⟨count, prepares⟩ | ⟨link, member, keeps⟩
    · exact ⟨outside, host, ids, rejections, counter⟩
    · simp only [linkMain] at prepares
      split at prepares
      · cases prepares
      · split at prepares
        · obtain ⟨entered, -, rfl⟩ := Option.map_eq_some_iff.mp prepares
          exact ⟨outside, host, ids, rejections, counter⟩
        · exact Option.some.inj prepares ▸ ⟨outside, host, ids, rejections, counter⟩
    · refine ⟨fun place away => ?_, fun name => ?_, fun vxlanID => ?_, fun yes => ?_,
        keeps.counter.trans counter⟩
      · exact (keeps.outside place (away link member)).trans (outside place away)
      · rcases keeps.host name with same | gone | ⟨flying, vxlan⟩
        · rw [same]
          exact host name
        · exact .inr (.inl gone)
        · exact .inr (.inr ⟨link, member, flying, vxlan⟩)
      · rcases keeps.ids vxlanID with same | ⟨owns, taken⟩
        · rw [same]
          exact ids vxlanID
        · exact .inr ⟨link, member, owns, taken⟩
      · exact (keeps.rejections yes).trans (rejections yes)

theorem LinkPoolSound.built (single : SingleLinks g) (covers : CoversOnce g plan)
    {st : PoolRun PlannedLink ThreadState LinkFailure}
    (sound : LinkPoolSound g clean backBoneNum start plan st) (done : st.Done)
    (place : Namespace × DevName) : st.shared.kernel.Taken place ↔
      start.kernel.Taken place ∧ (∀ link ∈ plan.edgeOrder.flatten, place ∉ region link) ∨
        ∃ link ∈ plan.edgeOrder.flatten, place ∈ linkPlaces (0, link) := by
  have plans : Plans g plan.edgeOrder.flatten := covers.links
  have has (link : PlannedLink) (member : link ∈ plan.edgeOrder.flatten) :
      Built link st.shared := sound.post done member
  have named_of {link : PlannedLink} (member : link ∈ plan.edgeOrder.flatten)
      (listed : place ∈ linkPlaces (0, link)) : place ∈ region link :=
    @linkPlaces_region (0, link) (single.link plans member).1 place listed
  by_cases inside : ∃ link ∈ plan.edgeOrder.flatten, place ∈ region link
  next =>
    obtain ⟨link, member, named⟩ := inside
    rw [has link member place named, or_iff_right fun before => before.2 link member named]
    refine ⟨fun listed => ⟨link, member, listed⟩, ?_⟩
    rintro ⟨other, member', listed⟩
    have named' := named_of member' listed
    by_cases same : ends link = ends other
    next =>
      rw [links_apart single plans member member' same]
      exact listed
    next => exact absurd named' (region_disjoint same named)
  next =>
    push Not at inside
    have same := sound.promised.outside place inside
    rw [Kernel.Taken, Kernel.Taken, same]
    refine ⟨fun before => .inl ⟨before, inside⟩, ?_⟩
    rintro (⟨before, -⟩ | ⟨link, member, listed⟩)
    · exact before
    · exact absurd (named_of member listed) (inside link member)

structure LinksSafe (g : Graph) (backBoneNum numWorkers tries : Nat) (start : ThreadState)
    (plan : Plan) (st : PoolRun PlannedLink ThreadState LinkFailure) : Prop where
  noFailure : ∀ link ∈ plan.edgeOrder.flatten, (st.progs link).failed = false
  noRejection : st.shared.kernel.rejections = start.kernel.rejections ∧
    st.shared.repeatDevCounter = 0
  completes : ∃ last, PoolRun.Moves numWorkers
    (linkMain (linkPerBackBoneNs g backBoneNum) backBoneNum) (linkTask tries) st last ∧ last.Done
  built : st.Done → ∀ place, st.shared.kernel.Taken place ↔ start.kernel.Taken place ∨
    ∃ link ∈ plan.edgeOrder.flatten, place ∈ linkPlaces (0, link)

-- The ids of the external links are not in use.
def TunnelsFree (g : Graph) (st : ThreadState) : Prop :=
  ∀ link ∈ g.danglingLinks g.danglingEdgeList.keys, link.2.2.2 ≠ -1 →
    st.vxlanIds link.2.2.2 = none

theorem Unnumbered.untaken {kernel : Kernel} (unnumbered : Unnumbered kernel) {link : PlannedLink}
    {place : Namespace × DevName} (inside : place ∈ region link) : ¬ kernel.Taken place := by
  obtain ⟨ns, name⟩ := place
  obtain ⟨u, v, tail, -, positive, -, rfl⟩ := inside
  exact unnumbered.free positive.1 tail

theorem Unnumbered.ready (unnumbered : Unnumbered start.kernel) (tunnels : TunnelIds g)
    (free : TunnelsFree g start) (covers : CoversOnce g plan) {link : PlannedLink}
    (member : link ∈ plan.edgeOrder.flatten) : Ready clean tries link start := by
  have plans : Plans g plan.edgeOrder.flatten := covers.links
  refine .clear (fun place inside => ?_) ?_
  · simpa using unnumbered.untaken inside
  · rintro vxlanID ⟨external, rfl⟩
    have dangling := (plans.external external).mp member
    exact ⟨tunnels.small link dangling external, free link dangling external⟩

/-- However the workers and the main thread take turns, where only first links change the
namespace no task of a network without parallel links fails, and the links end up whole. -/
theorem linkPool_safe (single : SingleLinks g) (tunnels : TunnelIds g)
    (covers : CoversOnce g plan) (some_bbns : 0 < backBoneNum)
    (entersFirst : EntersFirst (linkPerBackBoneNs g backBoneNum) plan.edgeOrder)
    (unnumbered : Unnumbered start.kernel) (free : TunnelsFree g start)
    (some_workers : 0 < numWorkers) (tries : Nat)
    {st : PoolRun PlannedLink ThreadState LinkFailure}
    (reachable : (linkPool g backBoneNum numWorkers tries start plan.edgeOrder).Reachable st) :
    LinksSafe g backBoneNum numWorkers tries start plan st := by
  have ready (link : PlannedLink) (member : link ∈ plan.edgeOrder.flatten) :
      Ready True tries link start := unnumbered.ready tunnels free covers member
  have sound := linkPool_sound single tunnels covers some_bbns entersFirst ready reachable
  constructor
  case noFailure => exact fun link member => sound.not_failed member
  case noRejection => exact ⟨sound.promised.rejections trivial, sound.promised.counter⟩
  case completes =>
    exact sound.completes
      (linkTasks_compatible single tunnels covers some_bbns entersFirst ready) some_workers
  case built =>
    intro done place
    rw [sound.built single covers done]
    refine or_congr_left (and_iff_left_of_imp fun before link _ inside => ?_)
    exact unnumbered.untaken inside before

end Pools

section Border

-- The steps of the two nodes of the border graph; both links come with the second one.
def borderPlan : Plan := ⟨[1, 12], [[], [(12, 1, -1, -1), (12, 7, 1, 4097)]], [0, 2]⟩

theorem borderPlan_coversOnce : CoversOnce borderGraph borderPlan := by
  refine ⟨by decide, rfl, rfl, rfl, [(12, 1)], List.Perm.refl _, fun u v => ?_⟩
  rw [neighbors_borderGraph]
  simp only [Multigraph.unordered, List.map_cons, List.map_nil, List.count_singleton, beq_iff_eq,
    Sym2.eq_iff]
  split_ifs <;> simp only [List.count_singleton, List.count_nil] <;> grind

theorem borderPlan_entersFirst :
    EntersFirst (linkPerBackBoneNs borderGraph 1) borderPlan.edgeOrder := by
  intro k bound due
  have small : k < 2 := bound
  have even : k % 2 = 0 := due
  obtain rfl : k = 0 := by omega
  rfl

theorem borderGraph_tunnelIds : TunnelIds borderGraph := by
  constructor <;> decide

def idleThreads : ThreadState := ⟨⟨fun _ _ => none, 0⟩, fun _ => none, 0, ⟨0, 0, none, [], []⟩⟩

theorem idleThreads_unnumbered : Unnumbered idleThreads.kernel := by
  intro place taken
  simp [idleThreads, Kernel.Taken] at taken

theorem linkPool_safe_border :
    LinksSafe borderGraph 1 2 1 idleThreads borderPlan
      (PoolRun.start (idleThreads.newAgent 1) borderPlan.edgeOrder) :=
  linkPool_safe singleLinks_borderGraph borderGraph_tunnelIds borderPlan_coversOnce (by decide)
    borderPlan_entersFirst idleThreads_unnumbered (fun _ _ _ => rfl) (by decide) 1 (.start rfl)

end Border

end SplitNN.Agent.NtlBr
