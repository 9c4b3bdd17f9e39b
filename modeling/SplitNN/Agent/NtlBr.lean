import SplitNN.Agent.Plan
import SplitNN.Shared.CText
import SplitNN.Shared.Monadic

set_option autoImplicit false

-- The bridge-based link manager: which devices it asks the kernel for, and under which names.
namespace SplitNN.Agent.NtlBr

open Text

abbrev DevName := List Char

inductive Namespace where
  | host
  | backbone (bbnsIndex : Nat)
  | node (nodeId : Int)
  deriving DecidableEq

inductive DeviceKind where
  | bridge
  | veth
  | vxlan
  deriving DecidableEq

structure Device where
  ns : Namespace
  name : DevName
  kind : DeviceKind
  deriving DecidableEq

def Device.place (d : Device) : Namespace × DevName := (d.ns, d.name)

structure Kernel where
  devices : Namespace → DevName → Option DeviceKind
  -- The calls of `LinkAdd` that were turned down.
  rejections : Nat

namespace Kernel

def Taken (k : Kernel) (place : Namespace × DevName) : Prop :=
  (k.devices place.1 place.2).isSome

instance (k : Kernel) (place : Namespace × DevName) : Decidable (k.Taken place) :=
  inferInstanceAs (Decidable (_ = true))

def put (k : Kernel) (place : Namespace × DevName) (kind : Option DeviceKind) : Kernel :=
  { k with devices := fun ns name =>
      if ns = place.1 ∧ name = place.2 then kind else k.devices ns name }

def make (k : Kernel) (wanted : List Device) : Kernel :=
  wanted.foldl (fun k d => k.put d.place (some d.kind)) k

-- The two ends of a veth are wanted together.
def linkAdd (k : Kernel) (wanted : List Device) : Bool × Kernel :=
  if ∃ d ∈ wanted, k.Taken d.place then (false, { k with rejections := k.rejections + 1 })
  else (true, k.make wanted)

end Kernel

structure LinkState where
  kernel : Kernel
  curBackBoneNs : Nat
  repeatDevCounter : Nat

inductive LinkFailure where
  | error (message : String)
  -- A loop that tries again until the kernel changes its mind.
  | hangs
  deriving DecidableEq

section Names

def dashed (u v : Int) : DevName := itoa u ++ '-' :: itoa v

def brName (nodeIdi nodeIdj : Int) : DevName :=
  if nodeIdi < nodeIdj then dashed nodeIdi nodeIdj else dashed nodeIdj nodeIdi

def vethNamei (nodeIdi nodeIdj : Int) : DevName := brName nodeIdi nodeIdj ++ "-i".toList

def vethNamej (nodeIdi nodeIdj : Int) : DevName := brName nodeIdi nodeIdj ++ "-j".toList

def vxlanName (nodeIdi nodeIdj : Int) : DevName := brName nodeIdi nodeIdj ++ "-v".toList

def insideVethName (nodeId other : Int) : DevName := dashed nodeId other

variable (bbnsIndex : Nat) (nodeIdi nodeIdj : Int) (suffix : DevName)

def br : List Device := [⟨.backbone bbnsIndex, brName nodeIdi nodeIdj ++ suffix, .bridge⟩]

def vethOuti : List Device :=
  [⟨.backbone bbnsIndex, vethNamei nodeIdi nodeIdj ++ suffix, .veth⟩,
    ⟨.node nodeIdi, insideVethName nodeIdi nodeIdj ++ suffix, .veth⟩]

def vethOutj : List Device :=
  [⟨.backbone bbnsIndex, vethNamej nodeIdi nodeIdj ++ suffix, .veth⟩,
    ⟨.node nodeIdj, insideVethName nodeIdj nodeIdi ++ suffix, .veth⟩]

end Names

section Source

-- `LinkAdd` under the plain name and, if that is turned down, under the name with the counter.
def addOrRepeat (message : String) (wanted : DevName → List Device) (st : LinkState) :
    Except LinkFailure (DevName × LinkState) :=
  match st.kernel.linkAdd (wanted []) with
  | (true, kernel) => .ok ([], { st with kernel })
  | (false, kernel) =>
    let suffix := itoa st.repeatDevCounter
    match kernel.linkAdd (wanted suffix) with
    | (true, kernel) =>
      .ok (suffix, { st with kernel := kernel, repeatDevCounter := st.repeatDevCounter + 1 })
    | (false, _) => .error (.error message)

def linkSetUp (st : LinkState) (nodeId : Int) (name : DevName) : Except LinkFailure Unit :=
  if st.kernel.Taken (.node nodeId, name) then .ok ()
  else .error (.error "failed to LinkSetUp: no such device")

def setupInternalLink (nodeIdi nodeIdj : Int) (st : LinkState) : Except LinkFailure LinkState := do
  let bbns := st.curBackBoneNs
  let (_, st) ← addOrRepeat "failed to create bridge: file exists" (br bbns nodeIdi nodeIdj) st
  let (suffixi, st) ←
    addOrRepeat "failed to create veth: file exists" (vethOuti bbns nodeIdi nodeIdj) st
  let (suffixj, st) ←
    addOrRepeat "failed to create veth: file exists" (vethOutj bbns nodeIdi nodeIdj) st
  linkSetUp st nodeIdi (insideVethName nodeIdi nodeIdj ++ suffixi)
  linkSetUp st nodeIdj (insideVethName nodeIdj nodeIdi ++ suffixj)
  return st

-- The loop around `LinkAdd` for the VXLAN device, which is made in the host's namespace.
def addVxlan (name : DevName) (st : LinkState) : Except LinkFailure LinkState :=
  let vxlanOut : Device := ⟨.host, name, .vxlan⟩
  match st.kernel.linkAdd [vxlanOut] with
  | (true, kernel) => .ok { st with kernel }
  | (false, kernel) =>
    match kernel.linkAdd [vxlanOut] with
    | (true, kernel) => .ok { st with kernel }
    | (false, kernel) =>
      if kernel.devices .host name = some .vxlan then .ok { st with kernel } else .error .hangs

def linkSetNsFd (name : DevName) (st : LinkState) : Except LinkFailure LinkState :=
  if st.kernel.Taken (.backbone st.curBackBoneNs, name) then
    .error (.error "failed to link set nsfd: file exists")
  else .ok { st with
    kernel := (st.kernel.put (.host, name) none).put (.backbone st.curBackBoneNs, name)
      (some .vxlan) }

def addOnce (message : String) (wanted : List Device) (st : LinkState) :
    Except LinkFailure LinkState :=
  match st.kernel.linkAdd wanted with
  | (true, kernel) => .ok { st with kernel }
  | (false, _) => .error (.error message)

def setupExternalLink (nodeIdi nodeIdj : Int) (st : LinkState) : Except LinkFailure LinkState := do
  let bbns := st.curBackBoneNs
  let st ← addVxlan (vxlanName nodeIdi nodeIdj) st
  let st ← linkSetNsFd (vxlanName nodeIdi nodeIdj) st
  let st ← addOnce "failed to create bridge: file exists" (br bbns nodeIdi nodeIdj []) st
  let st ← addOnce "failed to create VethPeer in nodeiNetNs: file exists"
    (vethOuti bbns nodeIdi nodeIdj []) st
  linkSetUp st nodeIdi (insideVethName nodeIdi nodeIdj)
  return st

def setupLink (link : PlannedLink) (st : LinkState) : Except LinkFailure LinkState :=
  let (nodeIdi, nodeIdj, _, vxlanID) := link
  if vxlanID = -1 then setupInternalLink nodeIdi nodeIdj st
  else setupExternalLink nodeIdi nodeIdj st

def enterBbNs (bbnsIndex : Nat) (st : LinkState) : LinkState :=
  { st with curBackBoneNs := bbnsIndex }

end Source

namespace Kernel

variable {k : Kernel} {place : Namespace × DevName}

@[simp] theorem taken_put_some (other : Namespace × DevName) (kind : DeviceKind) :
    (k.put other (some kind)).Taken place ↔ place = other ∨ k.Taken place := by
  unfold put Taken
  dsimp only
  split
  next same => simp [Prod.ext same.1 same.2]
  next different =>
    have apart : place ≠ other := fun same => different (by simp [same])
    simp [apart]

@[simp] theorem taken_put_none (other : Namespace × DevName) :
    (k.put other none).Taken place ↔ place ≠ other ∧ k.Taken place := by
  unfold put Taken
  dsimp only
  split
  next same => simp [Prod.ext same.1 same.2]
  next different =>
    have apart : place ≠ other := fun same => different (by simp [same])
    simp [apart]

theorem taken_make (wanted : List Device) :
    (k.make wanted).Taken place ↔ place ∈ wanted.map Device.place ∨ k.Taken place := by
  unfold make
  induction wanted generalizing k with
  | nil => simp
  | cons d rest ih =>
    rw [List.foldl_cons, ih, taken_put_some, List.map_cons, List.mem_cons]
    tauto

@[simp] theorem rejections_put (kind : Option DeviceKind) :
    (k.put place kind).rejections = k.rejections := rfl

theorem rejections_make (wanted : List Device) : (k.make wanted).rejections = k.rejections := by
  unfold make
  induction wanted generalizing k with
  | nil => rfl
  | cons d rest ih => rw [List.foldl_cons, ih, rejections_put]

def Free (k : Kernel) (wanted : List Device) : Prop := ∀ d ∈ wanted, ¬ k.Taken d.place

theorem linkAdd_free {wanted : List Device} (free : k.Free wanted) :
    k.linkAdd wanted = (true, k.make wanted) := by
  have none : ¬ ∃ d ∈ wanted, k.Taken d.place := by
    intro ⟨d, member, taken⟩
    exact free d member taken
  simp only [linkAdd, if_neg none]

theorem linkAdd_taken {wanted : List Device} (taken : ¬ k.Free wanted) :
    k.linkAdd wanted = (false, { k with rejections := k.rejections + 1 }) := by
  have some_taken : ∃ d ∈ wanted, k.Taken d.place := by
    simpa [Free] using taken
  simp only [linkAdd, if_pos some_taken]

end Kernel

end SplitNN.Agent.NtlBr
