import SplitNN.Agent.DeviceNames
import SplitNN.Shared.Decimal

set_option autoImplicit false

namespace SplitNN.Agent.NtlBr

open Text Decimal

def setupInternalLinks (calls : List (Nat × Nat)) (st : LinkState) :
    Except LinkFailure LinkState :=
  calls.foldlM (fun st call => setupInternalLink call.1 call.2 st) st

def callPair (call : Nat × Nat) : Sym2 Nat := s(call.1, call.2)

/-- No called pair carries on the number of a repeated one in a way that a counter can spell. The
counter 0 is only ever put behind the name of a bridge. -/
def Unspelled (repeated called : Set (Sym2 Nat)) : Prop :=
  ∀ a b b' n, s(a, b) ∈ repeated → s(a, b') ∈ called → Extends b n b' → ¬ (0 < n ∨ a < b)

section Slots

-- The devices of a link without the counter in their names.
structure Slot where
  inside : Bool
  near : Nat
  far : Nat
  tail : DevName
  deriving DecidableEq

def counterSuffix : Option Nat → DevName
  | none => []
  | some counter => itoa counter

namespace Slot

def pair (slot : Slot) : Sym2 Nat := s(slot.near, slot.far)

def place (bbnsIndex : Nat) (slot : Slot) (suffix : Option Nat) : Namespace × DevName :=
  (if slot.inside then .node slot.near else .backbone bbnsIndex,
    dashed slot.near slot.far ++ slot.tail ++ counterSuffix suffix)

theorem place_name (bbnsIndex : Nat) (slot : Slot) (suffix : Option Nat) :
    (slot.place bbnsIndex suffix).2 =
      itoa slot.near ++ '-' :: (itoa slot.far ++ (slot.tail ++ counterSuffix suffix)) := by
  simp [place, dashed]

structure Proper (slot : Slot) : Prop where
  tail : Tail slot.tail
  ordered : slot.inside = false → slot.near < slot.far

def bridge (slot : Slot) : Slot := ⟨false, min slot.near slot.far, max slot.near slot.far, []⟩

end Slot

def bridgeSlot (i j : Nat) : Slot := ⟨false, min i j, max i j, []⟩

def brSlots (i j : Nat) : List Slot := [bridgeSlot i j]

def vethSlots (letter : Char) (i j : Nat) : List Slot :=
  [⟨false, min i j, max i j, ['-', letter]⟩, ⟨true, i, j, []⟩]

theorem brName_natCast (i j : Nat) : brName i j = dashed (min i j : Nat) (max i j : Nat) := by
  unfold brName
  split
  next less =>
    have bound : i < j := by exact_mod_cast less
    rw [Nat.min_eq_left bound.le, Nat.max_eq_right bound.le]
  next other =>
    have bound : j ≤ i := by exact_mod_cast not_lt.mp other
    rw [Nat.min_eq_right bound, Nat.max_eq_left bound]

variable (bbnsIndex i j : Nat) (suffix : Option Nat)

theorem br_slots : (br bbnsIndex i j (counterSuffix suffix)).map Device.place =
    (brSlots i j).map (Slot.place bbnsIndex · suffix) := by
  simp [br, brSlots, bridgeSlot, Device.place, Slot.place, brName_natCast]

theorem vethOuti_slots : (vethOuti bbnsIndex i j (counterSuffix suffix)).map Device.place =
    (vethSlots 'i' i j).map (Slot.place bbnsIndex · suffix) := by
  simp [vethOuti, vethSlots, Device.place, Slot.place, brName_natCast, vethNamei, insideVethName]

theorem vethOutj_slots : (vethOutj bbnsIndex i j (counterSuffix suffix)).map Device.place =
    (vethSlots 'j' j i).map (Slot.place bbnsIndex · suffix) := by
  simp [vethOutj, vethSlots, Device.place, Slot.place, brName_natCast, vethNamej, insideVethName,
    min_comm, max_comm]

end Slots

section Spelling

variable {repeated called : Set (Sym2 Nat)}

structure Fits (repeated called : Set (Sym2 Nat)) (slot : Slot) (suffix : Option Nat) : Prop where
  proper : slot.Proper
  called : slot.pair ∈ called
  repeated : ∀ counter, suffix = some counter →
    slot.pair ∈ repeated ∧ (0 < counter ∨ slot.near < slot.far)

theorem counterSuffix_injective {suffix suffix' : Option Nat}
    (same : counterSuffix suffix = counterSuffix suffix') : suffix = suffix' := by
  cases suffix with
  | none =>
    cases suffix' with
    | none => rfl
    | some counter => exact absurd same.symm (itoa_ne_nil counter)
  | some counter =>
    cases suffix' with
    | none => exact absurd same (itoa_ne_nil counter)
    | some counter' =>
      have digits : counter = counter' := toDigits_injective same
      rw [digits]

theorem dash_not_numbered (b : Nat) (suffix : Option Nat) :
    '-' ∉ itoa b ++ counterSuffix suffix := by
  rw [List.mem_append, not_or]
  refine ⟨sign_not_digit b, ?_⟩
  cases suffix with
  | none => simp [counterSuffix]
  | some counter => exact sign_not_digit counter

theorem numbered_injective (unspelled : Unspelled repeated called) {a b b' : Nat}
    {suffix suffix' : Option Nat} (known : s(a, b) ∈ called) (known' : s(a, b') ∈ called)
    (again : ∀ k, suffix = some k → s(a, b) ∈ repeated ∧ (0 < k ∨ a < b))
    (again' : ∀ k, suffix' = some k → s(a, b') ∈ repeated ∧ (0 < k ∨ a < b'))
    (same : itoa b ++ counterSuffix suffix = itoa b' ++ counterSuffix suffix') :
    b = b' ∧ suffix = suffix' := by
  cases suffix with
  | none =>
    cases suffix' with
    | none => exact ⟨toDigits_injective (by simpa [counterSuffix, itoa_natCast] using same), rfl⟩
    | some k' =>
      have ⟨twice, spells⟩ := again' k' rfl
      have extended : Extends b' k' b := by
        simpa [counterSuffix, itoa_natCast, Extends] using same
      exact absurd spells (unspelled a b' b k' twice known extended)
  | some k =>
    have ⟨twice, spells⟩ := again k rfl
    cases suffix' with
    | none =>
      have extended : Extends b k b' := by
        simpa [counterSuffix, itoa_natCast, Extends] using same.symm
      exact absurd spells (unspelled a b b' k twice known' extended)
    | some k' =>
      have ⟨twice', _⟩ := again' k' rfl
      simp only [counterSuffix, itoa_natCast] at same
      rcases append_eq_append same with ⟨number, counter⟩ | ⟨n, positive, extended⟩ |
        ⟨n, positive, extended⟩
      · exact ⟨number, by rw [counter]⟩
      · exact absurd (.inl positive) (unspelled a b b' n twice known' extended)
      · exact absurd (.inl positive) (unspelled a b' b n twice' known extended)

theorem place_injective (unspelled : Unspelled repeated called) {bbnsIndex : Nat}
    {slot slot' : Slot} {suffix suffix' : Option Nat} (fits : Fits repeated called slot suffix)
    (fits' : Fits repeated called slot' suffix')
    (same : slot.place bbnsIndex suffix = slot'.place bbnsIndex suffix') :
    slot = slot' ∧ suffix = suffix' := by
  obtain ⟨inside, a, b, tail⟩ := slot
  obtain ⟨inside', a', b', tail'⟩ := slot'
  have sameNs := congrArg Prod.fst same
  have sameName := congrArg Prod.snd same
  rw [Slot.place_name, Slot.place_name] at sameName
  dsimp only [Slot.place] at sameNs sameName
  have sameInside : inside = inside' := by
    cases inside <;> cases inside' <;> simp_all
  have ⟨front, rest⟩ := separated_append_inj (sign_not_digit a) (sign_not_digit a') sameName
  have near : a = a' := toDigits_injective front
  subst near sameInside
  have ⟨⟨known, _⟩, listed, again⟩ := fits
  have ⟨⟨known', _⟩, listed', again'⟩ := fits'
  dsimp only at known known'
  rcases known with plain | ⟨c, lettered⟩ <;> rcases known' with plain' | ⟨c', lettered'⟩
  · subst plain plain'
    have ⟨far, counter⟩ : b = b' ∧ suffix = suffix' :=
      numbered_injective unspelled listed listed' again again' rest
    exact ⟨by rw [far], counter⟩
  · subst plain lettered'
    have absent := dash_not_numbered b suffix
    exact absurd (by rw [List.nil_append] at rest; simp [rest]) absent
  · subst lettered plain'
    have absent := dash_not_numbered b' suffix'
    exact absurd (by rw [List.nil_append] at rest; simp [← rest]) absent
  · subst lettered lettered'
    have ⟨digits, more⟩ := separated_append_inj (sign_not_digit b) (sign_not_digit b') rest
    have far : b = b' := toDigits_injective digits
    have ⟨letter, counter⟩ : c = c' ∧ counterSuffix suffix = counterSuffix suffix' :=
      List.cons.inj more
    exact ⟨by rw [far, letter], counterSuffix_injective counter⟩

end Spelling

section Accounts

variable {repeated called : Set (Sym2 Nat)} {start st : LinkState}
  {used : Set (Slot × Option Nat)}

structure Accounts (repeated called : Set (Sym2 Nat)) (start : LinkState)
    (used : Set (Slot × Option Nat)) (st : LinkState) : Prop where
  sameNs : st.curBackBoneNs = start.curBackBoneNs
  taken : ∀ place, st.kernel.Taken place ↔ start.kernel.Taken place ∨
    ∃ slot suffix, (slot, suffix) ∈ used ∧ place = slot.place start.curBackBoneNs suffix
  fits : ∀ slot suffix, (slot, suffix) ∈ used → Fits repeated called slot suffix
  below : ∀ slot counter, (slot, some counter) ∈ used → counter < st.repeatDevCounter
  bridged : ∀ slot, (slot, none) ∈ used → (slot.bridge, none) ∈ used
  still : repeated = ∅ → st.repeatDevCounter = 0

theorem Unnumbered.slot_free {kernel : Kernel} (unnumbered : Unnumbered kernel) (bbnsIndex : Nat)
    (slot : Slot) (suffix : Option Nat) : ¬ kernel.Taken (slot.place bbnsIndex suffix) := by
  rw [Slot.place, List.append_assoc]
  exact unnumbered.free (Int.natCast_nonneg slot.near) _

theorem Accounts.mono {called' : Set (Sym2 Nat)}
    (accounts : Accounts repeated called start used st) (more : called ⊆ called') :
    Accounts repeated called' start used st :=
  { accounts with
    fits := fun slot suffix member =>
      have fits := accounts.fits slot suffix member
      ⟨fits.proper, more fits.called, fits.repeated⟩ }

theorem Accounts.not_taken (accounts : Accounts repeated called start used st)
    (unnumbered : Unnumbered start.kernel) (unspelled : Unspelled repeated called) {slot : Slot}
    {suffix : Option Nat} (fits : Fits repeated called slot suffix)
    (fresh : (slot, suffix) ∉ used) :
    ¬ st.kernel.Taken (slot.place start.curBackBoneNs suffix) := by
  intro taken
  rcases (accounts.taken _).mp taken with before | ⟨other, suffix', member, same⟩
  · exact unnumbered.slot_free _ slot suffix before
  · have ⟨sameSlot, sameSuffix⟩ :=
      place_injective unspelled fits (accounts.fits other suffix' member) same
    exact fresh (by rwa [sameSlot, sameSuffix])

theorem Accounts.add (accounts : Accounts repeated called start used st) {st' : LinkState}
    {slots : List Slot} {suffix : Option Nat}
    (sameNs : st'.curBackBoneNs = st.curBackBoneNs)
    (taken : ∀ place, st'.kernel.Taken place ↔
      place ∈ slots.map (Slot.place start.curBackBoneNs · suffix) ∨ st.kernel.Taken place)
    (fits : ∀ slot ∈ slots, Fits repeated called slot suffix)
    (counter : st.repeatDevCounter ≤ st'.repeatDevCounter)
    (below : ∀ k, suffix = some k → k < st'.repeatDevCounter)
    (bridged : ∀ slot ∈ slots, slot.bridge = slot ∨ (slot.bridge, none) ∈ used)
    (still : repeated = ∅ → st'.repeatDevCounter = 0) :
    Accounts repeated called start (used ∪ {u | u.1 ∈ slots ∧ u.2 = suffix}) st' := by
  constructor
  case sameNs => rw [sameNs, accounts.sameNs]
  case taken =>
    intro place
    rw [taken, accounts.taken]
    constructor
    · rintro (made | before | ⟨slot, other, member, same⟩)
      · have ⟨slot, member, same⟩ := List.mem_map.mp made
        exact .inr ⟨slot, suffix, .inr ⟨member, rfl⟩, same.symm⟩
      · exact .inl before
      · exact .inr ⟨slot, other, .inl member, same⟩
    · rintro (before | ⟨slot, other, member | ⟨member, sameSuffix⟩, same⟩)
      · exact .inr (.inl before)
      · exact .inr (.inr ⟨slot, other, member, same⟩)
      · subst sameSuffix
        exact .inl (List.mem_map.mpr ⟨slot, member, same.symm⟩)
  case fits =>
    rintro slot other (member | ⟨member, sameSuffix⟩)
    · exact accounts.fits slot other member
    · subst sameSuffix
      exact fits slot member
  case below =>
    rintro slot k (member | ⟨_, sameSuffix⟩)
    · exact (accounts.below slot k member).trans_le counter
    · exact below k sameSuffix.symm
  case bridged =>
    rintro slot (member | ⟨member, sameSuffix⟩)
    · exact .inl (accounts.bridged slot member)
    · rcases bridged slot member with itself | before
      · exact .inr ⟨by rwa [itself], sameSuffix⟩
      · exact .inl before
  case still => exact still

theorem addOrRepeat_again {message : String} {wanted : DevName → List Device}
    (taken : ¬ st.kernel.Free (wanted []))
    (free : st.kernel.Free (wanted (itoa st.repeatDevCounter))) :
    addOrRepeat message wanted st = .ok (itoa st.repeatDevCounter, { st with
      kernel := ({ st.kernel with rejections := st.kernel.rejections + 1 } : Kernel).make
        (wanted (itoa st.repeatDevCounter))
      repeatDevCounter := st.repeatDevCounter + 1 }) := by
  simp only [addOrRepeat, Kernel.linkAdd_taken taken]
  rw [Kernel.linkAdd_free (k := { st.kernel with rejections := st.kernel.rejections + 1 }) free]

theorem Accounts.attempt (accounts : Accounts repeated called start used st)
    (unnumbered : Unnumbered start.kernel) (unspelled : Unspelled repeated called)
    (message : String) {wanted : DevName → List Device} (slots : List Slot)
    (places : ∀ suffix, (wanted (counterSuffix suffix)).map Device.place =
      slots.map (Slot.place start.curBackBoneNs · suffix))
    (proper : ∀ slot ∈ slots, slot.Proper ∧ slot.pair ∈ called)
    (bridged : ∀ slot ∈ slots, slot.bridge = slot ∨ (slot.bridge, none) ∈ used)
    (again : ∀ slot ∈ slots, (slot, none) ∈ used → ∀ other ∈ slots,
      other.pair ∈ repeated ∧ (0 < st.repeatDevCounter ∨ other.near < other.far)) :
    ∃ suffix st', addOrRepeat message wanted st = .ok (counterSuffix suffix, st') ∧
      Accounts repeated called start (used ∪ {u | u.1 ∈ slots ∧ u.2 = suffix}) st' ∧
      st.repeatDevCounter ≤ st'.repeatDevCounter ∧
      (suffix = none ∧ (∀ slot ∈ slots, (slot, none) ∉ used) ∨
        (∃ slot ∈ slots, (slot, none) ∈ used) ∧ 0 < st'.repeatDevCounter) := by
  have find (suffix : Option Nat) {d : Device} (member : d ∈ wanted (counterSuffix suffix)) :
      ∃ slot ∈ slots, slot.place start.curBackBoneNs suffix = d.place := by
    have listed := List.mem_map_of_mem (f := Device.place) member
    rw [places] at listed
    simpa using listed
  have plain : ∀ slot ∈ slots, Fits repeated called slot none := fun slot member =>
    ⟨(proper slot member).1, (proper slot member).2, nofun⟩
  by_cases free : st.kernel.Free (wanted [])
  next =>
    refine ⟨none, _, addOrRepeat_free free, ?_, Nat.le_refl _, .inl ⟨rfl, ?_⟩⟩
    · exact accounts.add rfl (fun place => by rw [Kernel.taken_make]; exact places none ▸ Iff.rfl)
        plain (Nat.le_refl _) nofun bridged accounts.still
    · intro slot member used_plain
      have listed : slot.place start.curBackBoneNs none ∈ (wanted []).map Device.place := by
        rw [show wanted [] = wanted (counterSuffix none) from rfl, places]
        exact List.mem_map_of_mem (f := (Slot.place start.curBackBoneNs · none)) member
      obtain ⟨d, found, same⟩ := List.mem_map.mp listed
      apply free d found
      rw [same, accounts.taken]
      exact .inr ⟨slot, none, used_plain, rfl⟩
  next =>
    obtain ⟨d, found, taken⟩ : ∃ d ∈ wanted [], st.kernel.Taken d.place := by
      simpa [Kernel.Free] using free
    obtain ⟨slot, member, same⟩ := find none found
    have came_before : (slot, none) ∈ used := by
      by_contra fresh
      exact accounts.not_taken unnumbered unspelled (plain slot member) fresh (by rwa [same])
    have spelled := again slot member came_before
    have counted : ∀ other ∈ slots,
        Fits repeated called other (some st.repeatDevCounter) := by
      intro other listed
      refine ⟨(proper other listed).1, (proper other listed).2, fun k same => ?_⟩
      obtain rfl := Option.some.inj same
      exact spelled other listed
    have free' : st.kernel.Free (wanted (itoa st.repeatDevCounter)) := by
      intro d found
      obtain ⟨other, listed, same⟩ := find (some st.repeatDevCounter) found
      rw [← same]
      exact accounts.not_taken unnumbered unspelled (counted other listed)
        fun old => absurd (accounts.below other _ old) (Nat.lt_irrefl _)
    refine ⟨some st.repeatDevCounter, _, addOrRepeat_again free free', ?_, Nat.le_succ _,
      .inr ⟨⟨slot, member, came_before⟩, Nat.succ_pos _⟩⟩
    refine accounts.add rfl (fun place => ?_) counted (Nat.le_succ _)
      (fun k same => Nat.lt_succ_of_le (Option.some.inj same).ge) bridged fun none => ?_
    · rw [Kernel.taken_make]
      exact places (some st.repeatDevCounter) ▸ Iff.rfl
    · have again := (spelled slot member).1
      rw [none] at again
      exact absurd again (Set.notMem_empty _)

theorem pair_min_max {i j : Nat} : s(min i j, max i j) = s(i, j) := by
  rcases Nat.le_total i j with less | more
  · rw [Nat.min_eq_left less, Nat.max_eq_right less]
  · rw [Nat.min_eq_right more, Nat.max_eq_left more, Sym2.eq_swap]

theorem vethSlots_proper {letter : Char} {i j : Nat} (different : i ≠ j) {slot : Slot}
    (member : slot ∈ vethSlots letter i j) :
    slot.Proper ∧ slot.pair = s(i, j) ∧ slot.bridge = bridgeSlot i j := by
  simp only [vethSlots, List.mem_cons, List.not_mem_nil, or_false] at member
  rcases member with rfl | rfl
  · refine ⟨⟨.inr ⟨letter, rfl⟩, fun _ => ?_⟩, pair_min_max, by simp [Slot.bridge, bridgeSlot]⟩
    dsimp only
    omega
  · exact ⟨⟨.inl rfl, nofun⟩, rfl, rfl⟩

theorem brSlots_apart {letter : Char} {i j u v : Nat} {slot : Slot}
    (member : slot ∈ vethSlots letter u v) : slot ∉ brSlots i j := by
  simp only [vethSlots, List.mem_cons, List.not_mem_nil, or_false] at member
  rcases member with rfl | rfl <;> simp [brSlots, bridgeSlot]

theorem vethSlots_apart {i j : Nat} (different : i ≠ j) {slot : Slot}
    (member : slot ∈ vethSlots 'j' j i) : slot ∉ vethSlots 'i' i j := by
  simp only [vethSlots, List.mem_cons, List.not_mem_nil, or_false] at member
  rcases member with rfl | rfl <;> simp [vethSlots, different.symm]

theorem Accounts.brAttempt (accounts : Accounts repeated called start used st)
    (unnumbered : Unnumbered start.kernel) (unspelled : Unspelled repeated called) {i j : Nat}
    (different : i ≠ j) (here : s(i, j) ∈ called)
    (twice : (bridgeSlot i j, none) ∈ used → s(i, j) ∈ repeated) :
    ∃ suffix st', addOrRepeat "failed to create bridge: file exists"
        (br start.curBackBoneNs i j) st = .ok (counterSuffix suffix, st') ∧
      Accounts repeated called start (used ∪ {u | u.1 ∈ brSlots i j ∧ u.2 = suffix}) st' ∧
      (bridgeSlot i j, none) ∈ used ∪ {u | u.1 ∈ brSlots i j ∧ u.2 = suffix} ∧
      ∀ slot, slot.bridge = bridgeSlot i j → (slot, none) ∈ used →
        s(i, j) ∈ repeated ∧ 0 < st'.repeatDevCounter := by
  have ordered : min i j < max i j := by omega
  have only {slot : Slot} (member : slot ∈ brSlots i j) : slot = bridgeSlot i j :=
    List.mem_singleton.mp member
  have listed : bridgeSlot i j ∈ brSlots i j := List.mem_singleton.mpr rfl
  have pair : (bridgeSlot i j).pair = s(i, j) := pair_min_max
  have ⟨suffix, st', run, accounts', _, cases⟩ := accounts.attempt unnumbered unspelled
    "failed to create bridge: file exists" (brSlots i j) (br_slots _ i j)
    (fun slot member => by
      rw [only member, pair]
      exact ⟨⟨.inl rfl, fun _ => ordered⟩, here⟩)
    (fun slot member => by
      rw [only member]
      simp [Slot.bridge, bridgeSlot])
    (fun slot member before other listed => by
      rw [only listed, pair]
      rw [only member] at before
      exact ⟨twice before, .inr ordered⟩)
  refine ⟨suffix, st', run, accounts', ?_, fun slot own before => ?_⟩
  · rcases cases with ⟨plain, _⟩ | ⟨⟨slot, member, before⟩, _⟩
    · exact .inr ⟨listed, plain.symm⟩
    · rw [only member] at before
      exact .inl before
  · have rejected := accounts.bridged slot before
    rw [own] at rejected
    rcases cases with ⟨_, fresh⟩ | ⟨_, moved⟩
    · exact absurd rejected (fresh _ listed)
    · exact ⟨twice rejected, moved⟩

theorem Accounts.vethAttempt (accounts : Accounts repeated called start used st)
    (unnumbered : Unnumbered start.kernel) (unspelled : Unspelled repeated called) {i j : Nat}
    {letter : Char} {wanted : DevName → List Device}
    (places : ∀ suffix, (wanted (counterSuffix suffix)).map Device.place =
      (vethSlots letter i j).map (Slot.place start.curBackBoneNs · suffix))
    (different : i ≠ j) (here : s(i, j) ∈ called) (bridged : (bridgeSlot i j, none) ∈ used)
    (counted : ∀ slot ∈ vethSlots letter i j, (slot, none) ∈ used →
      s(i, j) ∈ repeated ∧ 0 < st.repeatDevCounter) :
    ∃ suffix st', addOrRepeat "failed to create veth: file exists" wanted st =
        .ok (counterSuffix suffix, st') ∧
      Accounts repeated called start
        (used ∪ {u | u.1 ∈ vethSlots letter i j ∧ u.2 = suffix}) st' ∧
      st.repeatDevCounter ≤ st'.repeatDevCounter := by
  have ⟨suffix, st', run, accounts', grows, _⟩ := accounts.attempt unnumbered unspelled
    "failed to create veth: file exists" (vethSlots letter i j) places
    (fun slot member => by
      have ⟨proper, pair, _⟩ := vethSlots_proper different member
      exact ⟨proper, by rwa [pair]⟩)
    (fun slot member => by
      rw [(vethSlots_proper different member).2.2]
      exact .inr bridged)
    (fun slot member before other listed => by
      have ⟨twice, moved⟩ := counted slot member before
      exact ⟨by rwa [(vethSlots_proper different listed).2.1], .inl moved⟩)
  exact ⟨suffix, st', run, accounts', grows⟩

theorem Accounts.call (accounts : Accounts repeated called start used st)
    (unnumbered : Unnumbered start.kernel) {i j : Nat} (different : i ≠ j)
    (unspelled : Unspelled repeated (insert s(i, j) called))
    (again : s(i, j) ∈ called → s(i, j) ∈ repeated) :
    ∃ used' st', setupInternalLink i j st = .ok st' ∧
      Accounts repeated (insert s(i, j) called) start used' st' := by
  have here : s(i, j) ∈ insert s(i, j) called := Set.mem_insert _ _
  have twice : (bridgeSlot i j, none) ∈ used → s(i, j) ∈ repeated := by
    intro before
    have known := (accounts.fits _ none before).called
    rw [Slot.pair, bridgeSlot, pair_min_max] at known
    exact again known
  have accounts := accounts.mono (Set.subset_insert s(i, j) called)
  have ⟨x₁, st₁, run₁, accounts₁, bridged, counted⟩ :=
    accounts.brAttempt unnumbered unspelled different here twice
  have ⟨x₂, st₂, run₂, accounts₂, grows⟩ := accounts₁.vethAttempt unnumbered unspelled
    (vethOuti_slots start.curBackBoneNs i j) different here bridged (by
      rintro slot member (before | ⟨new, _⟩)
      · exact counted slot (vethSlots_proper different member).2.2 before
      · exact absurd new (brSlots_apart member))
  have swapped : s(j, i) = s(i, j) := Sym2.eq_swap
  have sameBridge : bridgeSlot j i = bridgeSlot i j := by
    rw [bridgeSlot, bridgeSlot, Nat.min_comm, Nat.max_comm]
  have ⟨x₃, st₃, run₃, accounts₃, _⟩ := accounts₂.vethAttempt unnumbered unspelled
    (vethOutj_slots start.curBackBoneNs i j) different.symm (by rwa [swapped])
    (by rw [sameBridge]; exact .inl bridged) (by
      rw [swapped]
      rintro slot member ((before | ⟨new, _⟩) | ⟨new, _⟩)
      · have own := (vethSlots_proper different.symm member).2.2
        rw [sameBridge] at own
        have ⟨twice, moved⟩ := counted slot own before
        exact ⟨twice, moved.trans_le grows⟩
      · exact absurd new (brSlots_apart member)
      · exact absurd new (vethSlots_apart different member))
  have insidei : st₃.kernel.Taken (.node i, insideVethName i j ++ counterSuffix x₂) :=
    (accounts₃.taken _).mpr (.inr ⟨⟨true, i, j, []⟩, x₂, .inl (.inr ⟨by simp [vethSlots], rfl⟩),
      by simp [Slot.place, insideVethName]⟩)
  have insidej : st₃.kernel.Taken (.node j, insideVethName j i ++ counterSuffix x₃) :=
    (accounts₃.taken _).mpr (.inr ⟨⟨true, j, i, []⟩, x₃, .inr ⟨by simp [vethSlots], rfl⟩,
      by simp [Slot.place, insideVethName]⟩)
  refine ⟨_, st₃, ?_, accounts₃⟩
  simp only [setupInternalLink, accounts.sameNs, run₁, run₂, run₃, bind, Except.bind,
    linkSetUp_taken insidei, linkSetUp_taken insidej]
  rfl

end Accounts

section Runs

variable {repeated called : Set (Sym2 Nat)} {start : LinkState}

def calledPairs (calls : List (Nat × Nat)) : Set (Sym2 Nat) := {p | p ∈ calls.map callPair}

def repeatedPairs (calls : List (Nat × Nat)) : Set (Sym2 Nat) :=
  {p | 2 ≤ (calls.map callPair).count p}

theorem Unspelled.mono {called' : Set (Sym2 Nat)} (unspelled : Unspelled repeated called)
    (fewer : called' ⊆ called) : Unspelled repeated called' :=
  fun a b b' n twice member => unspelled a b b' n twice (fewer member)

theorem setupInternalLinks_concat (calls : List (Nat × Nat)) (call : Nat × Nat) (st : LinkState) :
    setupInternalLinks (calls ++ [call]) st =
      setupInternalLinks calls st >>= setupInternalLink call.1 call.2 := by
  simp [setupInternalLinks]

theorem accounts_start (repeated : Set (Sym2 Nat)) (still : start.repeatDevCounter = 0) :
    Accounts repeated ∅ start ∅ start := by
  constructor
  case sameNs => rfl
  case taken => simp
  case fits => nofun
  case below => nofun
  case bridged => nofun
  case still => exact fun _ => still

theorem setupInternalLinks_accounts (unnumbered : Unnumbered start.kernel)
    (still : start.repeatDevCounter = 0) (unspelled : Unspelled repeated called)
    {calls : List (Nat × Nat)} (different : ∀ call ∈ calls, call.1 ≠ call.2)
    (inside : calledPairs calls ⊆ called) (again : repeatedPairs calls ⊆ repeated) :
    ∃ used final, setupInternalLinks calls start = .ok final ∧
      Accounts repeated (calledPairs calls) start used final := by
  induction calls using List.reverseRecOn with
  | nil =>
    refine ⟨∅, start, rfl, ?_⟩
    simpa [calledPairs] using accounts_start repeated still
  | append_singleton calls call ih =>
    have before : calledPairs calls ⊆ calledPairs (calls ++ [call]) := by
      intro p member
      simp only [calledPairs, Set.mem_ofPred_eq, List.map_append, List.mem_append] at member ⊢
      exact .inl member
    have before' : repeatedPairs calls ⊆ repeatedPairs (calls ++ [call]) := by
      intro p member
      simp only [repeatedPairs, Set.mem_ofPred_eq, List.map_append, List.count_append] at member ⊢
      omega
    have ⟨used, st, run, accounts⟩ := ih (fun c member => different c (by simp [member]))
      (before.trans inside) (before'.trans again)
    have all : insert s(call.1, call.2) (calledPairs calls) = calledPairs (calls ++ [call]) := by
      ext p
      simp [calledPairs, callPair, or_comm]
    have second : s(call.1, call.2) ∈ calledPairs calls → s(call.1, call.2) ∈ repeated := by
      intro member
      apply again
      have some_call := List.count_pos_iff.mpr member
      simp only [repeatedPairs, Set.mem_ofPred_eq, List.map_append, List.count_append]
      simp only [List.map_cons, List.map_nil, callPair, List.count_singleton_self] at some_call ⊢
      omega
    have ⟨used', st', step, accounts'⟩ := accounts.call unnumbered (different call (by simp))
      (by rw [all]; exact unspelled.mono inside) second
    refine ⟨used', st', ?_, by rwa [all] at accounts'⟩
    rw [setupInternalLinks_concat, run]
    exact step

end Runs

section Clashes

variable {st st' : LinkState}

def Grows (st st' : LinkState) : Prop :=
  st'.curBackBoneNs = st.curBackBoneNs ∧
    ∀ place, st.kernel.Taken place → st'.kernel.Taken place

theorem Grows.trans {st'' : LinkState} (first : Grows st st') (second : Grows st' st'') :
    Grows st st'' :=
  ⟨second.1.trans first.1, fun place taken => second.2 place (first.2 place taken)⟩

theorem Grows.not_free (grows : Grows st st') {wanted : List Device}
    (taken : ¬ st.kernel.Free wanted) : ¬ st'.kernel.Free wanted :=
  fun free => taken fun d member before => free d member (grows.2 _ before)

theorem addOrRepeat_ok {message : String} {wanted : DevName → List Device} {suffix : DevName}
    (nonempty : wanted [] ≠ []) (run : addOrRepeat message wanted st = .ok (suffix, st')) :
    Grows st st' ∧ ¬ st'.kernel.Free (wanted []) ∧
    (¬ st.kernel.Free (wanted []) → st'.repeatDevCounter = st.repeatDevCounter + 1 ∧
      st.kernel.Free (wanted (itoa st.repeatDevCounter)) ∧
      ∀ d ∈ wanted (itoa st.repeatDevCounter), st'.kernel.Taken d.place) := by
  by_cases free : st.kernel.Free (wanted [])
  next =>
    rw [addOrRepeat_free free] at run
    obtain ⟨rfl, rfl⟩ := Prod.mk.inj (Except.ok.inj run)
    refine ⟨⟨rfl, fun place taken => (Kernel.taken_make _).mpr (.inr taken)⟩, fun still => ?_,
      fun taken => absurd free taken⟩
    obtain ⟨d, rest, shape⟩ := List.exists_cons_of_ne_nil nonempty
    have member : d ∈ wanted [] := by simp [shape]
    exact still d member ((Kernel.taken_make _).mpr (.inl (List.mem_map_of_mem member)))
  next =>
    by_cases free' : st.kernel.Free (wanted (itoa st.repeatDevCounter))
    next =>
      rw [addOrRepeat_again free free'] at run
      obtain ⟨rfl, rfl⟩ := Prod.mk.inj (Except.ok.inj run)
      have grows : Grows st { st with
          kernel := ({ st.kernel with rejections := st.kernel.rejections + 1 } : Kernel).make
            (wanted (itoa st.repeatDevCounter))
          repeatDevCounter := st.repeatDevCounter + 1 } :=
        ⟨rfl, fun place before => (Kernel.taken_make _).mpr (.inr before)⟩
      exact ⟨grows, grows.not_free free, fun _ => ⟨rfl, free', fun d member =>
        (Kernel.taken_make _).mpr (.inl (List.mem_map_of_mem member))⟩⟩
    next =>
      simp only [addOrRepeat, Kernel.linkAdd_taken free] at run
      rw [Kernel.linkAdd_taken (k := { st.kernel with rejections := st.kernel.rejections + 1 })
        free'] at run
      cases run

structure Stale (st : LinkState) (i j : Nat) : Prop where
  br : ¬ st.kernel.Free (br st.curBackBoneNs i j [])
  vethOuti : ¬ st.kernel.Free (vethOuti st.curBackBoneNs i j [])
  vethOutj : ¬ st.kernel.Free (vethOutj st.curBackBoneNs i j [])

theorem Grows.stale (grows : Grows st st') {i j : Nat} (stale : Stale st i j) : Stale st' i j :=
  ⟨by rw [grows.1]; exact grows.not_free stale.br,
    by rw [grows.1]; exact grows.not_free stale.vethOuti,
    by rw [grows.1]; exact grows.not_free stale.vethOutj⟩

theorem setupInternalLink_ok {i j : Nat} (run : setupInternalLink i j st = .ok st') :
    Grows st st' ∧ Stale st' i j ∧
    (Stale st i j → st'.repeatDevCounter = st.repeatDevCounter + 3 ∧
      st.kernel.Free (br st.curBackBoneNs i j (itoa st.repeatDevCounter)) ∧
      st.kernel.Free (vethOuti st.curBackBoneNs i j (itoa (st.repeatDevCounter + 1 : Nat))) ∧
      st.kernel.Free (vethOutj st.curBackBoneNs i j (itoa (st.repeatDevCounter + 2 : Nat))) ∧
      (∀ d ∈ vethOuti st.curBackBoneNs i j (itoa (st.repeatDevCounter + 1 : Nat)),
        st'.kernel.Taken d.place) ∧
      ∀ d ∈ vethOutj st.curBackBoneNs i j (itoa (st.repeatDevCounter + 2 : Nat)),
        st'.kernel.Taken d.place) := by
  obtain ⟨⟨suffix₁, st₁⟩, run₁, run⟩ := Monadic.bind_eq_ok.mp run
  obtain ⟨⟨suffix₂, st₂⟩, run₂, run⟩ := Monadic.bind_eq_ok.mp run
  obtain ⟨⟨suffix₃, st₃⟩, run₃, run⟩ := Monadic.bind_eq_ok.mp run
  obtain ⟨_, _, run⟩ := Monadic.bind_eq_ok.mp run
  obtain ⟨_, _, run⟩ := Monadic.bind_eq_ok.mp run
  obtain rfl := Except.ok.inj run
  obtain ⟨grows₁, gone₁, again₁⟩ := addOrRepeat_ok (by simp [br]) run₁
  obtain ⟨grows₂, gone₂, again₂⟩ := addOrRepeat_ok (by simp [vethOuti]) run₂
  obtain ⟨grows₃, gone₃, again₃⟩ := addOrRepeat_ok (by simp [vethOutj]) run₃
  have grows := grows₁.trans (grows₂.trans grows₃)
  refine ⟨grows, ?_, fun stale => ?_⟩
  · constructor <;> rw [grows.1]
    · exact (grows₂.trans grows₃).not_free gone₁
    · exact grows₃.not_free gone₂
    · exact gone₃
  · obtain ⟨count₁, free₁, _⟩ := again₁ stale.br
    obtain ⟨count₂, free₂, made₂⟩ := again₂ (grows₁.not_free stale.vethOuti)
    obtain ⟨count₃, free₃, made₃⟩ := again₃ ((grows₁.trans grows₂).not_free stale.vethOutj)
    rw [count₁] at count₂ free₂ made₂
    rw [count₂] at count₃ free₃ made₃
    have back {later : LinkState} (grown : Grows st later) {wanted : List Device}
        (free : later.kernel.Free wanted) : st.kernel.Free wanted :=
      fun d member taken => free d member (grown.2 _ taken)
    exact ⟨count₃, free₁, back grows₁ free₂, back (grows₁.trans grows₂) free₃,
      fun d member => grows₃.2 _ (made₂ d member), made₃⟩

def Robust (pairs : Set (Sym2 Nat)) (st : LinkState) : Prop :=
  ∀ calls, calledPairs calls ⊆ pairs → ∃ final, setupInternalLinks calls st = .ok final

variable {pairs : Set (Sym2 Nat)}

theorem Robust.call (robust : Robust pairs st) {i j : Nat} (member : s(i, j) ∈ pairs) :
    ∃ st', setupInternalLink i j st = .ok st' ∧ Robust pairs st' := by
  have all {calls : List (Nat × Nat)} (inside : calledPairs calls ⊆ pairs) :
      ∃ st' final, setupInternalLink i j st = .ok st' ∧
        setupInternalLinks calls st' = .ok final := by
    have ⟨final, run⟩ := robust ((i, j) :: calls) (by
      intro p listed
      rcases List.mem_cons.mp listed with rfl | later
      · exact member
      · exact inside later)
    have ⟨st', first, rest⟩ := Monadic.bind_eq_ok.mp run
    exact ⟨st', final, first, rest⟩
  have ⟨st', _, run, _⟩ := @all [] nofun
  refine ⟨st', run, fun calls inside => ?_⟩
  have ⟨other, final, same, rest⟩ := all inside
  obtain rfl : st' = other := Except.ok.inj (run.symm.trans same)
  exact ⟨final, rest⟩

theorem Robust.stale (robust : Robust pairs st) {a b : Nat} (member : s(a, b) ∈ pairs) :
    ∃ st', Robust pairs st' ∧ Grows st st' ∧ Stale st' a b ∧ Stale st' b a := by
  have ⟨st₁, run₁, robust₁⟩ := robust.call member
  have ⟨st₂, run₂, robust₂⟩ := robust₁.call (Sym2.eq_swap ▸ member : s(b, a) ∈ pairs)
  have ⟨grows₁, stale₁, _⟩ := setupInternalLink_ok run₁
  have ⟨grows₂, stale₂, _⟩ := setupInternalLink_ok run₂
  exact ⟨st₂, robust₂, grows₁.trans grows₂, grows₂.stale stale₁, stale₂⟩

theorem Robust.numbered (robust : Robust pairs st) {a b : Nat} (member : s(a, b) ∈ pairs)
    (stale : Stale st a b ∧ Stale st b a) {turn : Nat} (known : turn = 1 ∨ turn = 2) :
    ∃ st', Robust pairs st' ∧ Grows st st' ∧
      st'.repeatDevCounter = st.repeatDevCounter + 3 ∧
      ¬ st.kernel.Taken (.node a, dashed a b ++ itoa (st.repeatDevCounter + turn : Nat)) ∧
      st'.kernel.Taken (.node a, dashed a b ++ itoa (st.repeatDevCounter + turn : Nat)) := by
  let numbered : Device :=
    ⟨.node a, dashed a b ++ itoa (st.repeatDevCounter + turn : Nat), .veth⟩
  rcases known with rfl | rfl
  · have ⟨st', run, robust'⟩ := robust.call member
    have ⟨grows, _, again⟩ := setupInternalLink_ok run
    have ⟨counter, _, free, _, made, _⟩ := again stale.1
    have listed :
        numbered ∈ vethOuti st.curBackBoneNs a b (itoa (st.repeatDevCounter + 1 : Nat)) :=
      List.mem_cons_of_mem _ (List.mem_singleton.mpr rfl)
    exact ⟨st', robust', grows, counter, free numbered listed, made numbered listed⟩
  · have ⟨st', run, robust'⟩ := robust.call (Sym2.eq_swap ▸ member : s(b, a) ∈ pairs)
    have ⟨grows, _, again⟩ := setupInternalLink_ok run
    have ⟨counter, _, _, free, _, made⟩ := again stale.2
    have listed :
        numbered ∈ vethOutj st.curBackBoneNs b a (itoa (st.repeatDevCounter + 2 : Nat)) :=
      List.mem_cons_of_mem _ (List.mem_singleton.mpr rfl)
    exact ⟨st', robust', grows, counter, free numbered listed, made numbered listed⟩

theorem Robust.repeats (robust : Robust pairs st) {a b : Nat} (member : s(a, b) ∈ pairs)
    (stale : Stale st a b) (times : Nat) : ∃ st', Robust pairs st' ∧ Grows st st' ∧
      st'.repeatDevCounter = st.repeatDevCounter + 3 * times := by
  induction times with
  | zero => exact ⟨st, robust, ⟨rfl, fun _ taken => taken⟩, rfl⟩
  | succ times ih =>
    have ⟨st₁, robust₁, grows₁, counter₁⟩ := ih
    have ⟨st₂, run, robust₂⟩ := robust₁.call member
    have ⟨grows₂, _, again⟩ := setupInternalLink_ok run
    have ⟨counter₂, _⟩ := again (grows₁.stale stale)
    exact ⟨st₂, robust₂, grows₁.trans grows₂, by omega⟩

theorem counters_meet {n : Nat} (positive : 0 < n) (counter : Nat) :
    ∃ turn turn', (turn = 1 ∨ turn = 2) ∧ (turn' = 1 ∨ turn' = 2) ∧ ∀ length, 0 < length →
      ∃ times, counter + 3 + 3 * times + turn = n * 10 ^ length + (counter + turn') := by
  have power {length : Nat} (some_digit : 0 < length) :
      ∃ q, 3 ≤ q ∧ n * 10 ^ length = 3 * (n * q) + n := by
    have least : 10 ^ 1 ≤ 10 ^ length := Nat.pow_le_pow_right (by decide) some_digit
    have rest : 10 ^ length % 3 = 1 := by simp [Nat.pow_mod]
    refine ⟨10 ^ length / 3, by omega, ?_⟩
    have whole : 10 ^ length = 3 * (10 ^ length / 3) + 1 := by omega
    conv_lhs => rw [whole]
    ring
  have cases : n % 3 = 0 ∨ n % 3 = 1 ∨ n % 3 = 2 := by omega
  rcases cases with none | one | two
  · refine ⟨1, 1, .inl rfl, .inl rfl, fun length some_digit => ?_⟩
    have ⟨q, large, product⟩ := power some_digit
    have more : q ≤ n * q := Nat.le_mul_of_pos_left q positive
    exact ⟨n * q - 1 + n / 3, by omega⟩
  · refine ⟨2, 1, .inr rfl, .inl rfl, fun length some_digit => ?_⟩
    have ⟨q, large, product⟩ := power some_digit
    have more : q ≤ n * q := Nat.le_mul_of_pos_left q positive
    exact ⟨n * q - 1 + n / 3, by omega⟩
  · refine ⟨1, 2, .inl rfl, .inr rfl, fun length some_digit => ?_⟩
    have ⟨q, large, product⟩ := power some_digit
    have more : q ≤ n * q := Nat.le_mul_of_pos_left q positive
    exact ⟨n * q + n / 3, by omega⟩

theorem Robust.not_extends (robust : Robust pairs st) {a b b' n : Nat}
    (member : s(a, b) ∈ pairs) (member' : s(a, b') ∈ pairs) (positive : 0 < n) :
    ¬ Extends b n b' := by
  intro extended
  have ⟨st₁, robust₁, _, stale₁⟩ := robust.stale member
  have ⟨st₂, robust₂, grows₂, stale₂⟩ := robust₁.stale member'
  have ⟨turn, turn', known, known', meet⟩ := counters_meet positive st₂.repeatDevCounter
  have some_digit : 0 < (Nat.toDigits 10 (st₂.repeatDevCounter + turn')).length :=
    List.length_pos_iff.mpr Nat.toDigits_ne_nil
  have ⟨times, meets⟩ := meet _ some_digit
  have ⟨st₃, robust₃, grows₃, counter₃, _, taken⟩ := robust₂.numbered member' stale₂ known'
  have grown := grows₂.trans grows₃
  have ⟨st₄, robust₄, grows₄, counter₄⟩ :=
    robust₃.repeats member (grown.stale stale₁.1) times
  have grown := grown.trans grows₄
  have ⟨_, _, _, _, free, _⟩ := robust₄.numbered member
    ⟨grown.stale stale₁.1, grown.stale stale₁.2⟩ known
  -- The counter behind the shorter number now spells the longer one and its counter.
  have spelled : dashed a b ++ itoa (st₄.repeatDevCounter + turn : Nat) =
      dashed a b' ++ itoa (st₂.repeatDevCounter + turn' : Nat) := by
    rw [dashed_append, dashed_append, counter₄, counter₃, meets]
    simp only [itoa_natCast]
    rw [← toDigits_append positive, ← List.append_assoc, ← extended]
  rw [spelled] at free
  exact free (grows₄.2 _ taken)

theorem Robust.not_extends_zero (robust : Robust pairs st) (unnumbered : Unnumbered st.kernel)
    (still : st.repeatDevCounter = 0) {a b b' : Nat} (member : s(a, b) ∈ pairs)
    (member' : s(a, b') ∈ pairs) (ordered : a < b) : ¬ Extends b 0 b' := by
  intro extended
  have longer := extended.le (by omega)
  have ⟨st₁, run₁, robust₁⟩ := robust.call member'
  have ⟨st₂, run₂, robust₂⟩ := robust₁.call member
  have ⟨st₃, run₃, _⟩ := robust₂.call member
  have ⟨_, stale₁, _⟩ := setupInternalLink_ok run₁
  have ⟨grows₂, stale₂, _⟩ := setupInternalLink_ok run₂
  have ⟨_, _, again⟩ := setupInternalLink_ok run₃
  have ⟨_, free, _⟩ := again stale₂
  have once : repeatedPairs [(a, b'), (a, b)] ⊆ ∅ := by
    intro p twice
    have distinct : ([(a, b'), (a, b)].map callPair).Nodup := by
      have apart : s(a, b') ≠ s(a, b) := fun same => extended.ne (Sym2.congr_right.mp same).symm
      simpa [callPair] using apart
    have most := List.nodup_iff_count_le_one.mp distinct p
    simp only [repeatedPairs, Set.mem_ofPred_eq] at twice
    omega
  have ⟨_, final, run, accounts⟩ := setupInternalLinks_accounts unnumbered still
    (fun _ _ _ _ twice => absurd twice (Set.notMem_empty _)) (by simp; omega)
    (Set.subset_univ _) once
  have same : setupInternalLinks [(a, b'), (a, b)] st = .ok st₂ :=
    Monadic.bind_eq_ok.mpr ⟨st₁, run₁, Monadic.bind_eq_ok.mpr ⟨st₂, run₂, rfl⟩⟩
  obtain rfl := Except.ok.inj (run.symm.trans same)
  have spelled : brName a b' ++ [] = brName a b ++ itoa (0 : Nat) := by
    rw [brName_natCast, brName_natCast, Nat.min_eq_left ordered.le, Nat.max_eq_right ordered.le,
      Nat.min_eq_left (ordered.le.trans longer), Nat.max_eq_right (ordered.le.trans longer),
      dashed_append, dashed_append, List.append_nil]
    simp only [itoa_natCast]
    rw [extended]
  rw [accounts.still rfl, grows₂.1] at free
  apply stale₁.br
  intro d listed taken
  obtain rfl := List.mem_singleton.mp listed
  rw [Device.place, spelled] at taken
  exact free _ (List.mem_singleton.mpr rfl) (grows₂.2 _ taken)

/-- Every sequence of calls succeeds if no repeated pair can be spelled on to a called one, and
on a set of pairs where one can, some sequence fails. -/
theorem setupInternalLinks_succeed_iff {start : LinkState} (unnumbered : Unnumbered start.kernel)
    (still : start.repeatDevCounter = 0) :
    (∀ calls : List (Nat × Nat), (∀ call ∈ calls, call.1 ≠ call.2) →
      Unspelled (repeatedPairs calls) (calledPairs calls) →
      ∃ final, setupInternalLinks calls start = .ok final) ∧
    ∀ pairs : Set (Sym2 Nat), (∀ p ∈ pairs, ¬ p.IsDiag) →
      ((∀ calls, calledPairs calls ⊆ pairs →
        ∃ final, setupInternalLinks calls start = .ok final) ↔ Unspelled pairs pairs) := by
  refine ⟨fun calls different unspelled => ?_, fun pairs different => ⟨fun robust => ?_, ?_⟩⟩
  · have ⟨_, final, run, _⟩ := setupInternalLinks_accounts unnumbered still unspelled different
      (Set.Subset.refl _) (Set.Subset.refl _)
    exact ⟨final, run⟩
  · intro a b b' n member member' extended spells
    rcases Nat.eq_zero_or_pos n with rfl | positive
    · have ordered : a < b := spells.resolve_left (Nat.lt_irrefl 0)
      exact Robust.not_extends_zero robust unnumbered still member member' ordered extended
    · exact Robust.not_extends robust member member' positive extended
  · intro unspelled calls inside
    have apart : ∀ call ∈ calls, call.1 ≠ call.2 := fun call member =>
      different _ (inside (List.mem_map_of_mem member))
    have again : repeatedPairs calls ⊆ pairs := fun p twice =>
      inside (List.count_pos_iff.mp (Nat.lt_of_lt_of_le Nat.two_pos twice))
    have ⟨_, final, run, _⟩ :=
      setupInternalLinks_accounts unnumbered still unspelled apart inside again
    exact ⟨final, run⟩

-- The bridge of the first link is called what the counter makes of the second link's.
theorem setupInternalLinks_clash : setupInternalLinks [(1, 20), (1, 2), (1, 2)] idle =
    .error (.error "failed to create bridge: file exists") := by
  rfl

theorem setupInternalLinks_succeed_iff_idle :
    (∃ final, setupInternalLinks [(1, 2), (3, 2), (2, 1), (1, 2)] idle = .ok final) ∧
    ¬ ∀ calls, calledPairs calls ⊆ {s(1, 2), s(1, 20)} →
      ∃ final, setupInternalLinks calls idle = .ok final := by
  have ⟨succeed, exact_pairs⟩ := setupInternalLinks_succeed_iff unnumbered_idle rfl
  constructor
  · apply succeed _ (by decide)
    intro a b b' n _ member extended
    have small : b' < 10 := by
      simp [calledPairs, callPair] at member
      omega
    exact absurd extended.large (by omega)
  · rw [exact_pairs _ (by simp)]
    intro unspelled
    exact unspelled 1 2 20 0 (by simp) (by simp) (by decide) (.inr (by decide))

end Clashes

end SplitNN.Agent.NtlBr
