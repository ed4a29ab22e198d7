import Nas.Allocation
import Nas.Fields
import Nas.Reply

/-!
# Matching attributes

`AuMatchAttributes` of `auutil.c`, by which `ListDevices` and `ListBuckets` choose. The attributes are bytes of a
request, `p` is where its variable part starts, and a read outside of the request is a fault. A component keeps what
the hardware says of its gain and line mode, and says it again whenever these are compared or listed (`refresh`).

Descriptions are compared by `strncmp`, which takes a common NUL for the end of both, and children are looked for
behind what the request is checked to have. `matching_exact_iff` says when a listing is right nevertheless.
-/

namespace Nas.Matching

/-- What components say of themselves, and what there is to compare. -/
structure ComponentRec where
  valueMask : Nat
  changableMask : Nat
  id : Nat
  kind : Nat
  use : Nat
  access : Nat
  format : Nat
  numTracks : Nat
  descriptionType : Nat
  /-- `description.string`, all of it. -/
  description : List UInt8
  minSampleRate : Nat := 0
  maxSampleRate : Nat := 0
  location : Nat := 0
  gain : Nat := 0
  lineMode : Nat := 0
  children : List UInt32 := []
  sampleRate : Nat := 0
  numSamples : Nat := 0
  destroyed : Bool := false
deriving DecidableEq, Repr

/-- What `AuGetInputGain` and the like put into a component. -/
structure Hardware where
  inputGain : Nat
  inputMode : Nat
  outputGain : Nat
  outputMode : Nat
  feedbackGain : Nat
deriving DecidableEq, Repr

/-- A request behind its `auReq`: the attributes and the variable part. `order` is the server's. -/
structure Request where
  order : ByteOrder
  body : List UInt8
deriving DecidableEq, Repr

/-! ### `AuMatchAttributes` -/

/-- The component that is compared, and the next byte of the variable part. -/
structure Comparing where
  c : ComponentRec
  varData : Nat
deriving DecidableEq, Repr

/-- One case of the `switch`: whether to go on. -/
abbrev Test := Comparing → Exec (Bool × Comparing)

/-- The loop over a mask, with the cases for its bits from the lowest on. -/
def testBits : List Test → Nat → Test
  | [], _, s => .ok (true, s)
  | t :: ts, mask, s =>
    if mask % 2 = 1 then do
      let (same, s) ← t s
      if same then testBits ts (mask / 2) s else .ok (false, s)
    else testBits ts (mask / 2) s

section
variable (r : Request) (hw : Hardware)

/-- `COMPARE_COMMON` and the like, for an attribute of `w` bytes at `p`. -/
def compare (field : ComponentRec → Nat) (w p : Nat) : Test := fun s => do
  let x ← r.order.load w r.body p
  .ok (decide (field s.c = x), s)

/-- `COMPARE_COMMON_MASK` -/
def compareMask (field : ComponentRec → Nat) (w p : Nat) : Test := fun s => do
  let x ← r.order.load w r.body p
  .ok (decide (field s.c &&& x ≠ 0), s)

/-- `strncmp`, whether it is zero. -/
def strncmp : Nat → List UInt8 → List UInt8 → Exec Bool
  | 0, _, _ => .ok true
  | n + 1, b :: s, b' :: s' => if b ≠ b' then .ok false else if b = 0 then .ok true else strncmp n s s'
  | _ + 1, _, _ => .error .fault

def compareDescription : Test := fun s => do
  let type ← r.order.load 1 r.body 20
  if s.c.descriptionType ≠ type then .ok (false, s)
  else
    let len ← r.order.load 4 r.body 24
    if s.c.description.length ≠ len then .ok (false, s)
    else
      let same ← strncmp len s.c.description (r.body.drop s.varData)
      .ok (same, if same then { s with varData := s.varData + pad4u len } else s)

/-- The component's ids as they are in memory. -/
def ComponentRec.childBytes (o : ByteOrder) (c : ComponentRec) : List UInt8 :=
  c.children.flatMap fun id => o.encode sizeofAuDeviceID id.toNat

def compareChildren : Test := fun s => do
  let n ← r.order.load 1 r.body 41
  if s.c.children.length ≠ n then .ok (false, s)
  else
    let ids ← Memory.load (s.c.childBytes r.order) 0 (n * sizeofAuDeviceID)
    let ids' ← Memory.load r.body s.varData (n * sizeofAuDeviceID)
    .ok (decide (ids = ids'), if ids = ids' then { s with varData := s.varData + n * sizeofAuDeviceID } else s)

def ComponentRec.refreshGain (c : ComponentRec) : ComponentRec :=
  if c.kind = auComponentKindPhysicalInput then { c with gain := hw.inputGain }
  else if c.kind = auComponentKindPhysicalOutput then { c with gain := hw.outputGain, lineMode := hw.outputMode }
  else if c.kind = auComponentKindPhysicalFeedback then { c with gain := hw.feedbackGain }
  else c

def ComponentRec.refreshLineMode (c : ComponentRec) : ComponentRec :=
  if c.kind = auComponentKindPhysicalInput then { c with lineMode := hw.inputMode }
  else if c.kind = auComponentKindPhysicalOutput then { c with gain := hw.outputGain, lineMode := hw.outputMode }
  else c

def compareGain : Test := fun s => compare r (·.gain) 4 32 { s with c := s.c.refreshGain hw }

def compareLineMode : Test := fun s => compare r (·.lineMode) 1 40 { s with c := s.c.refreshLineMode hw }

def commonTests : List Test :=
  [compare r (·.id) 4 8, compare r (·.kind) 1 12, compareMask r (·.use) 1 13, compare r (·.format) 1 14,
    compare r (·.numTracks) 1 15, compareMask r (·.access) 4 16, compareDescription r]

def deviceTests : List Test :=
  [compare r (·.minSampleRate) 2 36, compare r (·.maxSampleRate) 2 38, compareMask r (·.location) 4 28,
    compareGain r hw, compareLineMode r hw, compareChildren r]

def bucketTests : List Test := [compare r (·.sampleRate) 2 28, compare r (·.numSamples) 4 32]

def ComponentRec.IsDevice (c : ComponentRec) : Prop :=
  c.kind = auComponentKindPhysicalInput ∨ c.kind = auComponentKindPhysicalOutput ∨
    c.kind = auComponentKindPhysicalFeedback

instance (c : ComponentRec) : Decidable c.IsDevice := inferInstanceAs (Decidable (_ ∨ _))

/-- The cases for the bits of a mask from 2^16 on. -/
def kindTests (c : ComponentRec) : List Test :=
  if c.IsDevice then deviceTests r hw else if c.kind = auComponentKindBucket then bucketTests r else []

/-- `AuMatchAttributes`. Its component may have been refreshed. -/
def auMatchAttributes (c : ComponentRec) (varData : Nat) : Exec (Bool × ComponentRec) := do
  let mask ← r.order.load 4 r.body 0
  let (same, s) ← testBits (commonTests r) mask ⟨c, varData⟩
  if same then
    let (same, s) ← testBits (kindTests r hw s.c) (mask / 2 ^ 16) s
    .ok (same, s.c)
  else .ok (false, s.c)

/-! ### The lists -/

/-- A component with its `list`. -/
structure Listed where
  c : ComponentRec
  list : Bool
deriving DecidableEq, Repr

/-- What is written out for a request. -/
structure Listing where
  num : Nat
  length : Nat
  written : List ComponentRec
deriving DecidableEq, Repr

/-- What becomes `c->list`. -/
def selects (visible : ComponentRec → Bool) (varData : Nat) (c : ComponentRec) : Exec (Bool × ComponentRec) :=
  if visible c then auMatchAttributes r hw c varData else .ok (false, c)

/-- The first pass over the components, which counts them and adds up their variable parts. -/
def countPass (visible : ComponentRec → Bool) (varLen : ComponentRec → Nat) (varData : Nat) :
    List ComponentRec → Exec (List Listed × Nat × Nat)
  | [] => .ok ([], 0, 0)
  | c :: cs => do
    let (list, c) ← selects r hw visible varData c
    let (listed, n, len) ← countPass visible varLen varData cs
    .ok (⟨c, list⟩ :: listed, if list then n + 1 else n, if list then varLen c + len else len)

/-- `ProcAuListDevices` and `ProcAuListBuckets`, whose attributes are `size` bytes. -/
def procAuList (size : Nat) (visible : ComponentRec → Bool) (varLen : ComponentRec → Nat)
    (refresh : ComponentRec → ComponentRec) (cs : List ComponentRec) : Exec (Except AuStatus Listing) := do
  if r.body.length < size then .ok (.error .auBadLength)
  else
    let mask ← r.order.load 4 r.body 0
    let len ← r.order.load 4 r.body 24
    if mask.testBit 6 ∧ r.body.length - size ≠ pad4u len then .ok (.error .auBadLength)
    else
      let (listed, num, varLen) ← countPass r hw visible varLen size cs
      .ok (.ok {
        num
        length := replyLength (size * num) varLen
        written := (listed.filter (·.list)).map fun x => refresh x.c })

/-- The hardware's gain and line mode, of what has them. -/
def ComponentRec.refresh (c : ComponentRec) : ComponentRec := (c.refreshGain hw).refreshLineMode hw

def procAuListDevices (cs : List ComponentRec) : Exec (Except AuStatus Listing) :=
  procAuList r hw sizeofAuDeviceAttributes (fun _ => true)
    (fun c => pad4 c.description.length + c.children.length * sizeofAuDeviceID) (·.refresh hw) cs

/-- A bucket that the client may see. -/
def ComponentRec.visibleTo (client : Nat) (c : ComponentRec) : Bool :=
  !c.destroyed && (clientId c.id == client || c.access &&& auAccessListMask != 0)

def procAuListBuckets (client : Nat) (cs : List ComponentRec) : Exec (Except AuStatus Listing) :=
  procAuList r hw sizeofAuBucketAttributes (·.visibleTo client) (fun c => pad4 c.description.length) id cs

end

/-! ### What matches -/

section
variable (r : Request) (hw : Hardware) (c : ComponentRec) (p : Nat)

/-- An attribute is in the value mask. -/
def Request.has (bit : Nat) : Bool := (r.order.read 4 r.body 0).testBit bit

def Request.field (w p : Nat) : Nat := r.order.read w r.body p

/-- `description.len` and `num_children` -/
def Request.len : Nat := r.field 4 24
def Request.numChildren : Nat := r.field 1 41

def Request.string : List UInt8 := (r.body.drop p).take r.len

/-- Where the children are, behind the description. -/
def Request.childrenAt : Nat := if r.has 6 then p + pad4u r.len else p

def Request.children : List Nat :=
  (List.range r.numChildren).map fun i => r.field sizeofAuDeviceID (r.childrenAt p + i * sizeofAuDeviceID)

/-- The numbers and masks that all components have. -/
def CommonMatch : Prop :=
  (r.has 0 → c.id = r.field 4 8) ∧ (r.has 1 → c.kind = r.field 1 12) ∧ (r.has 2 → c.use &&& r.field 1 13 ≠ 0) ∧
    (r.has 3 → c.format = r.field 1 14) ∧ (r.has 4 → c.numTracks = r.field 1 15) ∧
    (r.has 5 → c.access &&& r.field 4 16 ≠ 0)

/-- Those of devices. -/
def DeviceMatch : Prop :=
  (r.has 16 → c.minSampleRate = r.field 2 36) ∧ (r.has 17 → c.maxSampleRate = r.field 2 38) ∧
    (r.has 18 → c.location &&& r.field 4 28 ≠ 0) ∧ (r.has 19 → (c.refresh hw).gain = r.field 4 32) ∧
    (r.has 20 → (c.refresh hw).lineMode = r.field 1 40)

/-- Those of buckets. -/
def BucketMatch : Prop :=
  (r.has 16 → c.sampleRate = r.field 2 28) ∧ (r.has 17 → c.numSamples = r.field 4 32)

instance : Decidable (CommonMatch r c) := inferInstanceAs (Decidable (_ ∧ _))
instance : Decidable (DeviceMatch r hw c) := inferInstanceAs (Decidable (_ ∧ _))
instance : Decidable (BucketMatch r c) := inferInstanceAs (Decidable (_ ∧ _))

/-- The attributes that the kind of the component has and that are not in the variable part. -/
def KindMatch : Prop :=
  (c.IsDevice → DeviceMatch r hw c) ∧ (c.kind = auComponentKindBucket → BucketMatch r c)

/-- The description has the type and the length that are asked for. -/
def SameShape : Prop := c.descriptionType = r.field 1 20 ∧ c.description.length = r.len

def ChildrenMatch : Prop := c.IsDevice → r.has 21 → c.children.map UInt32.toNat = r.children p

instance : Decidable (KindMatch r hw c) := inferInstanceAs (Decidable (_ ∧ _))
instance : Decidable (SameShape r c) := inferInstanceAs (Decidable (_ ∧ _))
instance : Decidable (ChildrenMatch r c p) := inferInstanceAs (Decidable (_ → _))

/-- Every attribute in the mask that the component's kind has matches. -/
def Matches : Prop :=
  CommonMatch r c ∧ (r.has 6 → SameShape r c ∧ c.description = r.string p) ∧ KindMatch r hw c ∧ ChildrenMatch r c p

instance : Decidable (Matches r hw c p) := inferInstanceAs (Decidable (_ ∧ _))

/-- `AuMatchAttributes` has the right result, from the request's bytes. -/
def MatchExact : Prop := ∃ same c', auMatchAttributes r hw c p = .ok (same, c') ∧ (same = true ↔ Matches r hw c p)

/-- `n` bytes of two strings are the same, or all up to a NUL in both. -/
def SameToNul (n : Nat) (s s' : List UInt8) : Prop :=
  s.take n = s'.take n ∨ ∃ i < n, s[i]? = some 0 ∧ s.take (i + 1) = s'.take (i + 1)

instance (n : Nat) (s s' : List UInt8) : Decidable (SameToNul n s s') := inferInstanceAs (Decidable (_ ∨ _))

/-- What `strncmp` can tell of the descriptions. -/
def Seems : Prop := r.has 6 → SameShape r c ∧ SameToNul r.len c.description (r.body.drop p)

instance : Decidable (Seems r c p) := inferInstanceAs (Decidable (_ → _))

/-- The variable part that is compared is in the request, and where a component matches but for its description, that
does not seem to be the same. -/
structure Good : Prop where
  string : CommonMatch r c → r.has 6 → SameShape r c → p + r.len ≤ r.body.length
  children : CommonMatch r c → Seems r c p → c.IsDevice → DeviceMatch r hw c → r.has 21 →
    c.children.length = r.numChildren → r.childrenAt p + r.numChildren * sizeofAuDeviceID ≤ r.body.length
  told : CommonMatch r c → Seems r c p → KindMatch r hw c → ChildrenMatch r c p → r.has 6 → c.description = r.string p

end

/-! ### Masks -/

section
variable {r : Request} {hw : Hardware} {c : ComponentRec} {p b w : Nat} {t : Test} {ts : List Test}
  {s s' : Comparing} {P : Prop} [Decidable P]

theorem testBits_bit : testBits (t :: ts) (r.order.read 4 r.body 0 / 2 ^ b) s =
    if r.has b then (do
      let (same, s) ← t s
      if same then testBits ts (r.order.read 4 r.body 0 / 2 ^ (b + 1)) s else .ok (false, s))
    else testBits ts (r.order.read 4 r.body 0 / 2 ^ (b + 1)) s := by
  have hdiv : r.order.read 4 r.body 0 / 2 ^ b / 2 = r.order.read 4 r.body 0 / 2 ^ (b + 1) := by
    rw [Nat.div_div_eq_div_mul, Nat.pow_succ]
  have hbit : r.has b = true ↔ r.order.read 4 r.body 0 / 2 ^ b % 2 = 1 := by
    rw [Request.has, Nat.testBit_eq_decide_div_mod_eq, decide_eq_true_iff]
  rw [testBits, hdiv]
  simp only [hbit]

/-- A test that has a result. -/
theorem testBits_decided (h : t s = .ok (decide P, s')) : testBits (t :: ts) (r.order.read 4 r.body 0 / 2 ^ b) s =
    if r.has b = true → P then testBits ts (r.order.read 4 r.body 0 / 2 ^ (b + 1)) (if r.has b then s' else s)
    else .ok (false, s') := by
  rw [testBits_bit]
  by_cases hb : r.has b = true
  · rw [if_pos hb, h, Exec.ok_bind]
    by_cases hP : P
    · simp [hP, hb]
    · simp [hP, hb]
  · simp [hb]

theorem testBits_pure (h : t s = .ok (decide P, s)) : testBits (t :: ts) (r.order.read 4 r.body 0 / 2 ^ b) s =
    if r.has b = true → P then testBits ts (r.order.read 4 r.body 0 / 2 ^ (b + 1)) s else .ok (false, s) := by
  rw [testBits_decided h, ite_self]

theorem compare_eq {field : ComponentRec → Nat} (h : p + w ≤ r.body.length) :
    compare r field w p s = .ok (decide (field s.c = r.field w p), s) := by
  rw [compare, ByteOrder.load_ok h, Exec.ok_bind, Request.field]

theorem compareMask_eq {field : ComponentRec → Nat} (h : p + w ≤ r.body.length) :
    compareMask r field w p s = .ok (decide (field s.c &&& r.field w p ≠ 0), s) := by
  rw [compareMask, ByteOrder.load_ok h, Exec.ok_bind, Request.field]

theorem testBits_last :
    testBits [t] (r.order.read 4 r.body 0 / 2 ^ b) s = if r.has b then t s else .ok (true, s) := by
  rw [testBits_bit]
  congr 1
  rcases t s with e | ⟨_ | _, s'⟩ <;> rfl

theorem common_eq (hfix : 28 ≤ r.body.length) :
    testBits (commonTests r) (r.order.read 4 r.body 0) s =
      if CommonMatch r s.c then if r.has 6 then compareDescription r s else .ok (true, s) else .ok (false, s) := by
  have hstart : r.order.read 4 r.body 0 = r.order.read 4 r.body 0 / 2 ^ 0 := by rw [Nat.pow_zero, Nat.div_one]
  rw [hstart, commonTests, testBits_pure (compare_eq (by omega)), testBits_pure (compare_eq (by omega)),
    testBits_pure (compareMask_eq (by omega)), testBits_pure (compare_eq (by omega)),
    testBits_pure (compare_eq (by omega)), testBits_pure (compareMask_eq (by omega)), testBits_last]
  rw [← ite_and, ← ite_and, ← ite_and, ← ite_and, ← ite_and]
  refine if_congr ?_ rfl rfl
  simp only [and_assoc]
  rfl

theorem bucket_eq (hfix : 36 ≤ r.body.length) :
    testBits (bucketTests r) (r.order.read 4 r.body 0 / 2 ^ 16) s =
      if BucketMatch r s.c then .ok (true, s) else .ok (false, s) := by
  rw [bucketTests, testBits_pure (compare_eq (by omega)), testBits_pure (compare_eq (by omega))]
  rw [← ite_and]
  exact if_congr Iff.rfl rfl rfl

/-! ### Refreshed components -/

theorem refreshGain_gain : (c.refreshGain hw).gain = (c.refresh hw).gain := by
  unfold ComponentRec.refresh ComponentRec.refreshLineMode
  split_ifs with h₁ h₂
  · rfl
  · unfold ComponentRec.refreshGain at h₁ h₂ ⊢
    split_ifs at h₁ h₂ ⊢ <;> simp_all
  · rfl

theorem refresh_refreshGain : (c.refreshGain hw).refresh hw = c.refresh hw := by
  unfold ComponentRec.refresh
  congr 1
  unfold ComponentRec.refreshGain
  split_ifs <;> simp_all

theorem refresh_refreshLineMode : (c.refreshLineMode hw).refresh hw = c.refresh hw := by
  unfold ComponentRec.refresh ComponentRec.refreshGain ComponentRec.refreshLineMode
  split_ifs <;> simp_all

theorem refreshLineMode_lineMode (h : c.IsDevice) : (c.refreshLineMode hw).lineMode = (c.refresh hw).lineMode := by
  unfold ComponentRec.refresh ComponentRec.refreshGain ComponentRec.refreshLineMode
  rcases h with h | h | h <;> simp [h, auComponentKindPhysicalInput, auComponentKindPhysicalOutput,
    auComponentKindPhysicalFeedback]

theorem refresh_kind : (c.refresh hw).kind = c.kind := by
  unfold ComponentRec.refresh ComponentRec.refreshGain ComponentRec.refreshLineMode
  split_ifs <;> rfl

theorem refresh_children : (c.refresh hw).children = c.children := by
  unfold ComponentRec.refresh ComponentRec.refreshGain ComponentRec.refreshLineMode
  split_ifs <;> rfl

theorem refresh_of_not (h : ¬ c.IsDevice) : c.refresh hw = c := by
  unfold ComponentRec.IsDevice at h
  rw [not_or, not_or] at h
  unfold ComponentRec.refresh ComponentRec.refreshGain ComponentRec.refreshLineMode
  simp [h]

/-- Only what the hardware says has changed. -/
structure Refreshed (hw : Hardware) (s s' : Comparing) : Prop where
  c : s'.c.refresh hw = s.c.refresh hw
  varData : s'.varData = s.varData

theorem Refreshed.kind (h : Refreshed hw s s') : s'.c.kind = s.c.kind := by
  have hkind : (s'.c.refresh hw).kind = s'.c.kind := refresh_kind
  rw [← hkind, h.c, refresh_kind]

theorem Refreshed.children (h : Refreshed hw s s') : s'.c.children = s.c.children := by
  have hchildren : (s'.c.refresh hw).children = s'.c.children := refresh_children
  rw [← hchildren, h.c, refresh_children]

theorem device_runs (hfix : 44 ≤ r.body.length) (hdev : s.c.IsDevice) :
    (DeviceMatch r hw s.c → ∃ s', Refreshed hw s s' ∧ testBits (deviceTests r hw) (r.order.read 4 r.body 0 / 2 ^ 16) s =
      if r.has 21 then compareChildren r s' else .ok (true, s')) ∧
    (¬ DeviceMatch r hw s.c → ∃ s', Refreshed hw s s' ∧
      testBits (deviceTests r hw) (r.order.read 4 r.body 0 / 2 ^ 16) s = .ok (false, s')) := by
  have hgain (s : Comparing) : compareGain r hw s =
      .ok (decide ((s.c.refresh hw).gain = r.field 4 32), { s with c := s.c.refreshGain hw }) := by
    rw [compareGain, compare_eq (by omega), ← refreshGain_gain]
  have hmode (s : Comparing) (hs : s.c.IsDevice) : compareLineMode r hw s =
      .ok (decide ((s.c.refresh hw).lineMode = r.field 1 40), { s with c := s.c.refreshLineMode hw }) := by
    rw [compareLineMode, compare_eq (by omega), ← refreshLineMode_lineMode hs]
  -- the state behind the gain, and the one behind the line mode
  obtain ⟨s₁, hs₁⟩ : ∃ s₁, s₁ = if r.has 19 then { s with c := s.c.refreshGain hw } else s :=
    ⟨_, rfl⟩
  have hr₁ : Refreshed hw s s₁ := by
    rw [hs₁]
    split_ifs
    · exact ⟨refresh_refreshGain, rfl⟩
    · exact ⟨rfl, rfl⟩
  have hdev₁ : s₁.c.IsDevice := by
    unfold ComponentRec.IsDevice
    rwa [hr₁.kind]
  obtain ⟨s₂, hs₂⟩ : ∃ s₂, s₂ =
      if r.has 20 then { s₁ with c := s₁.c.refreshLineMode hw } else s₁ := ⟨_, rfl⟩
  have hr₂ : Refreshed hw s s₂ := by
    rw [hs₂]
    split_ifs
    · exact ⟨refresh_refreshLineMode.trans hr₁.c, hr₁.varData⟩
    · exact hr₁
  rw [deviceTests, testBits_pure (compare_eq (by omega)), testBits_pure (compare_eq (by omega)),
    testBits_pure (compareMask_eq (by omega)), testBits_decided (hgain s), ← hs₁, testBits_decided (hmode s₁ hdev₁),
    ← hs₂, testBits_last, hr₁.c]
  constructor
  · rintro ⟨hmin, hmax, hloc, hg, hm⟩
    rw [if_pos hmin, if_pos hmax, if_pos hloc, if_pos hg, if_pos hm]
    exact ⟨s₂, hr₂, rfl⟩
  · intro hnot
    split_ifs with hmin hmax hloc hg hm
    · exact absurd ⟨hmin, hmax, hloc, hg, hm⟩ hnot
    · exact absurd ⟨hmin, hmax, hloc, hg, hm⟩ hnot
    · refine ⟨_, ?_, rfl⟩
      exact ⟨refresh_refreshLineMode.trans hr₁.c, hr₁.varData⟩
    · refine ⟨_, ?_, rfl⟩
      exact ⟨refresh_refreshGain, rfl⟩
    · exact ⟨s, ⟨rfl, rfl⟩, rfl⟩
    · exact ⟨s, ⟨rfl, rfl⟩, rfl⟩
    · exact ⟨s, ⟨rfl, rfl⟩, rfl⟩

/-! ### The variable part -/

theorem strncmp_eq {n : Nat} {l l' : List UInt8} (hl : n ≤ l.length) (hl' : n ≤ l'.length) :
    ∃ same, strncmp n l l' = .ok same ∧ (same = true ↔ SameToNul n l l') := by
  induction n generalizing l l' with
  | zero => exact ⟨true, rfl, by simp [SameToNul]⟩
  | succ n ih =>
    rcases l with _ | ⟨a, l⟩
    · cases hl
    rcases l' with _ | ⟨a', l'⟩
    · cases hl'
    rw [strncmp]
    by_cases ha : a ≠ a'
    · rw [if_pos ha]
      refine ⟨false, rfl, iff_of_false (by simp) ?_⟩
      rintro (h | ⟨i, -, -, h⟩)
      · exact ha (List.cons.inj h).1
      · exact ha (List.cons.inj h).1
    · rw [if_neg ha]
      rw [not_ne_iff] at ha
      subst ha
      by_cases h0 : a = 0
      · rw [if_pos h0]
        exact ⟨true, rfl, iff_of_true rfl (.inr ⟨0, by omega, by simp [h0], rfl⟩)⟩
      · rw [if_neg h0]
        obtain ⟨same, hsame, hiff⟩ := @ih l l' (Nat.le_of_succ_le_succ hl) (Nat.le_of_succ_le_succ hl')
        refine ⟨same, hsame, hiff.trans ⟨?_, ?_⟩⟩
        · rintro (h | ⟨i, hi, hnul, h⟩)
          · exact .inl (by rw [List.take_succ_cons, List.take_succ_cons, h])
          · exact .inr ⟨i + 1, by omega, hnul, by rw [List.take_succ_cons, List.take_succ_cons, h]⟩
        · rintro (h | ⟨i, hi, hnul, h⟩)
          · exact .inl (List.cons.inj h).2
          · rcases i with _ | i
            · exact absurd (Option.some.inj hnul) h0
            · exact .inr ⟨i, by omega, hnul, (List.cons.inj h).2⟩

theorem compareDescription_other (hfix : 28 ≤ r.body.length) (h : ¬ SameShape r s.c) :
    compareDescription r s = .ok (false, s) := by
  rw [compareDescription, ByteOrder.load_ok (by omega), ByteOrder.load_ok (by omega), Exec.ok_bind]
  by_cases htype : s.c.descriptionType = r.order.read 1 r.body 20
  · rw [if_neg (not_not.2 htype), Exec.ok_bind, if_pos]
    exact fun hlen => h ⟨htype, hlen⟩
  · exact if_pos htype

theorem compareDescription_shape (hfix : 28 ≤ r.body.length) (h : SameShape r s.c) :
    compareDescription r s = (do
      let same ← strncmp r.len s.c.description (r.body.drop s.varData)
      .ok (same, if same then { s with varData := s.varData + pad4u r.len } else s)) := by
  obtain ⟨htype, hlen⟩ : s.c.descriptionType = r.order.read 1 r.body 20 ∧
      s.c.description.length = r.order.read 4 r.body 24 := h
  rw [compareDescription, ByteOrder.load_ok (by omega), ByteOrder.load_ok (by omega), Exec.ok_bind,
    if_neg (not_not.2 htype), Exec.ok_bind, if_neg (not_not.2 hlen)]
  rfl

theorem compareDescription_same (hfix : 28 ≤ r.body.length) (h : SameShape r s.c)
    (hin : s.varData + r.len ≤ r.body.length) :
    ∃ same, compareDescription r s = .ok (same, if same then { s with varData := s.varData + pad4u r.len } else s) ∧
      (same = true ↔ SameToNul r.len s.c.description (r.body.drop s.varData)) := by
  obtain ⟨same, hsame, hiff⟩ := strncmp_eq (le_of_eq h.2.symm) (show r.len ≤ (r.body.drop s.varData).length by
    rw [List.length_drop]
    omega)
  exact ⟨same, by rw [compareDescription_shape hfix h, hsame]; rfl, hiff⟩

/-- The request has no byte to compare. -/
theorem compareDescription_short (hfix : 28 ≤ r.body.length) (h : SameShape r s.c)
    (hle : s.varData ≤ r.body.length) (hacc : r.body.length - s.varData = pad4u r.len) (hout : r.body.length < s.varData + r.len) :
    compareDescription r s = .error .fault := by
  have hlt : r.len < 2 ^ 32 := ByteOrder.read_lt (show 24 + 4 ≤ r.body.length by omega)
  have hdrop : r.body.drop s.varData = [] := by
    rw [List.drop_eq_nil_iff]
    rw [Allocation.pad4u_eq] at hacc
    unfold pad4 at hacc
    omega
  have hlen := h.2
  rw [compareDescription_shape hfix h, hdrop]
  rcases hd : s.c.description with _ | ⟨b, l⟩
  · rw [hd, List.length_nil] at hlen
    omega
  · rw [hd, List.length_cons] at hlen
    rw [← hlen]
    rfl

/-- The children in memory are the ids in the request. -/
theorem childBytes_eq_iff {o : ByteOrder} {m : List UInt8} (hin : p + c.children.length * sizeofAuDeviceID ≤ m.length) :
    c.childBytes o = Memory.slice m p (p + c.children.length * sizeofAuDeviceID) ↔ c.children.map UInt32.toNat =
      (List.range c.children.length).map fun i => o.read sizeofAuDeviceID m (p + i * sizeofAuDeviceID) := by
  unfold ComponentRec.childBytes
  generalize c.children = ids at hin ⊢
  induction ids generalizing p with
  | nil => simp
  | cons id ids ih =>
    rw [List.length_cons] at hin ⊢
    simp only [sizeofAuDeviceID] at hin ih ⊢
    have hslice : Memory.slice m p (p + (ids.length + 1) * 4) =
        Memory.slice m p (p + 4) ++ Memory.slice m (p + 4) (p + 4 + ids.length * 4) := by
      rw [Memory.slice_append (by omega) (by omega)]
      congr 1
      omega
    have hone : (Memory.slice m p (p + 4)).length = 4 := by
      rw [Memory.length_slice (by omega)]
      omega
    have hid : o.encode 4 id.toNat = Memory.slice m p (p + 4) ↔ id.toNat = o.read 4 m p := by
      constructor
      · intro h
        rw [ByteOrder.read, ← h, ByteOrder.decode_encode]
        exact id.toNat_lt
      · intro h
        rw [h, ByteOrder.read, ByteOrder.encode_decode hone]
    rw [List.flatMap_cons, hslice, List.map_cons, List.range_succ_eq_map, List.map_cons, List.map_map, List.cons.injEq]
    simp only [Nat.zero_mul, Nat.add_zero]
    rw [← hid]
    have hrest := ih (p := p + 4) (by omega)
    have hshift : ((fun i => o.read 4 m (p + i * 4)) ∘ Nat.succ) = fun i => o.read 4 m (p + 4 + i * 4) := by
      funext i
      simp only [Function.comp_apply]
      congr 1
      omega
    rw [hshift, ← hrest]
    constructor
    · intro h
      exact List.append_inj h (by rw [ByteOrder.length_encode, hone])
    · rintro ⟨h, h'⟩
      rw [h, h']

/-- The children are in the request, if they are compared. -/
def ChildrenFit (r : Request) (hw : Hardware) (c : ComponentRec) (p : Nat) : Prop :=
  c.IsDevice → DeviceMatch r hw c → r.has 21 → c.children.length = r.numChildren →
    r.childrenAt p + r.numChildren * sizeofAuDeviceID ≤ r.body.length

theorem compareChildren_runs (hfix : 44 ≤ r.body.length) (hvar : s.varData = r.childrenAt p) :
    (s.c.children.length ≠ r.numChildren → compareChildren r s = .ok (false, s)) ∧
    (s.c.children.length = r.numChildren →
      (r.childrenAt p + r.numChildren * sizeofAuDeviceID ≤ r.body.length →
        ∃ same s', compareChildren r s = .ok (same, s') ∧ s'.c = s.c ∧
          (same = true ↔ s.c.children.map UInt32.toNat = r.children p)) ∧
      (r.body.length < r.childrenAt p + r.numChildren * sizeofAuDeviceID →
        compareChildren r s = .error .fault)) := by
  have hn : r.order.load 1 r.body 41 = .ok r.numChildren := ByteOrder.load_ok (by omega)
  have hbytes : (s.c.childBytes r.order).length = s.c.children.length * sizeofAuDeviceID := by
    unfold ComponentRec.childBytes
    induction s.c.children with
    | nil => simp
    | cons id ids ih =>
      rw [List.flatMap_cons, List.length_append, ih, ByteOrder.length_encode, List.length_cons]
      rw [Nat.succ_mul, Nat.add_comm]
  rw [compareChildren, hn, Exec.ok_bind]
  refine ⟨fun hne => if_pos hne, fun hlen => ?_⟩
  rw [if_neg (not_not.2 hlen), ← hlen, ← hvar, Memory.load_ok (by omega), Exec.ok_bind, Nat.zero_add, ← hbytes,
    Memory.slice_all (le_refl _), hbytes]
  refine ⟨fun hin => ?_, fun hout => ?_⟩
  · rw [Memory.load_ok hin, Exec.ok_bind]
    refine ⟨_, _, rfl, by split_ifs <;> rfl, ?_⟩
    rw [decide_eq_true_iff, childBytes_eq_iff hin, Request.children, ← hlen, ← hvar]
    rfl
  · rw [Memory.load, if_neg (Nat.not_le.2 hout)]
    rfl

theorem kind_runs (hfix : 44 ≤ r.body.length ∨ 36 ≤ r.body.length ∧ ¬ s.c.IsDevice) (hvar : s.varData = r.childrenAt p) :
    (ChildrenFit r hw s.c p → ∃ same s', testBits (kindTests r hw s.c) (r.order.read 4 r.body 0 / 2 ^ 16) s =
        .ok (same, s') ∧ s'.c.refresh hw = s.c.refresh hw ∧
          (same = true ↔ KindMatch r hw s.c ∧ ChildrenMatch r s.c p)) ∧
    (¬ ChildrenFit r hw s.c p →
      testBits (kindTests r hw s.c) (r.order.read 4 r.body 0 / 2 ^ 16) s = .error .fault) := by
  by_cases hdev : s.c.IsDevice
  · have hfix : 44 ≤ r.body.length := hfix.resolve_right fun h => h.2 hdev
    have hnot : s.c.kind ≠ auComponentKindBucket := by
      intro h
      rcases hdev with hk | hk | hk <;> rw [h] at hk <;> cases hk
    have hkind : KindMatch r hw s.c ↔ DeviceMatch r hw s.c := ⟨fun h => h.1 hdev, fun h => ⟨fun _ => h, fun h => absurd h hnot⟩⟩
    rw [kindTests, if_pos hdev, hkind]
    by_cases hmatch : DeviceMatch r hw s.c
    · obtain ⟨s', hs', hrun⟩ := (device_runs hfix hdev).1 hmatch
      obtain ⟨hother, hsame⟩ := compareChildren_runs hfix (hs'.varData.trans hvar)
      rw [hs'.children] at hother hsame
      rw [hrun]
      by_cases h21 : r.has 21 = true
      · rw [if_pos h21]
        by_cases hlen : s.c.children.length = r.numChildren
        · obtain ⟨hin, hout⟩ := hsame hlen
          refine ⟨fun hfit => ?_, fun hfit => ?_⟩
          · obtain ⟨same, t, ht, hc, hiff⟩ := hin (hfit hdev hmatch h21 hlen)
            exact ⟨same, t, ht, by rw [hc, hs'.c],
              hiff.trans ⟨fun h => ⟨hmatch, fun _ _ => h⟩, fun h => h.2 hdev h21⟩⟩
          · refine hout (Nat.not_le.1 fun hle => hfit fun _ _ _ _ => hle)
        · refine ⟨fun _ => ⟨false, s', hother hlen, hs'.c, iff_of_false (by simp) fun h => hlen ?_⟩, fun hfit => ?_⟩
          · have := congrArg List.length (h.2 hdev h21)
            rwa [List.length_map, Request.children, List.length_map, List.length_range] at this
          · exact absurd (fun _ _ _ h => absurd h hlen) hfit
      · rw [if_neg h21]
        refine ⟨fun _ => ⟨true, s', rfl, hs'.c, iff_of_true rfl ⟨hmatch, fun _ h => absurd h h21⟩⟩, fun hfit => ?_⟩
        exact absurd (fun _ _ h => absurd h h21) hfit
    · obtain ⟨s', hs', hrun⟩ := (device_runs hfix hdev).2 hmatch
      refine ⟨fun _ => ⟨false, s', hrun, hs'.c, iff_of_false (by simp) fun h => hmatch h.1⟩, fun hfit => ?_⟩
      exact absurd (fun _ h => absurd h hmatch) hfit
  · have hfits : ChildrenFit r hw s.c p := fun h => absurd h hdev
    have hchildren : ChildrenMatch r s.c p := fun h => absurd h hdev
    rw [kindTests, if_neg hdev]
    refine ⟨fun _ => ?_, fun h => absurd hfits h⟩
    by_cases hbucket : s.c.kind = auComponentKindBucket
    · rw [if_pos hbucket, bucket_eq (by omega)]
      by_cases hmatch : BucketMatch r s.c
      · rw [if_pos hmatch]
        exact ⟨true, s, rfl, rfl, iff_of_true rfl ⟨⟨fun h => absurd h hdev, fun _ => hmatch⟩, hchildren⟩⟩
      · rw [if_neg hmatch]
        exact ⟨false, s, rfl, rfl, iff_of_false (by simp) fun h => hmatch (h.1.2 hbucket)⟩
    · rw [if_neg hbucket]
      exact ⟨true, s, rfl, rfl,
        iff_of_true rfl ⟨⟨fun h => absurd h hdev, fun h => absurd h hbucket⟩, hchildren⟩⟩

/-! ### `AuMatchAttributes` is right -/

/-- All that is compared is in the request. -/
def Inside (r : Request) (hw : Hardware) (c : ComponentRec) (p : Nat) : Prop :=
  (CommonMatch r c → r.has 6 → SameShape r c → p + r.len ≤ r.body.length) ∧
    (CommonMatch r c → Seems r c p → ChildrenFit r hw c p)

/-- What the handlers check before they compare. -/
structure Accepted (r : Request) (size : Nat) : Prop where
  fixed : size ≤ r.body.length
  string : r.has 6 → r.body.length - size = pad4u r.len

/-- Behind the common attributes. -/
theorem auMatchAttributes_kind (hfix : 44 ≤ r.body.length ∨ 36 ≤ r.body.length ∧ ¬ c.IsDevice) {varData : Nat}
    (hcommon : testBits (commonTests r) (r.order.read 4 r.body 0) ⟨c, varData⟩ = .ok (true, s)) (hc : s.c = c)
    (hvar : s.varData = r.childrenAt p) :
    (ChildrenFit r hw c p → ∃ same c', auMatchAttributes r hw c varData = .ok (same, c') ∧
      c'.refresh hw = c.refresh hw ∧ (same = true ↔ KindMatch r hw c ∧ ChildrenMatch r c p)) ∧
    (¬ ChildrenFit r hw c p → auMatchAttributes r hw c varData = .error .fault) := by
  have hrun : auMatchAttributes r hw c varData = (do
      let (same, s) ← testBits (kindTests r hw s.c) (r.order.read 4 r.body 0 / 2 ^ 16) s
      .ok (same, s.c)) := by
    rw [auMatchAttributes, ByteOrder.load_ok (by omega), Exec.ok_bind, hcommon, Exec.ok_bind]
    exact if_pos rfl
  obtain ⟨hfit, hnot⟩ := kind_runs (hc.symm ▸ hfix) hvar
  rw [hc] at hfit hnot hrun
  rw [hrun]
  refine ⟨fun h => ?_, fun h => by rw [hnot h]; rfl⟩
  obtain ⟨same, s', hs', hrefresh, hiff⟩ := hfit h
  exact ⟨same, s'.c, by rw [hs']; rfl, hrefresh, hiff⟩

theorem auMatchAttributes_differs (hfix : 28 ≤ r.body.length) {varData : Nat}
    (hcommon : testBits (commonTests r) (r.order.read 4 r.body 0) ⟨c, varData⟩ = .ok (false, ⟨c, varData⟩)) :
    auMatchAttributes r hw c varData = .ok (false, c) := by
  rw [auMatchAttributes, ByteOrder.load_ok (by omega), Exec.ok_bind, hcommon, Exec.ok_bind]
  exact if_neg (by simp)

variable (hw) in
theorem auMatchAttributes_runs (hfix : 44 ≤ p ∨ 36 ≤ p ∧ ¬ c.IsDevice) (hacc : Accepted r p) :
    (Inside r hw c p → ∃ same c', auMatchAttributes r hw c p = .ok (same, c') ∧ c'.refresh hw = c.refresh hw ∧
      (same = true ↔ CommonMatch r c ∧ Seems r c p ∧ KindMatch r hw c ∧ ChildrenMatch r c p)) ∧
    (¬ Inside r hw c p → auMatchAttributes r hw c p = .error .fault) := by
  have hle := hacc.fixed
  have hfix' : 44 ≤ r.body.length ∨ 36 ≤ r.body.length ∧ ¬ c.IsDevice :=
    hfix.imp (fun h => by omega) fun h => ⟨by omega, h.2⟩
  have hcommon := common_eq (r := r) (s := ⟨c, p⟩) (by omega)
  by_cases hmatch : CommonMatch r c
  · rw [if_pos hmatch] at hcommon
    by_cases h6 : r.has 6 = true
    · rw [if_pos h6] at hcommon
      by_cases hshape : SameShape r c
      · by_cases hin : p + r.len ≤ r.body.length
        · obtain ⟨same, hsame, hiff⟩ := compareDescription_same (r := r) (s := ⟨c, p⟩) (by omega) hshape hin
          rw [hsame] at hcommon
          cases same with
          | true =>
            have hseems : Seems r c p := fun _ => ⟨hshape, hiff.1 rfl⟩
            obtain ⟨hfit, hnot⟩ := auMatchAttributes_kind hfix' hcommon rfl (by rw [Request.childrenAt, if_pos h6]; rfl)
            refine ⟨fun h => ?_, fun h => hnot fun hfits => h ⟨fun _ _ _ => hin, fun _ _ => hfits⟩⟩
            obtain ⟨same, c', hc', hrefresh, hiff'⟩ := hfit (h.2 hmatch hseems)
            exact ⟨same, c', hc', hrefresh, hiff'.trans ⟨fun h => ⟨hmatch, hseems, h⟩, fun h => h.2.2⟩⟩
          | false =>
            have hnot : ¬ Seems r c p := fun h => by simpa using hiff.2 (h h6).2
            refine ⟨fun _ => ⟨false, c, auMatchAttributes_differs (by omega) hcommon, rfl,
              iff_of_false (by simp) fun h => hnot h.2.1⟩, fun h => ?_⟩
            exact absurd ⟨fun _ _ _ => hin, fun _ h => absurd h hnot⟩ h
        · rw [compareDescription_short (by omega) hshape hle (hacc.string h6) (Nat.not_le.1 hin)] at hcommon
          refine ⟨fun h => absurd (h.1 hmatch h6 hshape) hin, fun _ => ?_⟩
          rw [auMatchAttributes, ByteOrder.load_ok (by omega), Exec.ok_bind, hcommon]
          rfl
      · rw [compareDescription_other (by omega) hshape] at hcommon
        have hnot : ¬ Seems r c p := fun h => hshape (h h6).1
        refine ⟨fun _ => ⟨false, c, auMatchAttributes_differs (by omega) hcommon, rfl,
          iff_of_false (by simp) fun h => hnot h.2.1⟩, fun h => ?_⟩
        exact absurd ⟨fun _ _ h => absurd h hshape, fun _ h => absurd h hnot⟩ h
    · rw [if_neg h6] at hcommon
      have hseems : Seems r c p := fun h => absurd h h6
      obtain ⟨hfit, hnot⟩ := auMatchAttributes_kind hfix' hcommon rfl (by rw [Request.childrenAt, if_neg h6])
      refine ⟨fun h => ?_, fun h => hnot fun hfits => h ⟨fun _ h => absurd h h6, fun _ _ => hfits⟩⟩
      obtain ⟨same, c', hc', hrefresh, hiff'⟩ := hfit (h.2 hmatch hseems)
      exact ⟨same, c', hc', hrefresh, hiff'.trans ⟨fun h => ⟨hmatch, hseems, h⟩, fun h => h.2.2⟩⟩
  · rw [if_neg hmatch] at hcommon
    refine ⟨fun _ => ⟨false, c, auMatchAttributes_differs (by omega) hcommon, rfl,
      iff_of_false (by simp) fun h => hmatch h.1⟩, fun h => ?_⟩
    exact absurd ⟨fun h => absurd h hmatch, fun h => absurd h hmatch⟩ h

theorem Matches.seems (h : Matches r hw c p) : Seems r c p := by
  intro h6
  obtain ⟨hshape, hstring⟩ := h.2.1 h6
  refine ⟨hshape, .inl ?_⟩
  rw [List.take_of_length_le (le_of_eq hshape.2), hstring, Request.string]

theorem good_iff : Good r hw c p ↔ Inside r hw c p ∧
    (CommonMatch r c → Seems r c p → KindMatch r hw c → ChildrenMatch r c p → r.has 6 → c.description = r.string p) :=
  ⟨fun h => ⟨⟨h.string, h.children⟩, h.told⟩, fun h => ⟨h.1.1, h.1.2, h.2⟩⟩

theorem match_exact_iff (hfix : 44 ≤ p ∨ 36 ≤ p ∧ ¬ c.IsDevice) (hacc : Accepted r p) :
    MatchExact r hw c p ↔ Good r hw c p := by
  obtain ⟨hin, hout⟩ := auMatchAttributes_runs hw hfix hacc
  rw [good_iff]
  by_cases hinside : Inside r hw c p
  · obtain ⟨same, c', hrun, -, hiff⟩ := hin hinside
    constructor
    · rintro ⟨same', c'', hrun', hexact⟩
      rw [hrun] at hrun'
      cases hrun'
      refine ⟨hinside, fun hcommon hseems hkind hchildren h6 => ?_⟩
      exact ((hexact.1 (hiff.2 ⟨hcommon, hseems, hkind, hchildren⟩)).2.1 h6).2
    · rintro ⟨-, htold⟩
      refine ⟨same, c', hrun, hiff.trans ⟨fun h => ?_, fun h => ⟨h.1, h.seems, h.2.2⟩⟩⟩
      exact ⟨h.1, fun h6 => ⟨(h.2.1 h6).1, htold h.1 h.2.1 h.2.2.1 h.2.2.2 h6⟩, h.2.2⟩
  · refine ⟨?_, fun h => absurd h.1 hinside⟩
    rintro ⟨same, c', hrun, -⟩
    rw [hout hinside] at hrun
    cases hrun

end

/-! ### The listings are right -/

inductive ListRequest where
  | devices
  | buckets (client : Nat)
deriving DecidableEq, Repr

namespace ListRequest

/-- The size of the attributes. -/
def size : ListRequest → Nat
  | devices => sizeofAuDeviceAttributes
  | buckets _ => sizeofAuBucketAttributes

def visible : ListRequest → ComponentRec → Bool
  | devices, _ => true
  | buckets client, c => c.visibleTo client

def proc (r : Request) (hw : Hardware) (cs : List ComponentRec) : ListRequest → Exec (Except AuStatus Listing)
  | devices => procAuListDevices r hw cs
  | buckets client => procAuListBuckets r hw client cs

/-- The list of buckets has buckets only. -/
def Listable : ListRequest → ComponentRec → Prop
  | devices, _ => True
  | buckets _, c => c.kind = auComponentKindBucket

/-- Every comparison is right, and what is counted and written are the components that match, in their order. -/
structure Exact (which : ListRequest) (r : Request) (hw : Hardware) (cs : List ComponentRec) : Prop where
  matching : ∀ c ∈ cs, which.visible c → MatchExact r hw c which.size
  listing : ∃ listing, which.proc r hw cs = .ok (.ok listing) ∧
    listing.written = (cs.filter fun c => which.visible c ∧ Matches r hw c which.size).map (·.refresh hw) ∧
    listing.num = listing.written.length

end ListRequest

section
variable {r : Request} {hw : Hardware} {cs : List ComponentRec} {c : ComponentRec} {p : Nat}
  {visible : ComponentRec → Bool} {varLen : ComponentRec → Nat}

variable (varLen) in
theorem countPass_runs (hrun : ∀ c ∈ cs, visible c → ∃ same c', auMatchAttributes r hw c p = .ok (same, c') ∧
      c'.refresh hw = c.refresh hw ∧ (same = true ↔ Matches r hw c p)) :
    ∃ listed n len, countPass r hw visible varLen p cs = .ok (listed, n, len) ∧
      (listed.filter (·.list)).map (·.c.refresh hw) =
        (cs.filter fun c => visible c ∧ Matches r hw c p).map (·.refresh hw) ∧
      n = (listed.filter (·.list)).length ∧ ∀ x ∈ listed, ∃ c ∈ cs, x.c.refresh hw = c.refresh hw := by
  induction cs with
  | nil => exact ⟨[], 0, 0, rfl, rfl, rfl, by simp⟩
  | cons c cs ih =>
    obtain ⟨listed, n, len, hcount, hlisted, hn, hmem⟩ := ih fun c hc => hrun c (List.mem_cons_of_mem _ hc)
    have hone : ∃ list c', selects r hw visible p c = .ok (list, c') ∧ c'.refresh hw = c.refresh hw ∧
        (list = true ↔ visible c ∧ Matches r hw c p) := by
      unfold selects
      by_cases hvis : visible c = true
      · obtain ⟨same, c', hc', hrefresh, hiff⟩ := hrun c (by simp) hvis
        exact ⟨same, c', by rw [if_pos hvis, hc'], hrefresh, hiff.trans ⟨fun h => ⟨hvis, h⟩, fun h => h.2⟩⟩
      · exact ⟨false, c, if_neg hvis, rfl, iff_of_false (by simp) fun h => hvis h.1⟩
    obtain ⟨list, c', hc', hrefresh, hiff⟩ := hone
    have hdec : decide (visible c = true ∧ Matches r hw c p) = list := by
      rw [Bool.eq_iff_iff, decide_eq_true_iff, hiff]
    refine ⟨⟨c', list⟩ :: listed, _, _, by rw [countPass, hc', Exec.ok_bind, hcount]; rfl, ?_, ?_, fun x hx => ?_⟩
    · rw [List.filter_cons, List.filter_cons, hdec]
      cases list with
      | true => rw [if_pos rfl, if_pos rfl, List.map_cons, List.map_cons, hlisted, hrefresh]
      | false => rwa [if_neg (by simp), if_neg (by simp)]
    · rw [List.filter_cons]
      cases list with
      | true => rw [if_pos rfl, if_pos rfl, List.length_cons, hn]
      | false => rwa [if_neg (by simp), if_neg (by simp)]
    · rcases List.mem_cons.1 hx with rfl | hx
      · exact ⟨c, by simp, hrefresh⟩
      · obtain ⟨d, hd, hxd⟩ := hmem x hx
        exact ⟨d, List.mem_cons_of_mem _ hd, hxd⟩

/-- One of the two handlers, if every comparison is right. -/
theorem procAuList_runs {size : Nat} {refresh : ComponentRec → ComponentRec} (hfix : 28 ≤ size) (hacc : Accepted r size)
    (hrefresh : ∀ c ∈ cs, ∀ c', ComponentRec.refresh hw c' = c.refresh hw → refresh c' = c'.refresh hw)
    (hrun : ∀ c ∈ cs, visible c → ∃ same c', auMatchAttributes r hw c size = .ok (same, c') ∧
      c'.refresh hw = c.refresh hw ∧ (same = true ↔ Matches r hw c size)) :
    ∃ listing, procAuList r hw size visible varLen refresh cs = .ok (.ok listing) ∧
      listing.written = (cs.filter fun c => visible c ∧ Matches r hw c size).map (·.refresh hw) ∧
      listing.num = listing.written.length := by
  have hle := hacc.fixed
  obtain ⟨listed, n, len, hcount, hlisted, hn, hmem⟩ := countPass_runs varLen hrun
  have hwritten : (listed.filter (·.list)).map (fun x => refresh x.c) = (listed.filter (·.list)).map (·.c.refresh hw) := by
    refine List.map_congr_left fun x hx => ?_
    obtain ⟨c, hc, hxc⟩ := hmem x (List.mem_of_mem_filter hx)
    exact hrefresh c hc x.c hxc
  have hok : ¬ ((r.order.read 4 r.body 0).testBit 6 ∧ r.body.length - size ≠ pad4u (r.order.read 4 r.body 24)) :=
    fun h => h.2 (hacc.string h.1)
  refine ⟨⟨n, replyLength (size * n) len, (listed.filter (·.list)).map fun x => refresh x.c⟩, ?_, ?_, ?_⟩
  · rw [procAuList, if_neg (by omega), ByteOrder.load_ok (by omega), Exec.ok_bind, ByteOrder.load_ok (by omega),
      Exec.ok_bind, if_neg hok, hcount]
    rfl
  · exact hwritten.trans hlisted
  · rw [hn, List.length_map]

end

/-- Both listings are right for a request and the components if each of these that is compared is `Good`. -/
theorem matching_exact_iff {which : ListRequest} {r : Request} {hw : Hardware} {cs : List ComponentRec}
    (hacc : Accepted r which.size) (hlist : ∀ c ∈ cs, which.Listable c) :
    which.Exact r hw cs ↔ ∀ c ∈ cs, which.visible c → Good r hw c which.size := by
  have hfix : ∀ c ∈ cs, 44 ≤ which.size ∨ 36 ≤ which.size ∧ ¬ c.IsDevice := fun c hc => by
    cases which with
    | devices => exact .inl (le_refl _)
    | buckets client =>
      refine .inr ⟨le_refl _, fun h => ?_⟩
      rcases h with h | h | h <;> rw [show c.kind = _ from hlist c hc] at h <;> cases h
  refine ⟨fun h c hc hvis => (match_exact_iff (hfix c hc) hacc).1 (h.matching c hc hvis), fun h => ?_⟩
  refine ⟨fun c hc hvis => (match_exact_iff (hfix c hc) hacc).2 (h c hc hvis), ?_⟩
  have hrun : ∀ c ∈ cs, which.visible c → ∃ same c', auMatchAttributes r hw c which.size = .ok (same, c') ∧
      c'.refresh hw = c.refresh hw ∧ (same = true ↔ Matches r hw c which.size) := fun c hc hvis => by
    obtain ⟨same, c', hrun, hrefresh, -⟩ := (auMatchAttributes_runs hw (hfix c hc) hacc).1 (good_iff.1 (h c hc hvis)).1
    obtain ⟨same', c'', hrun', hiff⟩ := (match_exact_iff (hfix c hc) hacc).2 (h c hc hvis)
    rw [hrun] at hrun'
    cases hrun'
    exact ⟨same, c', hrun, hrefresh, hiff⟩
  cases which with
  | devices => exact procAuList_runs (by decide) hacc (fun _ _ _ _ => rfl) hrun
  | buckets client =>
    refine procAuList_runs (by decide) hacc (fun c hc c' hc' => ?_) hrun
    -- a bucket has nothing to refresh
    show c' = c'.refresh hw
    refine (refresh_of_not fun h => ?_).symm
    have hkind : c'.kind = auComponentKindBucket := by
      have h₁ : (c'.refresh hw).kind = c'.kind := refresh_kind
      have h₂ : (c.refresh hw).kind = c.kind := refresh_kind
      rw [← h₁, hc', h₂]
      exact hlist c hc
    rcases h with h | h | h <;> rw [hkind] at h <;> cases h

/-- A bucket of client 0, with a description of three bytes. -/
def named (description : List UInt8) : ComponentRec where
  valueMask := 0x3007f
  changableMask := 0
  id := 1
  kind := auComponentKindBucket
  use := 3
  access := 0
  format := 1
  numTracks := 1
  descriptionType := 1
  description

/-- `ListBuckets` for that description alone. -/
def askFor (description : List UInt8) : Request where
  order := .little
  body := [64, 0, 0, 0] ++ List.replicate 16 0 ++ [1, 0, 0, 0, 3, 0, 0, 0] ++ List.replicate 8 0 ++ description ++ [0]

def noHardware : Hardware := ⟨0, 0, 0, 0, 0⟩

theorem listing_by_name : (ListRequest.buckets 0).Exact (askFor [97, 98, 99]) noHardware
    [named [97, 98, 99], named [97, 98, 100]] := by
  have hnot (description : List UInt8) : ¬ (named description).IsDevice := by
    rintro (h | h | h) <;> cases h
  have hgood : ∀ c ∈ [named [97, 98, 99], named [97, 98, 100]], Good (askFor [97, 98, 99]) noHardware c 36 := by
    intro c hc
    rcases List.mem_pair.1 hc with rfl | rfl
    · exact ⟨by decide, fun _ _ h => absurd h (hnot _), by decide⟩
    · exact ⟨by decide, fun _ _ h => absurd h (hnot _), by decide⟩
  exact (matching_exact_iff ⟨by decide, by decide⟩ (by simp [ListRequest.Listable, named])).2 fun c hc _ => hgood c hc

theorem name_cut_at_nul : ¬ ∀ (which : ListRequest) (r : Request) (hw : Hardware) (cs : List ComponentRec),
    Accepted r which.size → (∀ c ∈ cs, which.Listable c) → which.Exact r hw cs := by
  intro h
  obtain ⟨same, c', hrun, hiff⟩ := (h (.buckets 0) (askFor [97, 0, 99]) noHardware [named [97, 0, 98]]
    ⟨by decide, by decide⟩ (by simp [ListRequest.Listable, named])).matching _ (List.mem_singleton.2 rfl) (by decide)
  have htrue : auMatchAttributes (askFor [97, 0, 99]) noHardware (named [97, 0, 98]) 36 = .ok (true, named [97, 0, 98]) := by
    decide
  rw [show (ListRequest.buckets 0).size = 36 from rfl, htrue] at hrun
  cases hrun
  exact absurd (hiff.1 rfl) (by decide)

end Nas.Matching
