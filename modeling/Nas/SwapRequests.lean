import Nas.RequestLayout
import Mathlib.Tactic.FinCases

/-!
# Requests of clients of the other byte order

`AuSwappedProcVector`: the handlers that bring a request into the byte order of the server and hand it over to
`AuProcVector`. The block is the request, and the handlers have to keep to it: what they access outside of it, and
an element that is not there, are faults.
-/

namespace Nas.SwapRequests
open Elements Requests AuStatus

/-- What `long` is where the server is compiled. -/
inductive DataModel where
  | ilp32
  | lp64
deriving DecidableEq, Repr

def DataModel.sizeofLong : DataModel → Nat
  | .ilp32 => 4
  | .lp64 => 8

/-! ### Elements -/

/-- The variable part of an element, as `SwapElement` tells it apart. -/
inductive VarData where
  /-- the number of actions is here -/
  | actions (off : Nat)
  | tracks
  | inputs
  | nothing
deriving DecidableEq, Repr

/-- The cases of the switch in `SwapElement`: what is swapped of the fixed part, and what is behind it. -/
def swapCase (type : Nat) : Option (List Field × VarData) :=
  if type = importClient then some ([⟨2, 2⟩, ⟨8, 4⟩, ⟨12, 4⟩, ⟨16, 4⟩], .actions 16)
  else if type = importDevice then some ([⟨2, 2⟩, ⟨4, 4⟩, ⟨8, 4⟩, ⟨12, 4⟩], .actions 12)
  else if type = importBucket then some ([⟨2, 2⟩, ⟨4, 4⟩, ⟨8, 4⟩, ⟨12, 4⟩, ⟨16, 4⟩], .actions 16)
  else if type = importWaveForm then some ([⟨2, 2⟩, ⟨4, 4⟩, ⟨12, 4⟩, ⟨16, 4⟩], .actions 16)
  else if type = bundle then some ([⟨2, 2⟩], .tracks)
  else if type = multiplyConstant then some ([⟨2, 2⟩, ⟨4, 4⟩], .nothing)
  else if type = addConstant then some ([⟨2, 2⟩, ⟨4, 4⟩], .nothing)
  else if type = sum then some ([⟨2, 2⟩], .inputs)
  else if type = exportClient then some ([⟨2, 2⟩, ⟨4, 2⟩, ⟨12, 4⟩, ⟨16, 4⟩, ⟨20, 4⟩], .actions 20)
  else if type = exportDevice then some ([⟨2, 2⟩, ⟨4, 2⟩, ⟨8, 4⟩, ⟨12, 4⟩, ⟨16, 4⟩], .actions 16)
  else if type = exportBucket then some ([⟨2, 2⟩, ⟨4, 4⟩, ⟨8, 4⟩, ⟨12, 4⟩, ⟨16, 4⟩], .actions 16)
  else if type = exportMonitor then some ([⟨2, 2⟩, ⟨4, 2⟩], .nothing)
  else none

section Handlers
variable (o : ByteOrder) (dm : DataModel)

/-- `SwapElement` of an incoming element: where the next one is. `na` is an `int`. -/
def swapElement (e : Nat) (s : Swapping) : Exec (Option Int × Swapping) := do
  let s ← swap s ⟨e, 2⟩
  let type ← o.load 2 s.mem e
  match swapCase type with
  | none => .ok (none, s)
  | some (fixed, varData) => do
    let s ← swapFields (fixed.map (Field.shift e)) s
    match varData with
    | .nothing => .ok (some ((e + sizeofAuElement : Nat) : Int), s)
    | .tracks => do
      let num ← o.load 2 s.mem (e + 2)
      .ok (some ((e + sizeofAuElement + num * sizeofAuInputTrack : Nat) : Int), s)
    | .inputs => do
      let num ← o.load 2 s.mem (e + 2)
      -- SwapShorts
      let s ← swapFields (spaced (e + sizeofAuElement) sizeofCARD16 2 num) s
      .ok (some ((e + sizeofAuElement + pad4 (num * sizeofCARD16) : Nat) : Int), s)
    | .actions off => do
      let num ← o.load 4 s.mem (e + off)
      let na := asInt32 num
      let s ← swapFields (spaced (e + sizeofAuElement) sizeofAuElementAction 4 na.toNat) s
      .ok (some ((e + sizeofAuElement : Nat) + na * sizeofAuElementAction), s)

/-- `for (i = 0; i < *num; i++)` with a body that takes a pointer from one item to the next. The number is read
again in every round, as an item may lie on top of it; it has 32 bits. -/
def forItems (num : Nat) (body : Int → Swapping → Exec (Int × Swapping)) :
    (rounds i : Nat) → Int → Swapping → Exec Swapping
  | 0, _, _, s => .ok s
  | rounds + 1, i, p, s => do
    let n ← o.load 4 s.mem num
    if i < n then do
      let (p, s) ← body p s
      forItems num body rounds (i + 1) p s
    else .ok s

/-- The body of the loop in `SProcAuSetElements`. Without a next element the error is about the type of the
element at `NULL`. -/
def elementBody (e : Int) (s : Swapping) : Exec (Int × Swapping) :=
  if e < 0 then .error .fault
  else do
    match ← swapElement o e.toNat s with
    | (some next, s) => .ok (next, s)
    | (none, _) => .error .fault

/-- The body of the loop in `SProcAuSetElementStates`. -/
def stateBody (p : Int) (s : Swapping) : Exec (Int × Swapping) :=
  if p < 0 then .error .fault
  else do
    let s ← swap s ⟨p.toNat, 4⟩
    .ok (p + Requests.sizeofAuElementState, s)

/-- The body of the loop in `SProcAuSetElementParameters`. The next block is taken to be behind as many bytes as
the parameters have. -/
def parametersBody (p : Int) (s : Swapping) : Exec (Int × Swapping) :=
  if p < 0 then .error .fault
  else do
    let s ← swap s ⟨p.toNat, 4⟩
    let num ← o.load 1 s.mem (p.toNat + 5)
    -- SwapLongs
    let s ← swapFields (spaced (p.toNat + sizeofAuElementParameters) dm.sizeofLong 4 num) s
    .ok (p + num * sizeofCARD32, s)

/-! ### The handlers -/

/-- `REQUEST_AT_LEAST_SIZE`, whose `req_len` is a number of words. -/
def atLeast (size reqLen : Nat) (rest : Exec (Except AuStatus Swapping)) : Exec (Except AuStatus Swapping) :=
  if size / 4 > reqLen then .ok (.error auBadLength) else rest

/-- `AuSwappedProcVector`: what the handler of the type makes of the request, before it calls that of
`AuProcVector`. There is none where both vectors have the same handler. -/
def sproc (type : Nat) (b : List UInt8) : Option (Exec (Except AuStatus Swapping)) :=
  let s : Swapping := { mem := b }
  let reqLen := b.length / 4
  -- SProcAuListDevices
  if type = listDevices then some do
    let s ← swapFields [⟨2, 2⟩] s
    atLeast sizeofAuReq reqLen do
      let s ← swapFields (auDeviceAttributes.map (Field.shift sizeofAuReq)) s
      .ok (.ok s)
  -- SProcAuSetDeviceAttributes
  else if type = setDeviceAttributes then some do
    let s ← swapFields [⟨2, 2⟩] s
    atLeast sizeofAuResourceReq reqLen do
      let s ← swapFields (⟨4, 4⟩ :: auDeviceAttributes.map (Field.shift sizeofAuResourceReq)) s
      .ok (.ok s)
  -- SProcAuCreateBucket
  else if type = createBucket then some do
    let s ← swapFields [⟨2, 2⟩] s
    atLeast sizeofAuResourceReq reqLen do
      let s ← swapFields (⟨4, 4⟩ :: auBucketAttributes.map (Field.shift sizeofAuResourceReq)) s
      .ok (.ok s)
  -- SProcAuListBuckets
  else if type = listBuckets then some do
    let s ← swapFields [⟨2, 2⟩] s
    atLeast sizeofAuReq reqLen do
      let s ← swapFields (auBucketAttributes.map (Field.shift sizeofAuReq)) s
      .ok (.ok s)
  -- SProcAuSetElements
  else if type = setElements then some do
    let s ← swapFields [⟨2, 2⟩, ⟨4, 4⟩, ⟨8, 4⟩] s
    atLeast sizeofAuSetElementsReq reqLen do
      let s ← forItems o 8 (elementBody o) (2 ^ 32) 0 sizeofAuSetElementsReq s
      .ok (.ok s)
  -- SProcAuSetElementStates
  else if type = getElementStates ∨ type = setElementStates then some do
    let s ← swapFields [⟨2, 2⟩, ⟨4, 4⟩] s
    atLeast sizeofAuElementStatesReq reqLen do
      let s ← forItems o 4 stateBody (2 ^ 32) 0 sizeofAuElementStatesReq s
      .ok (.ok s)
  -- SProcAuSetElementParameters
  else if type = setElementParameters then some do
    let s ← swapFields [⟨2, 2⟩, ⟨4, 4⟩] s
    atLeast sizeofAuSetElementParametersReq reqLen do
      let s ← forItems o 4 (parametersBody o dm) (2 ^ 32) 0 sizeofAuSetElementParametersReq s
      .ok (.ok s)
  -- SProcAuWriteElement
  else if type = writeElement then some do
    let s ← swapFields [⟨2, 2⟩, ⟨4, 4⟩, ⟨8, 4⟩] s
    atLeast sizeofAuWriteElementReq reqLen (.ok (.ok s))
  -- SProcAuReadElement
  else if type = readElement then some do
    let s ← swapFields [⟨2, 2⟩, ⟨4, 4⟩, ⟨8, 4⟩] s
    atLeast sizeofAuReadElementReq reqLen (.ok (.ok s))
  -- SProcAuResourceReq
  else if type ∈ resourceReqs then some do
    let s ← swapFields [⟨2, 2⟩] s
    atLeast sizeofAuResourceReq reqLen do
      let s ← swapFields [⟨4, 4⟩] s
      .ok (.ok s)
  -- SProcAuSimpleReq
  else if type = getCloseDownMode ∨ type = setCloseDownMode then some do
    let s ← swapFields [⟨2, 2⟩] s
    .ok (.ok s)
  else none

/-- The types whose handler in `AuSwappedProcVector` is another one. -/
def swappedTypes : List Nat :=
  [listDevices, setDeviceAttributes, createBucket, listBuckets, setElements, getElementStates, setElementStates,
    setElementParameters, writeElement, readElement, getCloseDownMode, setCloseDownMode] ++ resourceReqs

/-- The handlers of `AuProcVector`, on a server `σ` and with replies `ρ`. -/
structure ProcVector (σ ρ : Type) where
  proc : (type : Nat) → List UInt8 → σ → σ × Except AuStatus ρ
  /-- A handler that both vectors have sees no more of a request than its length. -/
  shared : ∀ type ∉ swappedTypes, ∀ b b' : List UInt8, b.length = b'.length → proc type b = proc type b'

variable {σ ρ : Type} (v : ProcVector σ ρ)

def dispatch (b : List UInt8) (x : σ) : σ × Except AuStatus ρ := v.proc (reqType b) b x

def dispatchSwapped (b : List UInt8) (x : σ) : Exec (σ × Except AuStatus ρ) :=
  match sproc o dm (reqType b) b with
  | none => .ok (v.proc (reqType b) b x)
  | some run => do
    match ← run with
    | .error status => .ok (x, .error status)
    | .ok s => .ok (v.proc (reqType b) s.mem x)

end Handlers

/-! ### What the bodies of the loops swap -/

section Spans
variable (c : ByteOrder) (dm : DataModel) (m : List UInt8)

/-- The numbers of the element at `e` in a request of the byte order `c`, and where `SwapElement` takes the next
one to be. Its number of actions may be negative. -/
def elementSpan (e : Int) : Option (List Field × Int) :=
  if e < 0 then none
  else
    let p := e.toNat
    let type := typeAt c m p
    (varBytes c m p).map fun n =>
      if (actionsAt type).isSome then
        let na := asInt32 (numActionsAt c m p)
        (fieldsOfElement type p na.toNat, (p + sizeofAuElement : Nat) + na * sizeofAuElementAction)
      else (fieldsOfElement type p (itemsAt c m p), (p + sizeofAuElement + n : Nat))

def stateSpan (p : Int) : Option (List Field × Int) :=
  if p < 0 then none else some ([⟨p.toNat, 4⟩], p + Requests.sizeofAuElementState)

def parametersSpan (p : Int) : Option (List Field × Int) :=
  if p < 0 ∨ m.length < p.toNat + 6 then none
  else
    let num := numParametersAt c m p.toNat
    some (⟨p.toNat, 4⟩ :: spaced (p.toNat + sizeofAuElementParameters) dm.sizeofLong 4 num, p + num * sizeofCARD32)

end Spans

/-- The body swaps the numbers of the span, and goes on where it says. -/
def Spans (body : Int → Swapping → Exec (Int × Swapping)) (span : List UInt8 → Int → Option (List Field × Int)) : Prop :=
  ∀ p s, body p s = do
    let (l, next) ← Exec.deref (span s.mem p)
    let s ← swapFields l s
    .ok (next, s)

section
variable {o : ByteOrder} {dm : DataModel} {m : List UInt8} {s : Swapping} {type off p items : Nat}

/-- `SwapElement` knows the types of `Aproto.h`, their numbers and what is behind them. -/
theorem swapCase_eq (type : Nat) :
    swapCase type =
      match actionsAt type with
      | some off => some (elementNumbers type, .actions off)
      | none =>
        if type = bundle then some (elementNumbers type, .tracks)
        else if type = sum then some (elementNumbers type, .inputs)
        else if type = multiplyConstant ∨ type = addConstant ∨ type = exportMonitor then
          some (elementNumbers type, .nothing)
        else none := by
  by_cases ht : type < 14
  · revert type
    decide
  · have hswap : swapCase type = none := by
      rw [swapCase, if_neg, if_neg, if_neg, if_neg, if_neg, if_neg, if_neg, if_neg, if_neg, if_neg, if_neg, if_neg]
      all_goals
        rintro rfl
        exact ht (by decide)
    have hacts : actionsAt type = none := by
      rw [actionsAt, if_neg, if_neg, if_neg, if_neg, if_neg, if_neg, if_neg]
      all_goals
        rintro rfl
        exact ht (by decide)
    rw [hswap, hacts]
    dsimp only
    rw [if_neg, if_neg, if_neg]
    · rintro (rfl | rfl | rfl) <;> exact ht (by decide)
    · rintro rfl
      exact ht (by decide)
    · rintro rfl
      exact ht (by decide)

theorem numActions_mem (h : actionsAt type = some off) : ⟨off, 4⟩ ∈ elementNumbers type := by
  have hall : ∀ type < 14, ∀ off ∈ actionsAt type, ⟨off, 4⟩ ∈ elementNumbers type := by decide
  refine hall type ?_ off h
  by_contra ht
  rw [actionsAt, if_neg, if_neg, if_neg, if_neg, if_neg, if_neg, if_neg] at h
  · cases h
  all_goals
    rintro rfl
    exact ht (by decide)

/-- The type and the fixed part of an element are swapped first. -/
theorem swapFields_element (hp : Field.Inside s.mem ⟨p, 2⟩) :
    swapFields (fieldsOfElement type p items) s =
      swapFields ((elementNumbers type).map (Field.shift p))
        { mem := Field.reverse ⟨p, 2⟩ s.mem, swapped := s.swapped ++ [⟨p, 2⟩] } >>=
      swapFields (itemFields type p items) := by
  rw [fieldsOfElement, swapFields_append, swapFields_cons, swap_ok hp, Exec.ok_bind]

/-- A number of the fixed part is read when the part is swapped. -/
theorem load_swapped {f : Field} (hf : f ∈ elementNumbers type)
    (h : ∀ f ∈ (⟨0, 2⟩ :: elementNumbers type).map (Field.shift p), f.Inside m) :
    o.load f.width (swapAll ((⟨0, 2⟩ :: elementNumbers type).map (Field.shift p)) m) (p + f.pos) =
      .ok (o.other.read f.width m (p + f.pos)) := by
  have hmem : Field.shift p f ∈ (⟨0, 2⟩ :: elementNumbers type).map (Field.shift p) :=
    List.mem_map_of_mem (List.mem_cons_of_mem _ hf)
  have hin : (Field.shift p f).Inside (swapAll ((⟨0, 2⟩ :: elementNumbers type).map (Field.shift p)) m) :=
    inside_swapAll.2 (h _ hmem)
  have hread := read_swapAll (o := o.other) (ordered_shift (elementNumbers_bounds type).1 p) h hmem
  rw [ByteOrder.other_other] at hread
  exact (ByteOrder.load_ok hin).trans (congrArg _ hread)

/-- What is done behind the fixed part matters only when that is inside. -/
theorem bind_fixed {β : Type} {X Y : Swapping → Exec β} (hp : Field.Inside s.mem ⟨p, 2⟩)
    (h : (∀ f ∈ (⟨0, 2⟩ :: elementNumbers type).map (Field.shift p), f.Inside s.mem) →
      X { mem := swapAll ((⟨0, 2⟩ :: elementNumbers type).map (Field.shift p)) s.mem,
          swapped := s.swapped ++ (⟨0, 2⟩ :: elementNumbers type).map (Field.shift p) } =
        Y { mem := swapAll ((⟨0, 2⟩ :: elementNumbers type).map (Field.shift p)) s.mem,
            swapped := s.swapped ++ (⟨0, 2⟩ :: elementNumbers type).map (Field.shift p) }) :
    swapFields ((elementNumbers type).map (Field.shift p))
        { mem := Field.reverse ⟨p, 2⟩ s.mem, swapped := s.swapped ++ [⟨p, 2⟩] } >>= X =
      swapFields ((elementNumbers type).map (Field.shift p))
        { mem := Field.reverse ⟨p, 2⟩ s.mem, swapped := s.swapped ++ [⟨p, 2⟩] } >>= Y := by
  by_cases hin : ∀ f ∈ (elementNumbers type).map (Field.shift p), f.Inside s.mem
  · rw [swapFields_ok fun f hf => Field.inside_reverse.2 (hin f hf), Exec.ok_bind, Exec.ok_bind, List.append_assoc]
    refine h fun f hf => ?_
    rcases List.mem_cons.1 hf with rfl | hf
    · exact hp
    · exact hin f hf
  · push Not at hin
    obtain ⟨f, hf, hno⟩ := hin
    rw [swapFields_fault hf fun h => hno (Field.inside_reverse.1 h), Exec.error_bind, Exec.error_bind]

theorem elementBody_spans : Spans (elementBody o) (elementSpan o.other) := by
  intro e s
  unfold elementBody elementSpan
  by_cases he : e < 0
  · rw [if_pos he, if_pos he]
    rfl
  rw [if_neg he, if_neg he]
  dsimp only
  generalize e.toNat = p
  by_cases hp : Field.Inside s.mem ⟨p, 2⟩
  · have htype : o.load 2 (Field.reverse ⟨p, 2⟩ s.mem) p = .ok (typeAt o.other s.mem p) := by
      have hin : Field.Inside (Field.reverse ⟨p, 2⟩ s.mem) ⟨p, 2⟩ := Field.inside_reverse.2 hp
      have hr : o.read 2 (Field.reverse ⟨p, 2⟩ s.mem) p = o.other.read 2 s.mem p := Field.read_reverse hp
      rw [ByteOrder.load_ok hin, hr]
      rfl
    rw [swapElement, swap_ok hp, Exec.ok_bind]
    dsimp only
    rw [htype, Exec.ok_bind, swapCase_eq]
    generalize ht : typeAt o.other s.mem p = type
    cases ha : actionsAt type with
    | some off =>
      have hv : varBytes o.other s.mem p = some (numActionsAt o.other s.mem p * sizeofAuElementAction) := by
        simp [varBytes, ht, ha]
      rw [hv, Option.map_some, Exec.deref_some, Exec.ok_bind]
      dsimp only
      rw [if_pos (by rfl)]
      dsimp only
      rw [swapFields_element hp, bind_assoc, bind_assoc]
      refine bind_fixed hp fun hfix => ?_
      have hnum : numActionsAt o.other s.mem p = o.other.read 4 s.mem (p + off) := by
        simp [numActionsAt, ht, ha]
      have hitems : ∀ items, itemFields type p items = spaced (p + sizeofAuElement) sizeofAuElementAction 4 items :=
        fun items => if_pos (by rw [ha]; rfl)
      dsimp only
      rw [load_swapped (numActions_mem ha) hfix, Exec.ok_bind, hnum, hitems, bind_assoc]
      rfl
    | none =>
      dsimp only
      have hitems : type ≠ sum → ∀ items, itemFields type p items = [] := by
        intro hs items
        rw [itemFields, if_neg (by rw [ha]; exact Bool.false_ne_true), if_neg hs]
      have hno : ¬ (none : Option Nat).isSome = true := Bool.false_ne_true
      have hv : varBytes o.other s.mem p =
          if type = bundle then some (o.other.read 2 s.mem (p + 2) * sizeofAuInputTrack)
          else if type = sum then some (pad4 (o.other.read 2 s.mem (p + 2) * sizeofCARD16))
          else if type = multiplyConstant ∨ type = addConstant ∨ type = exportMonitor then some 0
          else none := by
        rw [varBytes]
        rw [ht, ha, if_neg hno]
      rw [hv]
      by_cases hb : type = bundle
      · have hnum : ⟨2, 2⟩ ∈ elementNumbers type := by
          rw [hb]
          decide
        rw [if_pos hb, if_pos hb, Option.map_some, Exec.deref_some, Exec.ok_bind]
        dsimp only
        rw [if_neg hno, swapFields_element hp, bind_assoc, bind_assoc]
        refine bind_fixed hp fun hfix => ?_
        dsimp only
        rw [load_swapped hnum hfix, Exec.ok_bind, hitems (by rw [hb]; decide)]
        rfl
      rw [if_neg hb, if_neg hb]
      by_cases hs : type = sum
      · have hnum : ⟨2, 2⟩ ∈ elementNumbers type := by
          rw [hs]
          decide
        have hitems : ∀ items, itemFields type p items = spaced (p + sizeofAuElement) sizeofCARD16 2 items := by
          intro items
          rw [itemFields, if_neg (by rw [ha]; exact hno), if_pos hs]
        have hcount : itemsAt o.other s.mem p = o.other.read 2 s.mem (p + 2) := by rw [itemsAt, ht, if_pos hs]
        rw [if_pos hs, if_pos hs, Option.map_some, Exec.deref_some, Exec.ok_bind]
        dsimp only
        rw [if_neg hno, swapFields_element hp, bind_assoc, bind_assoc]
        refine bind_fixed hp fun hfix => ?_
        dsimp only
        rw [load_swapped hnum hfix, Exec.ok_bind, hitems, hcount, bind_assoc]
        rfl
      rw [if_neg hs, if_neg hs]
      by_cases hk : type = multiplyConstant ∨ type = addConstant ∨ type = exportMonitor
      · rw [if_pos hk, if_pos hk, Option.map_some, Exec.deref_some, Exec.ok_bind]
        dsimp only
        rw [if_neg hno, swapFields_element hp, bind_assoc, bind_assoc]
        refine bind_fixed hp fun hfix => ?_
        dsimp only
        rw [hitems hs]
        rfl
      · rw [if_neg hk, if_neg hk]
        rfl
  · -- not even the type is there
    have hl : ∀ type items, ∃ f ∈ fieldsOfElement type p items, ¬ f.Inside s.mem := fun type items =>
      ⟨⟨p, 2⟩, List.mem_cons_self, hp⟩
    rw [swapElement, swap_fault hp, Exec.error_bind]
    cases hv : varBytes o.other s.mem p with
    | none => rfl
    | some n =>
      rw [Option.map_some, Exec.deref_some, Exec.ok_bind]
      split
      · obtain ⟨f, hf, hno⟩ := hl (typeAt o.other s.mem p) (asInt32 (numActionsAt o.other s.mem p)).toNat
        dsimp only
        rw [swapFields_fault hf hno]
        rfl
      · obtain ⟨f, hf, hno⟩ := hl (typeAt o.other s.mem p) (itemsAt o.other s.mem p)
        dsimp only
        rw [swapFields_fault hf hno]
        rfl

theorem stateBody_spans : Spans stateBody fun _ => stateSpan := by
  intro p s
  unfold stateBody stateSpan
  dsimp only
  by_cases hp : p < 0
  · rw [if_pos hp, if_pos hp]
    rfl
  · rw [if_neg hp, if_neg hp, Exec.deref_some, Exec.ok_bind]
    dsimp only
    rw [swapFields_cons, bind_assoc]
    rfl

theorem parametersBody_spans : Spans (parametersBody o dm) (parametersSpan o dm) := by
  intro p s
  unfold parametersBody parametersSpan
  by_cases hp : p < 0
  · rw [if_pos hp, if_pos (.inl hp)]
    rfl
  rw [if_neg hp]
  generalize hq : p.toNat = q
  by_cases hlen : s.mem.length < q + 6
  · rw [if_pos (.inr hlen)]
    by_cases hin : Field.Inside s.mem ⟨q, 4⟩
    · rw [swap_ok hin, Exec.ok_bind, ByteOrder.load_fault (by rw [Field.length_reverse]; omega)]
      rfl
    · rw [swap_fault hin]
      rfl
  · have hin : Field.Inside s.mem ⟨q, 4⟩ := by
      simp only [Field.Inside]
      omega
    have hnum : o.read 1 (Field.reverse ⟨q, 4⟩ s.mem) (q + 5) = numParametersAt o s.mem q :=
      Field.read_reverse_of_disjoint hin (.inr (by dsimp only; omega))
    rw [if_neg (by omega), Exec.deref_some, Exec.ok_bind]
    dsimp only
    rw [swapFields_cons, swap_ok hin, Exec.ok_bind, Exec.ok_bind, ByteOrder.load_ok (by rw [Field.length_reverse]; omega), hnum,
      Exec.ok_bind]

end

/-! ### Loops over items -/

/-- Every item that the loop comes to is inside. -/
def ItemsInside (o : ByteOrder) (num : Nat) (span : List UInt8 → Int → Option (List Field × Int)) :
    (rounds i : Nat) → Int → List UInt8 → Prop
  | 0, _, _, _ => True
  | rounds + 1, i, p, m =>
    i < o.read 4 m num →
      ∃ l next, span m p = some (l, next) ∧ (∀ f ∈ l, f.Inside m) ∧
        ItemsInside o num span rounds (i + 1) next (swapAll l m)

/-- In the block with all its numbers swapped, so many items from `p` on have the numbers `fields`: each span is
that of the next item. -/
def ItemsAt (span : List UInt8 → Int → Option (List Field × Int)) (r : List UInt8) :
    (count : Nat) → Int → (fields : List Field) → Prop
  | 0, _, fields => fields = []
  | count + 1, p, fields =>
    ∃ l rest next, fields = l ++ rest ∧ span (swapAll fields r) p = some (l, next) ∧ ItemsAt span r count next rest

section
variable {o : ByteOrder} {num rounds i count : Nat} {p : Int} {s : Swapping} {r : List UInt8} {fields swapped : List Field}
  {body : Int → Swapping → Exec (Int × Swapping)} {span : List UInt8 → Int → Option (List Field × Int)}

theorem forItems_inside (hb : Spans body span) (h : num + 4 ≤ s.mem.length) :
    (∃ t, forItems o num body rounds i p s = .ok t) ↔ ItemsInside o num span rounds i p s.mem := by
  induction rounds generalizing i p s with
  | zero => exact ⟨fun _ => trivial, fun _ => ⟨s, rfl⟩⟩
  | succ rounds ih =>
    rw [forItems, ByteOrder.load_ok h, Exec.ok_bind, ItemsInside]
    by_cases hi : i < o.read 4 s.mem num
    · rw [if_pos hi, hb p s]
      cases hs : span s.mem p with
      | none =>
        constructor
        · rintro ⟨t, ht⟩
          cases ht
        · intro hc
          obtain ⟨l, next, hl, -⟩ := hc hi
          cases hl
      | some x =>
        obtain ⟨l, next⟩ := x
        rw [Exec.deref_some, Exec.ok_bind]
        dsimp only
        by_cases hin : ∀ f ∈ l, f.Inside s.mem
        · rw [swapFields_ok hin, Exec.ok_bind, Exec.ok_bind]
          dsimp only
          rw [ih (by rwa [length_swapAll])]
          constructor
          · intro hc _
            exact ⟨l, next, rfl, hin, hc⟩
          · intro hc
            obtain ⟨l', next', hl, -, hc⟩ := hc hi
            cases hl
            exact hc
        · have hout := hin
          push Not at hout
          obtain ⟨f, hf, hno⟩ := hout
          rw [swapFields_fault hf hno]
          constructor
          · rintro ⟨t, ht⟩
            cases ht
          · intro hc
            obtain ⟨l', next', hl, hin', -⟩ := hc hi
            cases hl
            exact absurd hin' hin
    · rw [if_neg hi]
      exact ⟨fun _ hlt => absurd hlt hi, fun _ => ⟨s, rfl⟩⟩

/-- A loop over items that lie one behind the other swaps the numbers of each once. -/
theorem forItems_items (hb : Spans body span) (ho : Ordered fields)
    (hin : ∀ f ∈ fields, f.Inside r ∧ num + 4 ≤ f.pos) (hnum : num + 4 ≤ r.length)
    (hcount : o.read 4 r num = i + count) (hr : count < rounds) (h : ItemsAt span r count p fields) :
    forItems o num body rounds i p { mem := swapAll fields r, swapped := swapped } =
      .ok { mem := r, swapped := swapped ++ fields } := by
  induction count generalizing i p rounds fields swapped with
  | zero =>
    obtain ⟨rounds, rfl⟩ : ∃ n, rounds = n + 1 := ⟨rounds - 1, by omega⟩
    cases h
    rw [swapAll_nil, List.append_nil, forItems, ByteOrder.load_ok hnum, Exec.ok_bind, hcount, if_neg (by omega)]
  | succ count ih =>
    obtain ⟨rounds, rfl⟩ : ∃ n, rounds = n + 1 := ⟨rounds - 1, by omega⟩
    obtain ⟨l, rest, next, rfl, hspan, h⟩ := h
    have hread : o.read 4 (swapAll (l ++ rest) r) num = o.read 4 r num :=
      read_swapAll_of_disjoint (fun f hf => (hin f hf).1) fun f hf => .inl (hin f hf).2
    rw [forItems, ByteOrder.load_ok (by rwa [length_swapAll]), Exec.ok_bind, hread, hcount, if_pos (by omega), hb,
      hspan, Exec.deref_some, Exec.ok_bind]
    dsimp only
    rw [swapFields_cancel _ ho fun f hf => (hin f hf).1, Exec.ok_bind, Exec.ok_bind]
    dsimp only
    rw [ih (List.pairwise_append.1 ho).2.1 (fun f hf => hin f (List.mem_append_right _ hf)) (by omega) (by omega) h,
      List.append_assoc]

end

/-! ### Well-formed requests -/

section
variable {o : ByteOrder} {dm : DataModel} {r : List UInt8} {fields : List Field} {e n p q count type off : Nat}

/-- An element is read as it was when all its numbers were swapped. -/
theorem varBytes_swapAll (ho : Ordered fields) (hin : ∀ f ∈ fields, f.Inside r)
    (hf : ∀ f ∈ fieldsOfElement (typeAt o r p) p (itemsAt o r p), f ∈ fields) :
    typeAt o.other (swapAll fields r) p = typeAt o r p ∧
      numActionsAt o.other (swapAll fields r) p = numActionsAt o r p ∧
      varBytes o.other (swapAll fields r) p = varBytes o r p ∧ itemsAt o.other (swapAll fields r) p = itemsAt o r p := by
  have htype : typeAt o.other (swapAll fields r) p = typeAt o r p :=
    read_swapAll (f := ⟨p, 2⟩) ho hin (hf _ List.mem_cons_self)
  have hread : ∀ f ∈ elementNumbers (typeAt o r p), o.other.read f.width (swapAll fields r) (p + f.pos) =
      o.read f.width r (p + f.pos) := by
    intro f hn
    refine read_swapAll (f := Field.shift p f) ho hin (hf _ ?_)
    exact List.mem_append_left _ (List.mem_cons_of_mem _ (List.mem_map_of_mem hn))
  have hacts : numActionsAt o.other (swapAll fields r) p = numActionsAt o r p := by
    unfold numActionsAt
    rw [htype]
    cases ha : actionsAt (typeAt o r p) with
    | none => rfl
    | some off => exact hread ⟨off, 4⟩ (numActions_mem ha)
  have hinputs : typeAt o r p = bundle ∨ typeAt o r p = sum →
      o.other.read 2 (swapAll fields r) (p + 2) = o.read 2 r (p + 2) := by
    intro ht
    refine hread ⟨2, 2⟩ ?_
    rcases ht with ht | ht <;> rw [ht] <;> decide
  refine ⟨htype, hacts, ?_, ?_⟩
  · unfold varBytes
    dsimp only
    rw [htype, hacts]
    by_cases ht : typeAt o r p = bundle ∨ typeAt o r p = sum
    · rw [hinputs ht]
    · rw [not_or] at ht
      rw [if_neg ht.1, if_neg ht.1, if_neg ht.2, if_neg ht.2]
  · unfold itemsAt
    rw [htype, hacts]
    by_cases ht : typeAt o r p = sum
    · rw [hinputs (.inr ht)]
    · rw [if_neg ht, if_neg ht]

theorem asInt32_small (h : n < 2 ^ 31) : asInt32 n = n := by
  unfold asInt32
  omega

theorem elementSpan_eq (hn : varBytes o r p = some n) (hsmall : n < 2 ^ 31) :
    elementSpan o r p =
      some (fieldsOfElement (typeAt o r p) p (itemsAt o r p), ((p + n + sizeofAuElement : Nat) : Int)) := by
  rw [elementSpan, if_neg (by omega), Int.toNat_natCast]
  dsimp only
  rw [hn, Option.map_some]
  by_cases ha : (actionsAt (typeAt o r p)).isSome
  · have hsum : typeAt o r p ≠ sum := by
      rintro hs
      rw [hs] at ha
      cases ha
    have hcount : itemsAt o r p = numActionsAt o r p := if_neg hsum
    have hsize : n = numActionsAt o r p * sizeofAuElementAction := by
      rw [varBytes] at hn
      rw [if_pos ha] at hn
      exact (Option.some.inj hn).symm
    have hna : asInt32 (numActionsAt o r p) = (numActionsAt o r p : Nat) := by
      refine asInt32_small ?_
      unfold sizeofAuElementAction at hsize
      omega
    rw [if_pos ha, hna, Int.toNat_natCast, hcount, hsize]
    congr 2
    push_cast
    omega
  · rw [if_neg ha]
    congr 3
    omega

theorem elementSpan_swapAll (ho : Ordered fields) (hin : ∀ f ∈ fields, f.Inside r)
    (hf : ∀ f ∈ fieldsOfElement (typeAt o r p) p (itemsAt o r p), f ∈ fields) (hn : varBytes o r p = some n)
    (hsmall : n < 2 ^ 31) :
    elementSpan o.other (swapAll fields r) p =
      some (fieldsOfElement (typeAt o r p) p (itemsAt o r p), ((p + n + sizeofAuElement : Nat) : Int)) := by
  obtain ⟨htype, -, hvar, hitems⟩ := varBytes_swapAll ho hin hf
  rw [elementSpan_eq (hvar.trans hn) hsmall, htype, hitems]

theorem elements_items (h : walkEnd o r count p = some e) (he : e ≤ r.length) (hs : r.length < 2 ^ 18) :
    ItemsAt (elementSpan o.other) r count p (elementsFields o r count p) := by
  induction count generalizing p with
  | zero => rfl
  | succ count ih =>
    have ⟨hord, hbound⟩ := elementsFields_bounds h
    rw [walkEnd] at h
    split at h
    · obtain ⟨n, hn, h⟩ := Option.bind_eq_some_iff.1 h
      have hle := walkEnd_ge h
      have hspan := elementSpan_swapAll hord (fun f hf => (hbound f hf).2.trans he)
        (fun f hf => List.mem_append_left _ hf) hn (by omega)
      refine ⟨_, elementsFields o r count (p + n + sizeofAuElement), _, ?_, hspan, ih h⟩
      rw [elementsFields, hn, Option.getD_some]
    · cases h

theorem states_items (count p : Nat) :
    ItemsAt (fun _ => stateSpan) r count p (spaced p Requests.sizeofAuElementState 4 count) := by
  induction count generalizing p with
  | zero => rfl
  | succ count ih =>
    refine ⟨[⟨p, 4⟩], spaced (p + Requests.sizeofAuElementState) Requests.sizeofAuElementState 4 count,
      (p + Requests.sizeofAuElementState : Nat),
      spaced_succ .., ?_, ih _⟩
    dsimp only
    rw [stateSpan, if_neg (by omega), Int.toNat_natCast]
    rfl

/-- One block of parameters is swapped as it should be if its parameters are as far apart as a `long` is wide. -/
theorem parameters_items (h : p + 6 ≤ r.length) (hlong : dm = .ilp32 ∨ numParametersAt o r p ≤ 1)
    (hin : ∀ f ∈ parametersFields o r 1 p, f.Inside r) :
    ItemsAt (parametersSpan o dm) r 1 p (parametersFields o r 1 p) := by
  have hnum : numParametersAt o (swapAll (parametersFields o r 1 p) r) p = numParametersAt o r p := by
    refine read_swapAll_of_disjoint hin fun f hf => ?_
    rw [parametersFields, parametersFields, List.append_nil] at hf
    rcases List.mem_cons.1 hf with rfl | hf
    · exact .inr (by dsimp only; omega)
    · obtain ⟨i, -, rfl⟩ := mem_spaced.1 hf
      left
      unfold sizeofAuElementParameters
      dsimp only
      omega
  have hstride : spaced (p + sizeofAuElementParameters) dm.sizeofLong 4 (numParametersAt o r p) =
      spaced (p + sizeofAuElementParameters) sizeofCARD32 4 (numParametersAt o r p) := by
    rcases hlong with rfl | hle
    · rfl
    · obtain hz | hone : numParametersAt o r p = 0 ∨ numParametersAt o r p = 1 := by omega
      · rw [hz]
        rfl
      · rw [hone]
        simp [spaced]
  refine ⟨parametersFields o r 1 p, [], p + numParametersAt o r p * sizeofCARD32, (List.append_nil _).symm, ?_, rfl⟩
  rw [parametersSpan, if_neg (by rw [length_swapAll]; omega), Int.toNat_natCast]
  dsimp only
  rw [hnum, hstride, parametersFields, parametersFields, List.append_nil]

end

/-- Through `AuSwappedProcVector` the request of a client of the other byte order does what it does through
`AuProcVector` in the order of the server, and every number of it is swapped once. -/
structure Transparent (o : ByteOrder) (dm : DataModel) (r : List UInt8) : Prop where
  same : ∀ {σ ρ : Type} (v : ProcVector σ ρ) (x : σ), dispatchSwapped o dm v (foreign o r) x = .ok (dispatch v r x)
  once : ∀ run, sproc o dm (reqType r) (foreign o r) = some run →
    ∃ s, run = .ok (.ok s) ∧ s.swapped.Perm (layout o r)

/-- Of several blocks of parameters only the first is found, and its parameters only if they are as far apart as a
`long` is wide. -/
def ParametersFound (o : ByteOrder) (dm : DataModel) (r : List UInt8) : Prop :=
  reqType r = setElementParameters →
    countAt o r 4 = 0 ∨ countAt o r 4 = 1 ∧ (dm = .ilp32 ∨ numParametersAt o r sizeofAuSetElementParametersReq ≤ 1)

section
variable {o : ByteOrder} {dm : DataModel} {r : List UInt8} {l k : List Field} {size type : Nat}

theorem sproc_isSome (o : ByteOrder) (dm : DataModel) (h : type ∈ swappedTypes) (b : List UInt8) : (sproc o dm type b).isSome := by
  unfold swappedTypes resourceReqs at h
  fin_cases h <;> rfl

/-- A handler that swaps some of the numbers before it checks the length, and the others behind it. -/
theorem atLeast_ok (h : WellFormed o r) (hl : layout o r = l ++ k) (hs : size ≤ r.length) (body : Swapping → Exec Swapping)
    (hb : body { mem := swapAll k r, swapped := l } = .ok { mem := r, swapped := l ++ k }) :
    (do
      let s ← swapFields l { mem := foreign o r }
      atLeast size ((foreign o r).length / 4) do
        let s ← body s
        .ok (.ok s)) = .ok (.ok { mem := r, swapped := layout o r }) := by
  obtain ⟨ho, hin⟩ := ordered_layout h
  rw [foreign, length_swapAll, hl] at *
  rw [swapFields_cancel _ ho hin, Exec.ok_bind, atLeast, if_neg (by omega), List.nil_append, hb, Exec.ok_bind]

/-- What is left of a request of a client of the other byte order is the request. -/
theorem sproc_foreign (h : WellFormed o r) (hp : ParametersFound o dm r) {run : Exec (Except AuStatus Swapping)}
    (hrun : sproc o dm (reqType r) (foreign o r) = some run) :
    run = .ok (.ok { mem := r, swapped := layout o r }) := by
  obtain ⟨ho, hin⟩ := ordered_layout h
  have hc := h.complete
  have hhead := h.header
  have hlen := h.short
  unfold Complete at hc
  unfold sproc at hrun
  dsimp only at hc hrun
  have hfields : ∀ {l k : List Field}, layout o r = l ++ k → ∀ f ∈ k, f.Inside r := by
    intro l k hl f hf
    exact hin f (hl ▸ List.mem_append_right _ hf)
  have hfixed : ∀ {l k : List Field}, layout o r = l ++ k →
      swapFields k { mem := swapAll k r, swapped := l } = .ok { mem := r, swapped := l ++ k } := by
    intro l k hl
    have hk : Ordered (k ++ []) := by
      rw [List.append_nil]
      rw [hl] at ho
      exact (List.pairwise_append.1 ho).2.1
    have := swapFields_cancel l hk fun f hf => hfields hl f (by simpa using hf)
    rwa [List.append_nil] at this
  by_cases h₁ : reqType r = listDevices
  · rw [if_pos h₁] at hc hrun
    have hl : layout o r = [⟨2, 2⟩] ++ auDeviceAttributes.map (Field.shift sizeofAuReq) := if_pos h₁
    rw [← Option.some.inj hrun]
    exact atLeast_ok h hl hhead _ (hfixed hl)
  rw [if_neg h₁] at hc hrun
  by_cases h₂ : reqType r = setDeviceAttributes
  · rw [if_pos h₂] at hc hrun
    have hl : layout o r = [⟨2, 2⟩] ++ (⟨4, 4⟩ :: auDeviceAttributes.map (Field.shift sizeofAuResourceReq)) := by
      simp only [layout, if_neg h₁, if_pos h₂]
      rfl
    rw [← Option.some.inj hrun]
    exact atLeast_ok h hl (Nat.le_trans (by decide) hc) _ (hfixed hl)
  rw [if_neg h₂] at hc hrun
  by_cases h₃ : reqType r = createBucket
  · rw [if_pos h₃] at hc hrun
    have hl : layout o r = [⟨2, 2⟩] ++ (⟨4, 4⟩ :: auBucketAttributes.map (Field.shift sizeofAuResourceReq)) := by
      simp only [layout, if_neg h₁, if_neg h₂, if_pos h₃]
      rfl
    rw [← Option.some.inj hrun]
    exact atLeast_ok h hl (Nat.le_trans (by decide) hc) _ (hfixed hl)
  rw [if_neg h₃] at hc hrun
  by_cases h₄ : reqType r = listBuckets
  · rw [if_pos h₄] at hc hrun
    have hl : layout o r = [⟨2, 2⟩] ++ auBucketAttributes.map (Field.shift sizeofAuReq) := by
      simp only [layout, if_neg h₁, if_neg h₂, if_neg h₃, if_pos h₄]
      rfl
    rw [← Option.some.inj hrun]
    exact atLeast_ok h hl hhead _ (hfixed hl)
  rw [if_neg h₄] at hc hrun
  by_cases h₅ : reqType r = setElements
  · rw [if_pos h₅] at hc hrun
    have hl : layout o r = [⟨2, 2⟩, ⟨4, 4⟩, ⟨8, 4⟩] ++ elementsFields o r (countAt o r 8) sizeofAuSetElementsReq := by
      simp only [layout, if_neg h₁, if_neg h₂, if_neg h₃, if_neg h₄, if_pos h₅]
      rfl
    have hwalk := walkEnd_of_tiles hc.2 hc.1
    obtain ⟨hord, hbound⟩ := elementsFields_bounds hwalk
    have hcount : countAt o r 8 < 2 ^ 32 := ByteOrder.read_lt hc.1
    rw [← Option.some.inj hrun]
    refine atLeast_ok h hl hc.1 _ (forItems_items elementBody_spans hord (fun f hf => ⟨hfields hl f hf, (hbound f hf).1⟩)
      hc.1 (Nat.zero_add _).symm hcount (elements_items hwalk le_rfl hlen))
  rw [if_neg h₅] at hc hrun
  by_cases h₆ : reqType r = getElementStates ∨ reqType r = setElementStates
  · rw [if_pos h₆] at hc hrun
    have hl : layout o r = [⟨2, 2⟩, ⟨4, 4⟩] ++
        spaced sizeofAuElementStatesReq Requests.sizeofAuElementState 4 (countAt o r 4) := by
      simp only [layout, if_neg h₁, if_neg h₂, if_neg h₃, if_neg h₄, if_neg h₅, if_pos h₆]
      rfl
    have hcount : countAt o r 4 < 2 ^ 32 := ByteOrder.read_lt hc.1
    rw [← Option.some.inj hrun]
    refine atLeast_ok h hl hc.1 _ (forItems_items stateBody_spans (ordered_spaced (by decide) _ _)
      (fun f hf => ⟨hfields hl f hf, ?_⟩) hc.1 (Nat.zero_add _).symm hcount (states_items _ _))
    obtain ⟨i, -, rfl⟩ := mem_spaced.1 hf
    exact Nat.le_add_right ..
  rw [if_neg h₆] at hc hrun
  by_cases h₇ : reqType r = setElementParameters
  · rw [if_pos h₇] at hc hrun
    have hl : layout o r = [⟨2, 2⟩, ⟨4, 4⟩] ++ parametersFields o r (countAt o r 4) sizeofAuSetElementParametersReq := by
      simp only [layout, if_neg h₁, if_neg h₂, if_neg h₃, if_neg h₄, if_neg h₅, if_neg h₆, if_pos h₇]
      rfl
    obtain ⟨hord, hbound⟩ := parametersFields_bounds (o := o) (m := r) (countAt o r 4) sizeofAuSetElementParametersReq
    have hitems : countAt o r 4 < 2 ^ 32 ∧
        ItemsAt (parametersSpan o dm) r (countAt o r 4) sizeofAuSetElementParametersReq
          (parametersFields o r (countAt o r 4) sizeofAuSetElementParametersReq) := by
      rcases hp h₇ with h0 | ⟨h1, hlong⟩
      · rw [h0]
        exact ⟨by decide, rfl⟩
      · rw [h1] at hc ⊢
        refine ⟨by decide, parameters_items ?_ hlong fun f hf => hfields hl f (h1 ▸ hf)⟩
        rw [parametersEnd, parametersEnd] at hc
        unfold sizeofAuSetElementParametersReq sizeofAuElementParameters at *
        omega
    rw [← Option.some.inj hrun]
    exact atLeast_ok h hl hc.1 _ (forItems_items parametersBody_spans hord
      (fun f hf => ⟨hfields hl f hf, (hbound f hf).1⟩) hc.1 (Nat.zero_add _).symm hitems.1 hitems.2)
  rw [if_neg h₇] at hc hrun
  have hdata : reqType r = writeElement ∨ reqType r = readElement → layout o r = [⟨2, 2⟩, ⟨4, 4⟩, ⟨8, 4⟩] ++ [] := by
    intro h₈
    simp only [layout, if_neg h₁, if_neg h₂, if_neg h₃, if_neg h₄, if_neg h₅, if_neg h₆, if_neg h₇, if_pos h₈]
    rfl
  by_cases h₈ : reqType r = writeElement
  · rw [if_pos h₈] at hc hrun
    rw [← Option.some.inj hrun]
    exact atLeast_ok h (hdata (.inl h₈)) hc .ok rfl
  rw [if_neg h₈] at hc hrun
  by_cases h₉ : reqType r = readElement
  · rw [if_pos h₉] at hc hrun
    rw [← Option.some.inj hrun]
    exact atLeast_ok h (hdata (.inr h₉)) hc .ok rfl
  rw [if_neg h₉] at hc hrun
  have hno : ¬ (reqType r = writeElement ∨ reqType r = readElement) := by
    rintro (h | h)
    · exact h₈ h
    · exact h₉ h
  by_cases h₁₀ : reqType r ∈ resourceReqs
  · rw [if_pos h₁₀] at hc hrun
    have hl : layout o r = [⟨2, 2⟩] ++ [⟨4, 4⟩] := by
      simp only [layout, if_neg h₁, if_neg h₂, if_neg h₃, if_neg h₄, if_neg h₅, if_neg h₆, if_neg h₇, if_neg hno,
        if_pos h₁₀]
      rfl
    rw [← Option.some.inj hrun]
    exact atLeast_ok h hl hc _ (hfixed hl)
  rw [if_neg h₁₀] at hrun
  split at hrun
  · have hl : layout o r = [⟨2, 2⟩] ++ [] := by
      simp only [layout, if_neg h₁, if_neg h₂, if_neg h₃, if_neg h₄, if_neg h₅, if_neg h₆, if_neg h₇, if_neg hno,
        if_neg h₁₀]
      rfl
    rw [← Option.some.inj hrun]
    exact atLeast_ok h hl (Nat.zero_le _) .ok rfl
  · cases hrun

theorem reqType_foreign (h : WellFormed o r) : reqType (foreign o r) = reqType r := by
  obtain ⟨ho, hin⟩ := ordered_layout h
  have hpos : ∀ f ∈ layout o r, 0 < f.pos := by
    obtain ⟨k, hk⟩ : ∃ k, layout o r = ⟨2, 2⟩ :: k := by
      unfold layout
      dsimp only
      split_ifs <;> exact ⟨_, rfl⟩
    rw [hk] at ho ⊢
    intro f hf
    rcases List.mem_cons.1 hf with rfl | hf
    · exact Nat.zero_lt_two
    · have := (List.pairwise_cons.1 ho).1 f hf
      simp only [Field.Before] at this
      omega
  have hhead := getElem?_swapAll_of_disjoint (i := 0) hin fun f hf => .inl (hpos f hf)
  rw [reqType, reqType, foreign, List.headD_eq_head?_getD, List.headD_eq_head?_getD, List.head?_eq_getElem?,
    List.head?_eq_getElem?, hhead]

/-! ### Blocks of parameters that are not found -/

variable {num rounds i : Nat} {p : Int} {s t : Swapping} {body : Int → Swapping → Exec (Int × Swapping)}
  {span : List UInt8 → Int → Option (List Field × Int)}

/-- What a loop that comes to its end does next. -/
theorem forItems_cases (rounds : Nat) (hb : Spans body span) (h : forItems o num body (rounds + 1) i p s = .ok t) :
    (∃ l next, i < o.read 4 s.mem num ∧ span s.mem p = some (l, next) ∧ (∀ f ∈ l, f.Inside s.mem) ∧
      forItems o num body rounds (i + 1) next { mem := swapAll l s.mem, swapped := s.swapped ++ l } = .ok t) ∨
    ¬ i < o.read 4 s.mem num ∧ t = s := by
  rw [forItems] at h
  obtain ⟨n, hn, h⟩ := Exec.bind_eq_ok.1 h
  have hn : n = o.read 4 s.mem num := by
    by_cases hlen : num + 4 ≤ s.mem.length
    · rw [ByteOrder.load_ok hlen] at hn
      exact (Except.ok.inj hn).symm
    · rw [ByteOrder.load_fault (by omega)] at hn
      cases hn
  rw [hn] at h
  by_cases hi : i < o.read 4 s.mem num
  · rw [if_pos hi, hb] at h
    obtain ⟨⟨next, s'⟩, hs, h⟩ := Exec.bind_eq_ok.1 h
    obtain ⟨⟨l, next'⟩, hspan, hs⟩ := Exec.bind_eq_ok.1 hs
    obtain ⟨s'', hl, hs⟩ := Exec.bind_eq_ok.1 hs
    cases hs
    by_cases hin : ∀ f ∈ l, f.Inside s.mem
    · rw [swapFields_ok hin] at hl
      cases hl
      exact .inl ⟨l, next, hi, Exec.deref_eq_ok.1 hspan, hin, h⟩
    · push Not at hin
      obtain ⟨f, hf, hno⟩ := hin
      rw [swapFields_fault hf hno] at hl
      cases hl
  · rw [if_neg hi] at h
    exact .inr ⟨hi, (Except.ok.inj h).symm⟩

theorem forItems_swapped (hb : Spans body span) (h : forItems o num body rounds i p s = .ok t) :
    ∃ l, t.swapped = s.swapped ++ l := by
  induction rounds generalizing i p s with
  | zero =>
    cases h
    exact ⟨[], (List.append_nil _).symm⟩
  | succ rounds ih =>
    rcases forItems_cases rounds hb h with ⟨l, next, -, -, -, h⟩ | ⟨-, rfl⟩
    · obtain ⟨k, hk⟩ := ih h
      exact ⟨l ++ k, by rw [hk, List.append_assoc]⟩
    · exact ⟨[], (List.append_nil _).symm⟩

theorem parametersSpan_eq_some {m : List UInt8} {q : Int} (h : parametersSpan o dm m q = some (l, p)) :
    ∃ n : Nat, q = n ∧ p = (n + 4 * numParametersAt o m n : Nat) ∧
      l = ⟨n, 4⟩ :: spaced (n + sizeofAuElementParameters) dm.sizeofLong 4 (numParametersAt o m n) := by
  rw [parametersSpan] at h
  split at h
  · cases h
  · cases h
    have hq : (q.toNat : Int) = q := by omega
    refine ⟨q.toNat, hq.symm, ?_, rfl⟩
    unfold sizeofCARD32
    omega

/-- What is swapped of a request with a block of parameters, and of one with more than one. The second block is
looked for four times the number of parameters behind the first. -/
theorem swapped_parameters (hn : 0 < countAt o r 4) (hin : ∀ f ∈ parametersFields o r (countAt o r 4) 8, f.Inside r)
    (hrun : forItems o 4 (parametersBody o dm) (2 ^ 32) 0 8
      { mem := swapAll (parametersFields o r (countAt o r 4) 8) r, swapped := [⟨2, 2⟩, ⟨4, 4⟩] } = .ok t) :
    ∃ rest, t.swapped = [⟨2, 2⟩, ⟨4, 4⟩] ++ (⟨8, 4⟩ :: spaced 16 dm.sizeofLong 4 (numParametersAt o r 8)) ++ rest ∧
      (1 < countAt o r 4 → ∃ rest', rest = ⟨8 + 4 * numParametersAt o r 8, 4⟩ :: rest') := by
  have hbound := (parametersFields_bounds (o := o) (m := r) (countAt o r 4) 8).2
  have hcount : o.read 4 (swapAll (parametersFields o r (countAt o r 4) 8) r) 4 = countAt o r 4 :=
    read_swapAll_of_disjoint hin fun f hf => .inl (hbound f hf).1
  have hnum : numParametersAt o (swapAll (parametersFields o r (countAt o r 4) 8) r) 8 = numParametersAt o r 8 := by
    refine read_swapAll_of_disjoint hin fun f hf => ?_
    obtain ⟨k, hk⟩ : ∃ k, countAt o r 4 = k + 1 := ⟨countAt o r 4 - 1, by omega⟩
    rw [hk, parametersFields] at hf
    rcases List.mem_append.1 hf with hf | hf
    · rcases List.mem_cons.1 hf with rfl | hf
      · exact .inr (by decide)
      · obtain ⟨i, -, rfl⟩ := mem_spaced.1 hf
        left
        unfold sizeofAuElementParameters
        dsimp only
        omega
    · have := (parametersFields_bounds k _).2 f hf
      unfold sizeofAuElementParameters at this
      omega
  rcases forItems_cases (2 ^ 32 - 1) parametersBody_spans hrun with ⟨l, next, -, hl, hlin, hrun⟩ | ⟨hno, -⟩
  · obtain ⟨n, hn8, hnext, hl⟩ := parametersSpan_eq_some hl
    obtain rfl : n = 8 := by omega
    dsimp only at hl hnext hlin
    rw [hnum] at hl hnext
    obtain ⟨rest, hrest⟩ := forItems_swapped parametersBody_spans hrun
    refine ⟨rest, ?_, fun hmore => ?_⟩
    · rw [hrest, hl]
      rfl
    · have hcount' : o.read 4 (swapAll l (swapAll (parametersFields o r (countAt o r 4) 8) r)) 4 = countAt o r 4 := by
        rw [read_swapAll_of_disjoint hlin, hcount]
        intro f hf
        left
        rw [hl] at hf
        rcases List.mem_cons.1 hf with rfl | hf
        · exact Nat.le_refl _
        · obtain ⟨i, -, rfl⟩ := mem_spaced.1 hf
          unfold sizeofAuElementParameters
          dsimp only
          omega
      rcases forItems_cases (2 ^ 32 - 2) parametersBody_spans hrun with ⟨l', next', -, hl', -, hrun⟩ | ⟨hno, -⟩
      · obtain ⟨n, hn', -, hl'⟩ := parametersSpan_eq_some hl'
        obtain rfl : n = 8 + 4 * numParametersAt o r 8 := by omega
        obtain ⟨rest', hrest'⟩ := forItems_swapped parametersBody_spans hrun
        have : rest = l' ++ rest' := by
          rw [hrest] at hrest'
          simpa using hrest'
        exact ⟨_, by rw [this, hl']; rfl⟩
      · dsimp only at hno
        omega
  · dsimp only at hno
    omega

/-- Where the numbers of blocks of parameters are. -/
theorem mem_parametersFields {f : Field} (hn : 0 < countAt o r 4) (hf : f ∈ parametersFields o r (countAt o r 4) 8) :
    f.pos = 8 ∨ (∃ i < numParametersAt o r 8, f.pos = 16 + i * 4) ∨
      1 < countAt o r 4 ∧ (f.pos = 16 + 4 * numParametersAt o r 8 ∨ 24 + 4 * numParametersAt o r 8 ≤ f.pos) := by
  obtain ⟨k, hk⟩ : ∃ k, countAt o r 4 = k + 1 := ⟨countAt o r 4 - 1, by omega⟩
  rw [hk, parametersFields] at hf
  rcases List.mem_append.1 hf with hf | hf
  · rcases List.mem_cons.1 hf with rfl | hf
    · exact .inl rfl
    · obtain ⟨i, hi, rfl⟩ := mem_spaced.1 hf
      exact .inr (.inl ⟨i, hi, rfl⟩)
  · right
    right
    rcases k with - | k
    · cases hf
    · rw [parametersFields] at hf
      unfold sizeofAuElementParameters sizeofCARD32 at hf
      refine ⟨by omega, ?_⟩
      rcases List.mem_append.1 hf with hf | hf
      · rcases List.mem_cons.1 hf with rfl | hf
        · left
          dsimp only
          omega
        · obtain ⟨i, -, rfl⟩ := mem_spaced.1 hf
          right
          dsimp only
          omega
      · have := (parametersFields_bounds k _).2 f hf
        omega

/-- When several blocks are announced, or parameters that `long`s do not fit, some number is swapped twice or
bytes are swapped that are no number. -/
theorem parameters_lost (h : WellFormed o r) (ht : reqType r = setElementParameters) (hn : 0 < countAt o r 4)
    (hmany : 1 < countAt o r 4 ∨ dm = .lp64 ∧ 1 < numParametersAt o r 8) {rest : List Field}
    (hrest : 1 < countAt o r 4 → ∃ rest', rest = ⟨8 + 4 * numParametersAt o r 8, 4⟩ :: rest') :
    ¬ ([⟨2, 2⟩, ⟨4, 4⟩] ++ (⟨8, 4⟩ :: spaced 16 dm.sizeofLong 4 (numParametersAt o r 8)) ++ rest : List Field).Perm
      (layout o r) := by
  intro hperm
  generalize hn₀ : numParametersAt o r 8 = n₀ at *
  obtain ⟨ho, -⟩ := ordered_layout h
  have hl : layout o r = [⟨2, 2⟩, ⟨4, 4⟩] ++ parametersFields o r (countAt o r 4) 8 := by
    rw [layout, ht]
    rfl
  have hwidth : ∀ f ∈ layout o r, 0 < f.width := by
    intro f hf
    rw [hl] at hf
    rcases List.mem_append.1 hf with hf | hf
    · have hf : f = ⟨2, 2⟩ ∨ f = ⟨4, 4⟩ := by simpa using hf
      rcases hf with rfl | rfl <;> decide
    · rw [width_parametersFields hf]
      decide
  have hnodup := hperm.nodup_iff.2 (nodup_of_ordered ho hwidth)
  -- what is swapped is a number
  have hmem : ∀ p, 8 ≤ p → ⟨p, 4⟩ ∈ (⟨8, 4⟩ :: spaced 16 dm.sizeofLong 4 n₀) ++ rest → p = 8 ∨
      (∃ i < n₀, p = 16 + i * 4) ∨ 1 < countAt o r 4 ∧ (p = 16 + 4 * n₀ ∨ 24 + 4 * n₀ ≤ p) := by
    intro p hp hf
    have hf : ⟨p, 4⟩ ∈ layout o r := by
      refine hperm.mem_iff.1 ?_
      rw [List.append_assoc]
      exact List.mem_append_right _ hf
    rw [hl] at hf
    rcases List.mem_append.1 hf with hf | hf
    · simp at hf
      omega
    · rw [← hn₀]
      exact mem_parametersFields hn hf
  by_cases hmore : 1 < countAt o r 4
  · obtain ⟨rest', rfl⟩ := hrest hmore
    -- the second block is not where it is looked for
    have htwice : ⟨8 + 4 * n₀, 4⟩ ∉ (⟨8, 4⟩ :: spaced 16 dm.sizeofLong 4 n₀ : List Field) := by
      intro hf
      rw [List.append_assoc] at hnodup
      have := (List.nodup_append.1 (List.nodup_append.1 hnodup).2.1).2.2
      exact this _ hf _ List.mem_cons_self rfl
    have hfound := hmem (8 + 4 * n₀) (by omega) (List.mem_append_right _ List.mem_cons_self)
    rcases hfound with h0 | ⟨i, hi, hp⟩ | ⟨-, hp⟩
    · exact htwice (by simp [h0])
    · -- so there are at least two parameters in the first block
      cases dm with
      | ilp32 => exact htwice (List.mem_cons_of_mem _ (mem_spaced.2 ⟨i, hi, by simp [DataModel.sizeofLong]; omega⟩))
      | lp64 =>
        rcases Nat.even_or_odd' n₀ with ⟨j, hj | hj⟩
        · refine htwice (List.mem_cons_of_mem _ (mem_spaced.2 ⟨j - 1, by omega, ?_⟩))
          simp only [DataModel.sizeofLong, Field.mk.injEq, and_true]
          omega
        · have hlast : ⟨20 + 4 * n₀, 4⟩ ∈ spaced 16 DataModel.lp64.sizeofLong 4 n₀ := by
            refine mem_spaced.2 ⟨j + 1, by omega, ?_⟩
            simp only [DataModel.sizeofLong, Field.mk.injEq, and_true]
            omega
          have := hmem (20 + 4 * n₀) (by omega) (List.mem_append_left _ (List.mem_cons_of_mem _ hlast))
          omega
    · omega
  · obtain hmany | ⟨rfl, hlong⟩ := hmany
    · exact hmore hmany
    · have := hmem (16 + (n₀ - 1) * 8) (by omega) (List.mem_append_left _ (List.mem_cons_of_mem _
        (mem_spaced.2 ⟨n₀ - 1, by omega, rfl⟩)))
      omega

/-- The requests of a client of the other byte order are transparent exactly if blocks of parameters are found. -/
theorem transparent_iff (o : ByteOrder) (dm : DataModel) (r : List UInt8) (h : WellFormed o r) :
    Transparent o dm r ↔ ParametersFound o dm r := by
  constructor
  · intro ht h₂₃
    by_contra hno
    push Not at hno
    obtain ⟨hn, hone⟩ := hno
    obtain ⟨ho, hin⟩ := ordered_layout h
    have hc := h.complete
    have hl : layout o r = [⟨2, 2⟩, ⟨4, 4⟩] ++ parametersFields o r (countAt o r 4) 8 := by
      rw [layout, h₂₃]
      rfl
    have hsize : 8 ≤ r.length := by
      rw [Complete, h₂₃] at hc
      exact hc.1
    obtain ⟨s, hs, hperm⟩ := ht.once _ (by rw [h₂₃]; rfl)
    rw [hl] at ho hin
    rw [foreign, length_swapAll, hl, swapFields_cancel _ ho hin, Exec.ok_bind, atLeast,
      if_neg (by unfold sizeofAuSetElementParametersReq; omega)] at hs
    obtain ⟨t, hrun, hs⟩ := Exec.bind_eq_ok.1 hs
    cases hs
    obtain ⟨rest, hswapped, hrest⟩ := swapped_parameters (Nat.pos_of_ne_zero hn)
      (fun f hf => hin f (List.mem_append_right _ hf)) hrun
    rw [hswapped] at hperm
    refine parameters_lost h h₂₃ (Nat.pos_of_ne_zero hn) ?_ hrest hperm
    by_cases hmore : 1 < countAt o r 4
    · exact .inl hmore
    · obtain ⟨hdm, hlong⟩ := hone (by omega)
      refine .inr ⟨?_, hlong⟩
      cases dm with
      | ilp32 => exact absurd rfl hdm
      | lp64 => rfl
  · intro hp
    constructor
    · intro σ ρ v x
      rw [dispatchSwapped, dispatch, reqType_foreign h]
      cases hrun : sproc o dm (reqType r) (foreign o r) with
      | none =>
        have hshared : reqType r ∉ swappedTypes := fun hmem => by
          have := sproc_isSome o dm hmem (foreign o r)
          rw [hrun] at this
          cases this
        dsimp only
        rw [v.shared _ hshared (foreign o r) r length_swapAll]
      | some run =>
        rw [sproc_foreign h hp hrun]
        rfl
    · intro run hrun
      exact ⟨_, sproc_foreign h hp hrun, .refl _⟩

end

/-- A `SetElements` request with the single element `deviceElement`. -/
def oneElement : List UInt8 := [19, 1, 9, 0, 7, 0, 0, 0, 1, 0, 0, 0, 1, 0] ++ List.replicate 22 0

theorem wellFormed_oneElement : WellFormed .little oneElement where
  words := by decide
  header := by decide
  short := by decide
  complete := by
    have ht : Tiles .little (oneElement.drop 12) 1 := tiles_iff.2 (by decide +kernel)
    exact ⟨by decide, ht⟩

theorem oneElement_transparent : WellFormed .little oneElement ∧ Transparent .little .lp64 oneElement :=
  ⟨wellFormed_oneElement, (transparent_iff .little .lp64 oneElement wellFormed_oneElement).2
    fun h => absurd h (by decide)⟩

/-- Two blocks without parameters, for the flows 1 and 2. -/
def twoBlocks : List UInt8 := [23, 0, 6, 0, 2, 0, 0, 0, 1, 0, 0, 0, 0, 0, 0, 0, 2, 0, 0, 0, 0, 0, 0, 0]

/-- The flow of the first block is swapped twice, and that of the second block is not swapped at all. -/
theorem second_block_lost :
    WellFormed .little twoBlocks ∧
      (∀ dm, sproc .little dm setElementParameters (foreign .little twoBlocks) =
        some (.ok (.ok { mem := [23, 0, 6, 0, 2, 0, 0, 0, 0, 0, 0, 1, 0, 0, 0, 0, 0, 0, 0, 2, 0, 0, 0, 0],
                         swapped := [⟨2, 2⟩, ⟨4, 4⟩, ⟨8, 4⟩, ⟨8, 4⟩] }))) ∧
      ∀ dm, ¬ Transparent .little dm twoBlocks := by
  have hrun : ∀ dm, sproc .little dm setElementParameters (foreign .little twoBlocks) =
      some (.ok (.ok { mem := [23, 0, 6, 0, 2, 0, 0, 0, 0, 0, 0, 1, 0, 0, 0, 0, 0, 0, 0, 2, 0, 0, 0, 0],
                       swapped := [⟨2, 2⟩, ⟨4, 4⟩, ⟨8, 4⟩, ⟨8, 4⟩] })) := by
    intro dm
    cases dm <;> decide +kernel
  refine ⟨⟨by decide, by decide, by decide, ⟨by decide, by decide +kernel⟩⟩, hrun, fun dm ht => ?_⟩
  obtain ⟨s, hs, hperm⟩ := ht.once _ (hrun dm)
  cases hs
  revert hperm
  decide +kernel

end Nas.SwapRequests
