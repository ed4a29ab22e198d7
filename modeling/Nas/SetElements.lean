import Nas.Elements
import Nas.PortRead
import Mathlib.Data.List.GetD
import Mathlib.Tactic.IntervalCases

/-!
# Parsing a SetElements request

The three passes of `ProcAuSetElements` over the bytes of a request: the sizing pass with the length check, the
pass that sets up the elements, and the pass over the actions of an element. A read outside of the request's
body, and an `ActionRec` outside of the block that was allocated, are faults. Pointers have 64 bits, an `int` has
32.

`contained_iff` says when the passes stay inside and let through nothing that its elements do not make up: when
no element that is looked at is cut off by the end of the body, and the elements do not end a multiple of 2³²
bytes behind it.
-/

namespace Nas.SetElements
open Elements AuStatus

/-- A `SetElements` request. The length in its header is that of its body and has 16 bits. -/
structure Request where
  /-- the byte order of the server -/
  order : ByteOrder
  clocked : Bool
  flow : AuID
  numElements : Nat
  body : List UInt8
  numElements_lt : numElements < 2 ^ 32
  length_lt : body.length < 2 ^ 18

/-- `numDefaultActions` -/
def numDefaultActions (type : Nat) : Nat := [5, 0, 3, 3, 0, 0, 0, 0, 0, 5, 0, 3, 0, 0].getD type 0

/-- The actions the second pass sets up for an element of the type that comes without. -/
def defaultsOf (flow : FlowPtr) (type : Nat) : List Action :=
  if type = importClient ∨ type = exportClient then
    [⟨auStatePause, auStateAny, auReasonAny, .sendNotify⟩,
      ⟨auStateStop, auStateAny, auReasonAny, .sendNotify⟩,
      ⟨auStatePause, auStateAny, auReasonAny, .changeState flow auElementAll auStatePause⟩,
      ⟨auStateStart, auStatePause, auReasonAny, .changeState flow auElementAll auStateStart⟩,
      ⟨auStateStop, auStateAny, auReasonAny, .changeState flow auElementAll auStateStop⟩]
  else if type = importBucket ∨ type = importWaveForm ∨ type = exportBucket then
    [⟨auStatePause, auStateAny, auReasonAny, .sendNotify⟩,
      ⟨auStateStop, auStateAny, auReasonAny, .sendNotify⟩,
      ⟨auStateStop, auStateAny, auReasonAny, .changeState flow auElementAll auStateStop⟩]
  else []

section Passes
variable (o : ByteOrder) (m : List UInt8)

/-! ### The sizing pass -/

/-- What the switch of the sizing pass adds to `varLen` and to `numActions`, when it knows the type. -/
def sizeElement (el : Nat) : Exec (Option (Nat × Nat)) := do
  let type ← o.load 2 m el
  match actionsAt type with
  | some off => do
    -- COMP_ACTIONS
    let num ← o.load 4 m (el + off)
    .ok (some (num * sizeofAuElementAction, if num ≠ 0 then num else numDefaultActions type))
  | none =>
    if type = bundle then do
      let num ← o.load 2 m (el + 2)
      .ok (some (num * sizeofAuInputTrack, 0))
    else if type = sum then do
      let num ← o.load 2 m (el + 2)
      .ok (some (pad4 (num * sizeofCARD16), 0))
    else if type = multiplyConstant ∨ type = addConstant ∨ type = exportMonitor then .ok (some (0, 0))
    else .ok none

/-- The loop of the sizing pass. `varLen` and `numActions` are `int`s. The end of the body is counted in
elements. -/
def sizingPass : (count : Nat) → (el varLen numActions : Nat) → Exec (Except AuStatus (Nat × Nat))
  | 0, _, varLen, numActions => .ok (.ok (varLen, numActions))
  | count + 1, el, varLen, numActions =>
    if el ≥ m.length * sizeofAuElement then .ok (.error auBadLength)
    else do
      match ← sizeElement o m el with
      | none => .ok (.error auBadElement)
      | some (n, k) =>
        sizingPass count (el + n + sizeofAuElement) ((varLen + n) % 2 ^ 32) ((numActions + k) % 2 ^ 32)

/-! ### The pass over the actions -/

def loadAction (p : Nat) : Exec AuElementAction := do
  let flow ← o.load 4 m p
  let elementNum ← o.load 1 m (p + 4)
  let triggerState ← o.load 1 m (p + 5)
  let triggerPrevState ← o.load 1 m (p + 6)
  let triggerReason ← o.load 1 m (p + 7)
  let action ← o.load 1 m (p + 8)
  let newState ← o.load 1 m (p + 9)
  .ok { flow, elementNum, triggerState, triggerPrevState, triggerReason, action, newState }

/-- The triggers are valid, and the `ActionRec` is written to. -/
def writesAction (raw : AuElementAction) : Bool :=
  auValidTriggerState raw.triggerState && auValidTriggerState raw.triggerPrevState &&
    auValidTriggerReason raw.triggerReason

/-- `while (copyActions--)`, with room for so many `ActionRec`s. -/
def actionPass (lookup : AuID → Option FlowPtr) (numElements room : Nat) :
    (copyActions : Nat) → (raw act : Nat) → Exec (Except AuStatus (List Action))
  | 0, _, _ => .ok (.ok [])
  | copyActions + 1, raw, act => do
    let r ← loadAction o m raw
    if writesAction r ∧ room ≤ act then .error .fault
    else
      match storeAction lookup numElements r with
      | .error status => .ok (.error status)
      | .ok a => do
        let rest ← actionPass lookup numElements room copyActions (raw + sizeofAuElementAction) (act + 1)
        .ok (rest.map (a :: ·))

/-! ### The pass over the elements -/

/-- The `FlowElementRec` of an element whose `auElement` is at `raw`. -/
structure ElementRec where
  raw : Nat
  elementNum : Nat
  isComponent : Bool
  varLen : Nat
  actions : List Action
deriving DecidableEq, Repr

/-- The body of the loop: the element, or what is wrong with its actions. -/
def initElement (lookup : AuID → Option FlowPtr) (flow : FlowPtr) (numElements room i el a : Nat) :
    Exec (Except AuStatus ElementRec) := do
  let type ← o.load 2 m el
  let isComponent := type ≠ bundle ∧ type ≠ multiplyConstant ∧ type ≠ addConstant ∧ type ≠ sum
  let copyActions ← (match actionsAt type with
    | some off => o.load 4 m (el + off)
    | none => .ok 0)
  if copyActions = 0 then do
    let varLen ← (if type = bundle then do
        let num ← o.load 2 m (el + 2)
        .ok (num * sizeofAuInputTrack)
      else if type = sum then do
        let num ← o.load 2 m (el + 2)
        .ok (pad4 (num * sizeofCARD16))
      else .ok 0 : Exec Nat)
    let actions := defaultsOf flow type
    if room < a + actions.length then .error .fault
    else .ok (.ok { raw := el, elementNum := i, isComponent, varLen, actions })
  else do
    let actions ← actionPass o m lookup numElements room copyActions (el + sizeofAuElement) a
    let varLen := copyActions * sizeofAuElementAction % 2 ^ 32
    .ok (actions.map fun actions => { raw := el, elementNum := i, isComponent, varLen, actions })

/-- `for (i = 0; i < stuff->numElements; i++, e++, a += numActions)` -/
def initElements (lookup : AuID → Option FlowPtr) (flow : FlowPtr) (numElements room : Nat) :
    (count : Nat) → (i el a : Nat) → Exec (Except AuStatus (List ElementRec))
  | 0, _, _, _ => .ok (.ok [])
  | count + 1, i, el, a => do
    match ← initElement o m lookup flow numElements room i el a with
    | .error status => .ok (.error status)
    | .ok e => do
      let next := (el + sizeofAuElement + asInt32 e.varLen).toNat
      let rest ← initElements lookup flow numElements room count (i + 1) next (a + e.actions.length)
      .ok (rest.map (e :: ·))

end Passes

namespace Request
variable (r : Request)

/-- The sizing pass and the length check: how many `ActionRec`s there are. The comparison is one of 64-bit
numbers. -/
def lengthCheck : Exec (Except AuStatus Nat) := do
  match ← sizingPass r.order r.body r.numElements 0 0 0 with
  | .error status => .ok (.error status)
  | .ok (varLen, numActions) =>
    if (asInt32 varLen - (r.body.length - r.numElements * sizeofAuElement)) % 2 ^ 64 ≠ 0 then
      .ok (.error auBadLength)
    else .ok (.ok numActions)

/-- The size of what is allocated in front of the `ActionRec`s, and of the whole block as `aualloc` gets it. -/
def fixedSize : Nat := pad4 (r.numElements * sizeofFlowElementRec) + pad4 r.body.length

def blockSize (numActions : Nat) : Nat := (r.fixedSize + pad4 (numActions * sizeofActionRec)) % 2 ^ 32

/-- What `ProcAuSetElements` makes of the request. `memory` is whether there is memory for the new elements. -/
def parse (lookup : AuID → Option FlowPtr) (memory : Bool) : Exec (Except AuStatus (List ElementRec)) :=
  match lookup r.flow with
  | none => .ok (.error auBadFlow)
  | some flow => do
    match ← r.lengthCheck with
    | .error status => .ok (.error status)
    | .ok numActions =>
      if ¬ aualloc memory (r.blockSize numActions) then .ok (.error auBadAlloc)
      else if r.blockSize numActions < r.fixedSize then .error .fault
      else
        let room := (r.blockSize numActions - r.fixedSize) / sizeofActionRec
        initElements r.order r.body lookup flow r.numElements room r.numElements 0 0 0

/-- The passes stay inside of the body, and of what is allocated; only what elements make up passes the length
check, and all else is refused. -/
structure Contained : Prop where
  inside : ∀ lookup memory, r.parse lookup memory ≠ .error .fault
  checked : ∀ numActions, r.lengthCheck = .ok (.ok numActions) → Tiles r.order r.body r.numElements
  refused : ¬ Tiles r.order r.body r.numElements → ∀ lookup memory, ∃ status, r.parse lookup memory = .ok (.error status)

end Request

/-- Among so many elements from `el` on there is one that the sizing pass looks at and that the end of the body
cuts off. -/
def CutOff (o : ByteOrder) (m : List UInt8) : (count : Nat) → (el : Nat) → Prop
  | 0, _ => False
  | count + 1, el =>
    el < m.length * sizeofAuElement ∧
      (¬ HeaderInside o m el ∨ ∃ n, varBytes o m el = some n ∧ CutOff o m count (el + n + sizeofAuElement))

/-- The elements end a multiple of 2³² bytes behind the body. -/
def Wraps (r : Request) : Prop :=
  ∃ e, walkEnd r.order r.body r.numElements 0 = some e ∧ e % 2 ^ 32 = r.body.length ∧ e ≠ r.body.length

/-! ### The sizing pass and the walk -/

/-- The number of actions of the element at `el`, with the ones it has by default. -/
def countAt (o : ByteOrder) (m : List UInt8) (el : Nat) : Nat :=
  if numActionsAt o m el ≠ 0 then numActionsAt o m el else numDefaultActions (typeAt o m el)

variable {o : ByteOrder} {m : List UInt8} {count el e v a : Nat}

theorem sizeElement_inside (h : HeaderInside o m el) :
    sizeElement o m el = .ok ((varBytes o m el).map fun n => (n, countAt o m el)) := by
  have h2 := two_le_headerSize (typeAt o m el)
  unfold HeaderInside at h
  have htype : o.load 2 m el = .ok (typeAt o m el) := ByteOrder.load_ok (by omega)
  unfold sizeElement varBytes countAt numActionsAt
  rw [htype, Exec.ok_bind]
  cases ha : actionsAt (typeAt o m el) with
  | some off =>
    rw [headerSize_of_actions ha] at h
    dsimp only
    rw [ByteOrder.load_ok (by omega)]
    simp [ha]
  | none =>
    by_cases hb : typeAt o m el = bundle
    · rw [headerSize_of_inputs ha (.inl hb)] at h
      simp [hb, ByteOrder.load_ok (show el + 2 + 2 ≤ m.length by omega), numDefaultActions, bundle,
        show actionsAt 5 = none from rfl]
    · by_cases hs : typeAt o m el = sum
      · rw [headerSize_of_inputs ha (.inr hs)] at h
        simp [hs, ByteOrder.load_ok (show el + 2 + 2 ≤ m.length by omega), numDefaultActions, bundle,
          sum, show actionsAt 8 = none from rfl]
      · simp only [hb, hs, ha, if_false, Option.isSome_none, Bool.false_eq_true]
        split
        · rename_i hk
          have hd : numDefaultActions (typeAt o m el) = 0 := by
            rcases hk with hk | hk | hk <;> rw [hk] <;> rfl
          simp [hd]
        · rfl

theorem sizeElement_cut (h : ¬ HeaderInside o m el) : sizeElement o m el = .error .fault := by
  unfold HeaderInside at h
  unfold sizeElement
  by_cases h2 : el + 2 ≤ m.length
  · rw [ByteOrder.load_ok h2, Exec.ok_bind, show o.read 2 m el = typeAt o m el from rfl]
    cases ha : actionsAt (typeAt o m el) with
    | some off =>
      rw [headerSize_of_actions ha] at h
      dsimp only
      rw [ByteOrder.load_fault (by omega)]
      rfl
    | none =>
      dsimp only
      by_cases ht : typeAt o m el = bundle ∨ typeAt o m el = sum
      · rw [headerSize_of_inputs ha ht] at h
        rw [ByteOrder.load_fault (show m.length < el + 2 + 2 by omega)]
        rcases ht with ht | ht <;> simp [ht, bundle, sum]
      · have : headerSize (typeAt o m el) = 2 := by simp [headerSize, ha, ht]
        omega
  · rw [ByteOrder.load_fault (by omega)]
    rfl

/-- When the elements of the walk end somewhere, the sizing pass has added up their variable parts. -/
theorem sizingPass_walk (h : walkEnd o m count el = some e) (hv : v < 2 ^ 32) :
    ¬ CutOff o m count el ∧ ∃ a', sizingPass o m count el v a =
      .ok (.ok ((v + (e - el - count * sizeofAuElement)) % 2 ^ 32, a')) := by
  induction count generalizing el v a with
  | zero =>
    cases h
    refine ⟨id, a, ?_⟩
    rw [sizingPass, Nat.sub_self, Nat.zero_sub, Nat.add_zero, Nat.mod_eq_of_lt hv]
  | succ count ih =>
    rw [walkEnd] at h
    split at h
    · rename_i hhead
      obtain ⟨n, hn, h⟩ := Option.bind_eq_some_iff.1 h
      have hle := walkEnd_ge h
      have h2 := two_le_headerSize (typeAt o m el)
      have hlt : el < m.length * sizeofAuElement := by
        unfold HeaderInside at hhead
        unfold sizeofAuElement
        omega
      obtain ⟨hcut, a', hs⟩ := ih h (v := (v + n) % 2 ^ 32) (a := (a + countAt o m el) % 2 ^ 32)
        (Nat.mod_lt _ (by decide))
      refine ⟨fun hc => ?_, a', ?_⟩
      · obtain ⟨-, hno | ⟨n', hn', hc⟩⟩ := hc
        · exact hno hhead
        · rw [hn] at hn'
          cases hn'
          exact hcut hc
      · rw [sizingPass, if_neg (by omega), sizeElement_inside hhead, Exec.ok_bind, hn]
        refine hs.trans ?_
        rw [Nat.succ_mul, Nat.mod_add_mod]
        congr 4
        omega
    · cases h

/-- When they do not, the sizing pass has left the body at an element that is cut off, or it refuses. -/
theorem sizingPass_none (h : walkEnd o m count el = none) :
    CutOff o m count el ∧ sizingPass o m count el v a = .error .fault ∨
      ¬ CutOff o m count el ∧ ∃ status, sizingPass o m count el v a = .ok (.error status) := by
  induction count generalizing el v a with
  | zero => cases h
  | succ count ih =>
    rw [sizingPass]
    by_cases hlt : el < m.length * sizeofAuElement
    · rw [if_neg (by omega)]
      by_cases hhead : HeaderInside o m el
      · rw [sizeElement_inside hhead, Exec.ok_bind]
        rw [walkEnd, if_pos hhead] at h
        cases hn : varBytes o m el with
        | none =>
          refine .inr ⟨?_, auBadElement, rfl⟩
          rintro ⟨-, hno | ⟨n, hn', -⟩⟩
          · exact hno hhead
          · rw [hn] at hn'
            cases hn'
        | some n =>
          rw [hn, Option.bind_some] at h
          rcases ih h (v := (v + n) % 2 ^ 32) (a := (a + countAt o m el) % 2 ^ 32) with ⟨hc, hs⟩ | ⟨hc, hs⟩
          · exact .inl ⟨⟨hlt, .inr ⟨n, hn, hc⟩⟩, hs⟩
          · refine .inr ⟨?_, hs⟩
            rintro ⟨-, hno | ⟨n', hn', hc'⟩⟩
            · exact hno hhead
            · rw [hn] at hn'
              cases hn'
              exact hc hc'
      · rw [sizeElement_cut hhead]
        exact .inl ⟨⟨hlt, .inl hhead⟩, rfl⟩
    · rw [if_pos (by omega)]
      exact .inr ⟨fun hc => hlt hc.1, auBadLength, rfl⟩

/-! ### Bodies that elements make up -/

section Records
variable {r : List UInt8} {room n p : Nat} (lookup : AuID → Option FlowPtr) (flow : FlowPtr) (numElements i : Nat)

theorem length_defaultsOf (flow : FlowPtr) (type : Nat) : (defaultsOf flow type).length = numDefaultActions type := by
  rcases Nat.lt_or_ge type 14 with h | h
  · interval_cases type <;> rfl
  · have hd : numDefaultActions type = 0 := List.getD_eq_default _ _ h
    have hn : ∀ k, k < 14 → type ≠ k := fun k hk => by omega
    rw [hd, defaultsOf, if_neg, if_neg]
    · rfl
    · simp [importBucket, importWaveForm, exportBucket, hn]
    · simp [importClient, exportClient, hn]

theorem numDefaultActions_le (type : Nat) : numDefaultActions type ≤ 5 := by
  rcases Nat.lt_or_ge type 14 with h | h
  · interval_cases type <;> decide
  · have hd : numDefaultActions type = 0 := List.getD_eq_default _ _ h
    omega

theorem countAt_middle (pre post : List UInt8) (h : headerSize (typeAt o r 0) ≤ r.length) :
    countAt o (pre ++ r ++ post) pre.length = countAt o r 0 := by
  have h2 := two_le_headerSize (typeAt o r 0)
  rw [countAt, countAt, numActionsAt_middle pre post h, typeAt_middle pre post (by omega)]

/-- An element has room for its actions. -/
theorem numActions_fit (h : IsElement o r) (hn : numActionsAt o r 0 ≠ 0) :
    r.length = sizeofAuElement + numActionsAt o r 0 * sizeofAuElementAction := by
  obtain ⟨n, hv, hl⟩ := h
  have ha : (actionsAt (typeAt o r 0)).isSome := by
    unfold numActionsAt at hn
    split at hn
    · simp_all
    · exact absurd rfl hn
  rw [varBytes, if_pos ha] at hv
  cases hv
  exact hl

theorem countAt_le (h : IsElement o r) : countAt o r 0 ≤ r.length := by
  have h24 := h.length
  unfold sizeofAuElement at h24
  unfold countAt
  split
  · rename_i hn
    have := numActions_fit h hn
    unfold sizeofAuElementAction at this
    omega
  · have := numDefaultActions_le (typeAt o r 0)
    omega

theorem sum_countAt_le {records : List (List UInt8)} (h : ∀ r ∈ records, IsElement o r) :
    (records.map (countAt o · 0)).sum ≤ records.flatten.length := by
  induction records with
  | nil => simp
  | cons r rs ih =>
    have := countAt_le (h r (by simp))
    have := ih fun s hs => h s (by simp [hs])
    simp only [List.map_cons, List.sum_cons, List.flatten_cons, List.length_append]
    omega

theorem length_records {records : List (List UInt8)} (h : ∀ r ∈ records, IsElement o r) :
    records.length * sizeofAuElement ≤ records.flatten.length := by
  induction records with
  | nil => simp
  | cons r rs ih =>
    have := (h r (by simp)).length
    have := ih fun s hs => h s (by simp [hs])
    simp only [List.length_cons, List.flatten_cons, List.length_append, Nat.succ_mul]
    omega

theorem header_middle (pre post : List UInt8) (h : IsElement o r) : HeaderInside o (pre ++ r ++ post) pre.length := by
  have h24 := h.length
  have hh := h.header
  unfold sizeofAuElement at h24
  rw [HeaderInside, typeAt_middle pre post (by omega)]
  simp only [List.length_append]
  omega

/-- The sizing pass counts the actions of the elements. -/
theorem sizingPass_records (pre post : List UInt8) {records : List (List UInt8)} (h : ∀ r ∈ records, IsElement o r)
    (hv : v < 2 ^ 32) (ha : a < 2 ^ 32) :
    ∃ v', sizingPass o (pre ++ records.flatten ++ post) records.length pre.length v a =
      .ok (.ok (v', (a + (records.map (countAt o · 0)).sum) % 2 ^ 32)) := by
  induction records generalizing pre v a with
  | nil =>
    refine ⟨v, ?_⟩
    rw [List.map_nil, List.sum_nil, Nat.add_zero, Nat.mod_eq_of_lt ha]
    rfl
  | cons r rs ih =>
    have hr := h r (by simp)
    have hh := hr.header
    have h24 := hr.length
    obtain ⟨n, hn, hl⟩ := hr
    have hsplit : pre ++ (r :: rs).flatten ++ post = pre ++ r ++ (rs.flatten ++ post) := by simp
    have hsplit' : pre ++ r ++ (rs.flatten ++ post) = (pre ++ r) ++ rs.flatten ++ post := by simp
    have hnext : pre.length + n + sizeofAuElement = (pre ++ r).length := by
      rw [List.length_append]
      omega
    obtain ⟨v', hs⟩ := ih (pre ++ r) (fun s hs => h s (by simp [hs])) (v := (v + n) % 2 ^ 32)
      (a := (a + countAt o r 0) % 2 ^ 32) (Nat.mod_lt _ (by decide)) (Nat.mod_lt _ (by decide))
    refine ⟨v', ?_⟩
    have hlt : ¬ pre.length ≥ (pre ++ r ++ (rs.flatten ++ post)).length * sizeofAuElement := by
      unfold sizeofAuElement at h24 ⊢
      simp only [List.length_append]
      omega
    rw [List.length_cons, sizingPass, hsplit, if_neg hlt, sizeElement_inside (header_middle pre _ (h r (by simp))),
      Exec.ok_bind, varBytes_middle pre _ hh, hn, countAt_middle pre _ hh]
    refine Eq.trans ?_ (hs.trans ?_)
    · rw [hsplit', ← hnext]
      rfl
    · rw [List.map_cons, List.sum_cons, Nat.mod_add_mod, Nat.add_assoc]

theorem loadAction_ok (h : p + sizeofAuElementAction ≤ m.length) : ∃ raw, loadAction o m p = .ok raw := by
  unfold sizeofAuElementAction at h
  unfold loadAction
  rw [ByteOrder.load_ok (by omega), ByteOrder.load_ok (by omega), ByteOrder.load_ok (by omega),
    ByteOrder.load_ok (by omega), ByteOrder.load_ok (by omega), ByteOrder.load_ok (by omega),
    ByteOrder.load_ok (by omega)]
  exact ⟨_, rfl⟩

/-- The pass over the actions stays inside when there is room for them, here and in the block. -/
theorem actionPass_inside (h : p + n * sizeofAuElementAction ≤ m.length) (hr : a + n ≤ room) :
    (∃ status, actionPass o m lookup numElements room n p a = .ok (.error status)) ∨
      ∃ l, actionPass o m lookup numElements room n p a = .ok (.ok l) ∧ l.length = n := by
  induction n generalizing p a with
  | zero => exact .inr ⟨[], rfl, rfl⟩
  | succ n ih =>
    rw [Nat.succ_mul] at h
    obtain ⟨raw, hraw⟩ := loadAction_ok (o := o) (m := m) (p := p) (by omega)
    rw [actionPass, hraw, Exec.ok_bind, if_neg (by omega)]
    cases storeAction lookup numElements raw with
    | error status => exact .inl ⟨status, rfl⟩
    | ok act =>
      rcases ih (p := p + sizeofAuElementAction) (a := a + 1) (by omega) (by omega) with ⟨status, hs⟩ | ⟨l, hs, hl⟩
      · exact .inl ⟨status, by dsimp only; rw [hs]; rfl⟩
      · exact .inr ⟨act :: l, by dsimp only; rw [hs]; rfl, by simp [hl]⟩

/-- An element is set up without leaving its own bytes, or refused. -/
theorem initElement_inside (pre post : List UInt8) (h : IsElement o r) (hroom : a + countAt o r 0 ≤ room)
    (hlen : r.length < 2 ^ 18) :
    (∃ status, initElement o (pre ++ r ++ post) lookup flow numElements room i pre.length a = .ok (.error status)) ∨
      ∃ el, initElement o (pre ++ r ++ post) lookup flow numElements room i pre.length a = .ok (.ok el) ∧
        el.actions.length = countAt o r 0 ∧ sizeofAuElement + el.varLen = r.length := by
  have hh := h.header
  have h24 := h.length
  have hin := header_middle pre post h
  have h2 := two_le_headerSize (typeAt o r 0)
  have htype : typeAt o (pre ++ r ++ post) pre.length = typeAt o r 0 :=
    typeAt_middle pre post (by unfold sizeofAuElement at h24; omega)
  have hnum := numActionsAt_middle pre post hh
  unfold HeaderInside at hin
  rw [htype] at hin
  have hl : o.load 2 (pre ++ r ++ post) pre.length = .ok (typeAt o r 0) := by
    rw [ByteOrder.load_ok (by omega), ← htype]
    rfl
  have hcopy : (match actionsAt (typeAt o r 0) with
      | some off => o.load 4 (pre ++ r ++ post) (pre.length + off)
      | none => .ok 0) = (.ok (numActionsAt o r 0) : Exec Nat) := by
    rw [← hnum, numActionsAt, htype]
    cases ha : actionsAt (typeAt o r 0) with
    | none => rfl
    | some off =>
      rw [headerSize_of_actions ha] at hin
      exact ByteOrder.load_ok (by omega)
  unfold initElement
  rw [hl, Exec.ok_bind]
  dsimp only
  rw [hcopy, Exec.ok_bind]
  by_cases hz : numActionsAt o r 0 = 0
  · rw [if_pos hz]
    right
    have hcount : countAt o r 0 = numDefaultActions (typeAt o r 0) := by rw [countAt, if_neg (not_not.2 hz)]
    rw [hcount] at hroom ⊢
    obtain ⟨n, hv, hlr⟩ := h
    rw [← varBytes_middle pre post hh] at hv
    -- the variable part, as the pass reads it
    have hvar : (if typeAt o r 0 = bundle then do
        let num ← o.load 2 (pre ++ r ++ post) (pre.length + 2)
        .ok (num * sizeofAuInputTrack)
      else if typeAt o r 0 = sum then do
        let num ← o.load 2 (pre ++ r ++ post) (pre.length + 2)
        .ok (pad4 (num * sizeofCARD16))
      else .ok 0 : Exec Nat) = .ok n := by
      rw [varBytes, htype, hnum] at hv
      by_cases hb : typeAt o r 0 = bundle
      · rw [hb] at hin hv ⊢
        rw [headerSize_of_inputs rfl (.inl rfl)] at hin
        rw [if_pos rfl, ByteOrder.load_ok (by omega)]
        exact congrArg Except.ok (Option.some.inj hv)
      · by_cases hs : typeAt o r 0 = sum
        · rw [hs] at hin hv ⊢
          rw [headerSize_of_inputs rfl (.inr rfl)] at hin
          rw [if_neg (by decide), if_pos rfl, ByteOrder.load_ok (by omega)]
          exact congrArg Except.ok (Option.some.inj hv)
        · rw [if_neg hb, if_neg hs]
          rw [hz, Nat.zero_mul] at hv
          simp only [hb, hs, if_false] at hv
          split at hv
          · exact congrArg Except.ok (Option.some.inj hv)
          · split at hv
            · exact congrArg Except.ok (Option.some.inj hv)
            · cases hv
    rw [hvar, Exec.ok_bind, if_neg (by rw [length_defaultsOf]; omega)]
    exact ⟨_, rfl, length_defaultsOf .., hlr.symm⟩
  · rw [if_neg hz]
    have hcount : countAt o r 0 = numActionsAt o r 0 := by rw [countAt, if_pos hz]
    have hfit := numActions_fit h hz
    rw [hcount] at hroom ⊢
    have hraw : pre.length + sizeofAuElement + numActionsAt o r 0 * sizeofAuElementAction ≤ (pre ++ r ++ post).length := by
      simp only [List.length_append]
      omega
    rcases actionPass_inside (o := o) lookup numElements hraw hroom with
      ⟨status, hs⟩ | ⟨l, hs, hl⟩
    · left
      rw [hs]
      exact ⟨status, rfl⟩
    · right
      rw [hs]
      refine ⟨_, rfl, hl, ?_⟩
      dsimp only
      rw [Nat.mod_eq_of_lt (by omega), hfit]

/-- The elements are set up without leaving the body and the block, or one of them is refused. -/
theorem initElements_inside (pre post : List UInt8) {records : List (List UInt8)} (h : ∀ r ∈ records, IsElement o r)
    (hroom : a + (records.map (countAt o · 0)).sum ≤ room) (hlen : records.flatten.length < 2 ^ 18) :
    (∃ status, initElements o (pre ++ records.flatten ++ post) lookup flow numElements room records.length i
        pre.length a = .ok (.error status)) ∨
      ∃ els, initElements o (pre ++ records.flatten ++ post) lookup flow numElements room records.length i
        pre.length a = .ok (.ok els) ∧ els.length = records.length := by
  induction records generalizing pre i a with
  | nil => exact .inr ⟨[], rfl, rfl⟩
  | cons r rs ih =>
    have hsplit : pre ++ (r :: rs).flatten ++ post = pre ++ r ++ (rs.flatten ++ post) := by simp
    have hsplit' : pre ++ r ++ (rs.flatten ++ post) = (pre ++ r) ++ rs.flatten ++ post := by simp
    simp only [List.map_cons, List.sum_cons] at hroom
    simp only [List.flatten_cons, List.length_append] at hlen
    rw [hsplit, List.length_cons, initElements]
    have hr : a + countAt o r 0 ≤ room := by omega
    rcases initElement_inside lookup flow numElements i pre (rs.flatten ++ post) (h r (by simp)) hr (by omega) with
      ⟨status, hs⟩ | ⟨el, hs, hcount, hvar⟩
    · left
      rw [hs]
      exact ⟨status, rfl⟩
    · have hnext : (pre.length + sizeofAuElement + asInt32 el.varLen).toNat = (pre ++ r).length := by
        rw [asInt32_nonneg (by omega), List.length_append]
        omega
      rw [hs, Exec.ok_bind]
      dsimp only
      rw [hsplit', show ((pre.length : Int) + sizeofAuElement + asInt32 el.varLen).toNat = (pre ++ r).length from hnext]
      rcases ih (a := a + el.actions.length) (i + 1) (pre ++ r) (fun s hs => h s (by simp [hs])) (by omega)
        (by omega) with ⟨status, hs⟩ | ⟨els, hs, hl⟩
      · left
        rw [hs]
        exact ⟨status, rfl⟩
      · right
        rw [hs]
        exact ⟨el :: els, rfl, by simp [hl]⟩

end Records

/-! ### The request -/

/-- What the length check compares, when the elements end at `e`. -/
theorem length_compare {n len : Nat} (he : n * sizeofAuElement ≤ e) (hn : n * sizeofAuElement ≤ len + sizeofAuElement)
    (hlen : len < 2 ^ 18) :
    (asInt32 ((e - n * sizeofAuElement) % 2 ^ 32) - ((len : Int) - (n * sizeofAuElement : Nat))) % 2 ^ 64 = 0 ↔
      e % 2 ^ 32 = len := by
  unfold sizeofAuElement at *
  generalize n * 24 = k at *
  rw [asInt32, Nat.mod_mod]
  split <;> omega

namespace Request
variable {r : Request} {numActions : Nat}

theorem walkEnd_bound (h : walkEnd r.order r.body r.numElements 0 = some e) :
    r.numElements * sizeofAuElement ≤ r.body.length + sizeofAuElement := by
  cases hn : r.numElements with
  | zero => simp
  | succ n =>
    rw [hn] at h
    have := walkEnd_lt h
    rw [Nat.succ_mul]
    omega

theorem lengthCheck_walk (h : walkEnd r.order r.body r.numElements 0 = some e) :
    ∃ a, r.lengthCheck = if e % 2 ^ 32 = r.body.length then .ok (.ok a) else .ok (.error auBadLength) := by
  obtain ⟨-, a, hs⟩ := sizingPass_walk (v := 0) (a := 0) h (by decide)
  have hle := walkEnd_ge h
  rw [Nat.zero_add, Nat.sub_zero] at hs
  rw [Nat.zero_add] at hle
  have hcmp := length_compare hle (walkEnd_bound h) r.length_lt
  refine ⟨a, ?_⟩
  rw [lengthCheck, hs, Exec.ok_bind]
  rw [Int.natCast_mul] at hcmp
  by_cases he : e % 2 ^ 32 = r.body.length
  · rw [if_pos he]
    dsimp only
    rw [if_neg (not_not.2 (hcmp.2 he))]
  · rw [if_neg he]
    dsimp only
    rw [if_pos fun hc => he (hcmp.1 hc)]

theorem lengthCheck_none (h : walkEnd r.order r.body r.numElements 0 = none) :
    CutOff r.order r.body r.numElements 0 ∧ r.lengthCheck = .error .fault ∨
      ¬ CutOff r.order r.body r.numElements 0 ∧ ∃ status, r.lengthCheck = .ok (.error status) := by
  rcases sizingPass_none (v := 0) (a := 0) h with ⟨hc, hs⟩ | ⟨hc, status, hs⟩
  · exact .inl ⟨hc, by rw [lengthCheck, hs]; rfl⟩
  · exact .inr ⟨hc, status, by rw [lengthCheck, hs]; rfl⟩

/-- A request whose elements make up its body passes the length check with as many actions as there are. -/
theorem lengthCheck_records {records : List (List UInt8)} (hf : records.flatten = r.body)
    (hn : records.length = r.numElements) (h : ∀ s ∈ records, IsElement r.order s) :
    r.lengthCheck = .ok (.ok (records.map (countAt r.order · 0)).sum) := by
  have ht : Tiles r.order r.body r.numElements := ⟨records, hf, hn, h⟩
  obtain ⟨a, hl⟩ := lengthCheck_walk (tiles_iff.1 ht)
  have hlen := r.length_lt
  rw [if_pos (Nat.mod_eq_of_lt (by omega))] at hl
  obtain ⟨v', hs⟩ := sizingPass_records (v := 0) (a := 0) [] [] h (by decide) (by decide)
  rw [List.nil_append, List.append_nil, hf, hn, Nat.zero_add, List.length_nil] at hs
  have hsum := sum_countAt_le h
  rw [hf] at hsum
  rw [Nat.mod_eq_of_lt (by omega)] at hs
  rw [hl]
  rw [lengthCheck, hs, Exec.ok_bind] at hl
  dsimp only at hl
  split at hl
  · cases hl
  · exact hl.symm

/-- The block has room for so many `ActionRec`s. -/
theorem blockSize_eq {records : List (List UInt8)} (hf : records.flatten = r.body)
    (hn : records.length = r.numElements) (h : ∀ s ∈ records, IsElement r.order s) :
    r.blockSize (records.map (countAt r.order · 0)).sum =
      r.fixedSize + (records.map (countAt r.order · 0)).sum * sizeofActionRec := by
  have hsum := sum_countAt_le h
  have hcount := length_records h
  have hlen := r.length_lt
  rw [hf] at hsum hcount
  rw [hn] at hcount
  unfold blockSize fixedSize pad4 sizeofActionRec sizeofFlowElementRec
  unfold sizeofAuElement at hcount
  omega

theorem parse_records {records : List (List UInt8)} (hf : records.flatten = r.body)
    (hn : records.length = r.numElements) (h : ∀ s ∈ records, IsElement r.order s)
    (lookup : AuID → Option FlowPtr) (memory : Bool) : r.parse lookup memory ≠ .error .fault := by
  unfold parse
  split
  · simp
  · rename_i flow _
    rw [lengthCheck_records hf hn h, Exec.ok_bind]
    dsimp only
    rw [blockSize_eq hf hn h, Nat.add_sub_cancel_left, Nat.mul_div_cancel _ (by decide)]
    split
    · simp
    · rw [if_neg (by omega)]
      have hlen := r.length_lt
      rw [← hf] at hlen
      have hroom : 0 + (records.map (countAt r.order · 0)).sum ≤ (records.map (countAt r.order · 0)).sum := by omega
      have := initElements_inside lookup flow r.numElements 0 [] [] h hroom hlen
      rw [List.nil_append, List.append_nil, hf, hn, List.length_nil] at this
      rcases this with ⟨status, hs⟩ | ⟨els, hs, -⟩ <;> rw [hs] <;> simp

theorem parse_error {status : AuStatus} (h : r.lengthCheck = .ok (.error status)) (lookup : AuID → Option FlowPtr)
    (memory : Bool) : ∃ status, r.parse lookup memory = .ok (.error status) := by
  unfold parse
  split
  · exact ⟨auBadFlow, rfl⟩
  · rw [h]
    exact ⟨status, rfl⟩

/-- The passes over a request stay inside of it, and of what is allocated for it, and let through nothing that
its elements do not make up, exactly if no element that is looked at is cut off and the elements do not end a
multiple of 2³² bytes behind the body. -/
theorem contained_iff (r : Request) :
    r.Contained ↔ ¬ CutOff r.order r.body r.numElements 0 ∧ ¬ Wraps r := by
  constructor
  · intro h
    constructor
    · intro hc
      cases hw : walkEnd r.order r.body r.numElements 0 with
      | some e => exact (sizingPass_walk (a := 0) (v := 0) hw (by decide)).1 hc
      | none =>
        rcases lengthCheck_none hw with ⟨-, hl⟩ | ⟨hno, -⟩
        · refine h.inside (fun _ => some 0) true ?_
          unfold parse
          dsimp only
          rw [hl]
          rfl
        · exact hno hc
    · rintro ⟨e, hw, he, hne⟩
      obtain ⟨a, hl⟩ := lengthCheck_walk hw
      rw [if_pos he] at hl
      have ht := tiles_iff.1 (h.checked a hl)
      rw [hw] at ht
      exact hne (Option.some.inj ht)
  · rintro ⟨hcut, hwrap⟩
    by_cases ht : Tiles r.order r.body r.numElements
    · refine ⟨fun lookup memory => ?_, fun _ _ => ht, fun hno => absurd ht hno⟩
      obtain ⟨records, hf, hn, hall⟩ := ht
      exact parse_records hf hn hall lookup memory
    · -- the length check refuses
      have hl : ∃ status, r.lengthCheck = .ok (.error status) := by
        cases hw : walkEnd r.order r.body r.numElements 0 with
        | none =>
          rcases lengthCheck_none hw with ⟨hc, -⟩ | ⟨-, hl⟩
          · exact absurd hc hcut
          · exact hl
        | some e =>
          obtain ⟨a, hl⟩ := lengthCheck_walk hw
          have hne : e ≠ r.body.length := by
            rintro rfl
            exact ht (tiles_iff.2 hw)
          have he : e % 2 ^ 32 ≠ r.body.length := fun he => hwrap ⟨e, hw, he, hne⟩
          rw [if_neg he] at hl
          exact ⟨auBadLength, hl⟩
      obtain ⟨status, hl⟩ := hl
      refine ⟨fun lookup memory hf => ?_, fun a ha => ?_, fun _ => parse_error hl⟩
      · obtain ⟨status', hp⟩ := parse_error hl lookup memory
        rw [hp] at hf
        cases hf
      · rw [hl] at ha
        cases ha

end Request

/-! ### Requests that are not contained -/

/-- One `importDevice` element without actions, in the byte order of the server. -/
def deviceElement : List UInt8 := [1, 0] ++ List.replicate 22 0

/-- One element where two are announced: the second one is read behind the body. -/
def cutRequest : Request where
  order := .little
  clocked := true
  flow := 1
  numElements := 2
  body := deviceElement
  numElements_lt := by decide
  length_lt := by decide

/-- One element that announces 2³⁰ actions, which are 3 · 2³² bytes, and has none. -/
def wrapRequest : Request where
  order := .little
  clocked := true
  flow := 1
  numElements := 1
  body := [1, 0] ++ List.replicate 13 0 ++ [64] ++ List.replicate 8 0
  numElements_lt := by decide
  length_lt := by decide

theorem contained_fails :
    cutRequest.parse (fun _ => some 0) true = .error .fault ∧
      (wrapRequest.lengthCheck = .ok (.ok (2 ^ 30)) ∧ ¬ Tiles wrapRequest.order wrapRequest.body wrapRequest.numElements ∧
        wrapRequest.parse (fun _ => some 0) true = .error .fault) ∧
      ¬ cutRequest.Contained ∧ ¬ wrapRequest.Contained := by
  have hcut : cutRequest.parse (fun _ => some 0) true = .error .fault := by decide +kernel
  have hwrap : wrapRequest.parse (fun _ => some 0) true = .error .fault := by decide +kernel
  have hpass : wrapRequest.lengthCheck = .ok (.ok (2 ^ 30)) := by decide +kernel
  have hno : ¬ Tiles wrapRequest.order wrapRequest.body wrapRequest.numElements := by
    rw [tiles_iff]
    decide +kernel
  exact ⟨hcut, ⟨hpass, hno, hwrap⟩, fun h => h.inside _ _ hcut, fun h => h.inside _ _ hwrap⟩

end Nas.SetElements
