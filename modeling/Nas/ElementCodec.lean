import Nas.Cells
import Nas.SetElements
import Nas.SwapElement
import Nas.TrackRuns

/-!
# Elements to the server and back

`AuSetElements` writes each element into the union `auElement`, as it is from the element before, and its actions,
tracks or inputs behind it; `ProcAuSetElements` keeps the bytes and where in them each element is; `ProcAuGetElements`
sends them again, each element as long as the server took it to be; `AuGetElements` reads them.

An element is written as cells in a block (`elementBytes_eq`), so that all four agree about one layout. The passes of
the server over the bytes do what the model of its requests does with the elements (`parse_bytes`), and what comes
back is what was sent, also for a client of the other byte order.
-/

namespace Nas.ElementCodec
open Elements AuStatus

/-! ### The client writes -/

def xfer (pos width value : Nat) : Cell := ⟨⟨pos, width⟩, value⟩

/-- An `AuInt32` as a `CARD32`. -/
def wordOf (c : AuFixedPoint) : Nat := (c % 2 ^ 32).toNat

def typeOf : AuElement AuFixedPoint → Nat
  | .importClient _ => importClient
  | .importDevice _ => importDevice
  | .importBucket _ => importBucket
  | .importWaveForm _ => importWaveForm
  | .bundle _ => bundle
  | .multiplyConstant .. => multiplyConstant
  | .addConstant .. => addConstant
  | .sum _ => Elements.sum
  | .exportClient _ => exportClient
  | .exportDevice _ => exportDevice
  | .exportBucket _ => exportBucket
  | .exportMonitor _ => exportMonitor
  | .other type => type

/-- What is assigned in the union for an element of each type. -/
def numbers : AuElement AuFixedPoint → List Cell
  | .importClient p =>
    [xfer 2 2 p.sampleRate, xfer 4 1 p.format, xfer 5 1 p.numTracks, xfer 6 1 p.discard.toNat, xfer 8 4 p.maxSamples,
      xfer 12 4 p.lowWaterMark, xfer 16 4 p.actions.length]
  | .importDevice p =>
    [xfer 2 2 p.sampleRate, xfer 4 4 p.numSamples, xfer 8 4 p.device, xfer 12 4 p.actions.length]
  | .importBucket p =>
    [xfer 2 2 p.sampleRate, xfer 4 4 p.numSamples, xfer 8 4 p.bucket, xfer 12 4 p.offset, xfer 16 4 p.actions.length]
  | .importWaveForm p =>
    [xfer 2 2 p.sampleRate, xfer 4 4 p.numSamples, xfer 8 1 p.waveForm, xfer 12 4 p.frequency,
      xfer 16 4 p.actions.length]
  | .bundle inputs => [xfer 2 2 inputs.length]
  | .multiplyConstant input constant => [xfer 2 2 input, xfer 4 4 (wordOf constant)]
  | .addConstant input constant => [xfer 2 2 input, xfer 4 4 (wordOf constant)]
  | .sum inputs => [xfer 2 2 inputs.length]
  | .exportClient p =>
    [xfer 2 2 p.sampleRate, xfer 4 2 p.input, xfer 8 1 p.format, xfer 9 1 p.numTracks, xfer 10 1 p.discard.toNat,
      xfer 12 4 p.maxSamples, xfer 16 4 p.highWaterMark, xfer 20 4 p.actions.length]
  | .exportDevice p =>
    [xfer 2 2 p.sampleRate, xfer 4 2 p.input, xfer 8 4 p.numSamples, xfer 12 4 p.device, xfer 16 4 p.actions.length]
  | .exportBucket p =>
    [xfer 2 2 p.input, xfer 4 4 p.numSamples, xfer 8 4 p.bucket, xfer 12 4 p.offset, xfer 16 4 p.actions.length]
  | .exportMonitor p => [xfer 2 2 p.eventRate, xfer 4 2 p.input, xfer 8 1 p.format, xfer 9 1 p.numTracks]
  | .other _ => []

def members (el : AuElement AuFixedPoint) : List Cell := xfer 0 2 (typeOf el) :: numbers el

def actionCells (action : AuElementAction) : List Cell :=
  [xfer 0 4 action.flow, xfer 4 1 action.elementNum, xfer 5 1 action.triggerState, xfer 6 1 action.triggerPrevState,
    xfer 7 1 action.triggerReason, xfer 8 1 action.action, xfer 9 1 action.newState]

def trackCells (tr : AuInputTrack) : List Cell := [xfer 0 1 tr.elementNum, xfer 1 1 tr.track]

/-- What the variables of the client hold before they are written to, and the output buffer where pad goes. -/
structure Scratch where
  /-- the `auElement` of `AuSetElements` -/
  e : List UInt8
  /-- the `auElementAction` of `writeActions` -/
  a : List UInt8
  /-- the `auInputTrack` -/
  t : List UInt8
  pad : List UInt8
  e_length : e.length = sizeofAuElement
  a_length : a.length = sizeofAuElementAction
  t_length : t.length = sizeofAuInputTrack
  pad_length : pad.length = sizeofCARD16

section Write
variable (o : ByteOrder)

def writeActions (a : List UInt8) (actions : List AuElementAction) : List UInt8 :=
  actions.flatMap fun action => o.storeAll (actionCells action) a

/-- What is written behind an element. -/
def itemBytes (s : Scratch) : AuElement AuFixedPoint → List UInt8
  | .bundle inputs => inputs.flatMap fun tr => o.storeAll (trackCells tr) s.t
  | .sum inputs =>
    -- _AuData16
    let data := inputs.flatMap (o.encode 2)
    data ++ s.pad.take (pad4 data.length - data.length)
  | el => writeActions o s.a el.actions

def elementBytes (s : Scratch) (el : AuElement AuFixedPoint) : List UInt8 :=
  o.storeAll (members el) s.e ++ itemBytes o s el

def elementsBytes (l : List (Scratch × AuElement AuFixedPoint)) : List UInt8 :=
  l.flatMap fun x => elementBytes o x.1 x.2

/-- A call of `AuSetElements`, with what is in the output buffer where the header goes. -/
structure Call where
  flow : AuID
  clocked : Bool
  elements : List (Scratch × AuElement AuFixedPoint)
  buffer : List UInt8
  buffer_length : buffer.length = Requests.sizeofAuSetElementsReq

namespace Call
variable (c : Call)

def varLen : Nat := (c.elements.map (·.2.varLen)).sum

/-- `req->length`, before it is cut to 16 bits. -/
def length : Nat := Requests.sizeofAuSetElementsReq / 4 + (c.elements.length * sizeofAuElement + c.varLen) / 4

def header : List Cell :=
  [xfer 0 1 Requests.setElements, xfer 1 1 c.clocked.toNat, xfer 2 2 c.length, xfer 4 4 c.flow,
    xfer 8 4 c.elements.length]

def body : List UInt8 := elementsBytes o c.elements

def bytes : List UInt8 := o.storeAll c.header c.buffer ++ c.body o

end Call

/-- The request `AuSetElements` writes, unless an element is of a type it does not know. -/
def auSetElements (c : Call) : Except AuStatus (List UInt8) :=
  if c.elements.any (·.2.isOther) then .error auBadElement else .ok (c.bytes o)

end Write

/-! ### The server keeps the bytes -/

/-- A `SetElements` request as the handler gets it. -/
def requestOf (o : ByteOrder) (m : List UInt8) (hsize : Requests.sizeofAuSetElementsReq ≤ m.length)
    (hshort : m.length < 2 ^ 18) : SetElements.Request where
  order := o
  clocked := o.read 1 m 1 ≠ 0
  flow := o.read 4 m 4
  numElements := o.read 4 m 8
  body := m.drop Requests.sizeofAuSetElementsReq
  numElements_lt := ByteOrder.read_lt hsize
  length_lt := by
    rw [List.length_drop]
    omega

/-- What the handler gets of a request. One of a client of the other byte order is swapped first. -/
def received (o client : ByteOrder) (dm : SwapRequests.DataModel) (b : List UInt8) :
    Exec (Except AuStatus (List UInt8)) :=
  if client = o then .ok (.ok b)
  else do
    let handler ← Exec.deref (SwapRequests.sproc o dm (Requests.reqType b) b)
    let swapped ← handler
    .ok (swapped.map (·.mem))

/-- What the flow has of a request that was let through. -/
structure FlowElements where
  flowId : AuID
  clocked : Bool
  raw : List UInt8
  varLen : Int
  elements : List SetElements.ElementRec

/-- `flow->varLen` is what the sizing pass has added up. -/
def sizedVarLen (r : SetElements.Request) : Int :=
  match SetElements.sizingPass r.order r.body r.numElements 0 0 0 with
  | .ok (.ok (varLen, _)) => asInt32 varLen
  | _ => 0

def stored (r : SetElements.Request) (els : List SetElements.ElementRec) : FlowElements where
  flowId := r.flow
  clocked := r.clocked
  raw := r.body
  varLen := sizedVarLen r
  elements := els

def sizeofAuGetElementsReply : Nat := 32

/-- `rep.length`, from a sum of 64 bits. -/
def FlowElements.length (f : FlowElements) : Nat :=
  (((f.elements.length * sizeofAuElement : Nat) + f.varLen) % 2 ^ 64).toNat / 4

/-- What is assigned in an `auGetElementsReply`. -/
def FlowElements.reply (f : FlowElements) (sequence : Nat) : List Cell :=
  [xfer 0 1 1, xfer 1 1 f.clocked.toNat, xfer 2 2 sequence, xfer 4 4 f.length, xfer 8 4 f.flowId,
    xfer 12 4 f.elements.length]

/-- The numbers `SAuGetElementsReply` swaps. -/
def replyFields : List Field := [⟨2, 2⟩, ⟨4, 4⟩, ⟨8, 4⟩, ⟨12, 4⟩]

/-- `ProcAuGetElements`: what it writes to a client, and which is swapped for one of the other byte order. `rep` is what
was on the stack where the reply is built. -/
def procAuGetElements (o : ByteOrder) (swapped : Bool) (sequence : Nat) (rep : List UInt8) (f : FlowElements) :
    Exec (List UInt8) := do
  let rep := o.storeAll (f.reply sequence) rep
  let written ← f.elements.mapM fun e => do
    let raw ← Memory.load f.raw e.raw (e.varLen + sizeofAuElement)
    if swapped then SwapRequests.auCopySwapElementWrite o true raw else .ok raw
  .ok ((if swapped then swapAll replyFields rep else rep) ++ written.flatten)

/-! ### The client reads -/

section Read
variable (o : ByteOrder)

/-- `_AuReadPad` of `n` bytes that are there, with their pad. -/
def auReadPad (n : Nat) (s : List UInt8) : Exec (List UInt8 × List UInt8) :=
  if pad4 n ≤ s.length then .ok (s.take n, s.drop (pad4 n)) else .error .fault

/-- So many things of one size, each read for itself. -/
def readItems {α : Type} (size : Nat) (item : List UInt8 → α) : (n : Nat) → List UInt8 → Exec (List α × List UInt8)
  | 0, s => .ok ([], s)
  | n + 1, s => do
    let (bs, s) ← auReadPad size s
    let (rest, s) ← readItems size item n s
    .ok (item bs :: rest, s)

def readAction (a : List UInt8) : AuElementAction :=
  let xfer (pos width : Nat) : Nat := o.read width a pos
  { flow := xfer 0 4, elementNum := xfer 4 1, triggerState := xfer 5 1, triggerPrevState := xfer 6 1
    triggerReason := xfer 7 1, action := xfer 8 1, newState := xfer 9 1 }

def readTrack (t : List UInt8) : AuInputTrack :=
  let xfer (pos width : Nat) : Nat := o.read width t pos
  { elementNum := xfer 0 1, track := xfer 1 1 }

/-- The actions behind an element. Their number is an `int`. -/
def readActions (num : Nat) (s : List UInt8) : Exec (List AuElementAction × List UInt8) :=
  readItems sizeofAuElementAction (readAction o) (asInt32 num).toNat s

/-- One round of the loop of `AuGetElements`, when there is memory. -/
def readElement (s : List UInt8) : Exec (AuElement AuFixedPoint × List UInt8) := do
  let (e, s) ← auReadPad sizeofAuElement s
  let xfer (pos width : Nat) : Nat := o.read width e pos
  let type := xfer 0 2
  if type = importClient then do
    let (actions, s) ← readActions o (xfer 16 4) s
    .ok (.importClient
      { sampleRate := xfer 2 2, format := xfer 4 1, numTracks := xfer 5 1, discard := xfer 6 1 ≠ 0
        maxSamples := xfer 8 4, lowWaterMark := xfer 12 4, actions }, s)
  else if type = importDevice then do
    let (actions, s) ← readActions o (xfer 12 4) s
    .ok (.importDevice { sampleRate := xfer 2 2, numSamples := xfer 4 4, device := xfer 8 4, actions }, s)
  else if type = importBucket then do
    let (actions, s) ← readActions o (xfer 16 4) s
    .ok (.importBucket
      { sampleRate := xfer 2 2, numSamples := xfer 4 4, bucket := xfer 8 4, offset := xfer 12 4, actions }, s)
  else if type = importWaveForm then do
    let (actions, s) ← readActions o (xfer 16 4) s
    .ok (.importWaveForm
      { sampleRate := xfer 2 2, numSamples := xfer 4 4, waveForm := xfer 8 1, frequency := xfer 12 4, actions }, s)
  else if type = bundle then do
    let (inputs, s) ← readItems sizeofAuInputTrack (readTrack o) (xfer 2 2) s
    .ok (.bundle inputs, s)
  else if type = multiplyConstant then .ok (.multiplyConstant (xfer 2 2) (auFixedPointOf (xfer 4 4)), s)
  else if type = addConstant then .ok (.addConstant (xfer 2 2) (auFixedPointOf (xfer 4 4)), s)
  else if type = Elements.sum then do
    let n := xfer 2 2 * sizeofCARD16
    let (inputs, s) ← auReadPad n s
    .ok (.sum ((List.range (xfer 2 2)).map fun i => o.read 2 inputs (i * sizeofCARD16)), s)
  else if type = exportClient then do
    let (actions, s) ← readActions o (xfer 20 4) s
    .ok (.exportClient
      { sampleRate := xfer 2 2, input := xfer 4 2, format := xfer 8 1, numTracks := xfer 9 1, discard := xfer 10 1 ≠ 0
        maxSamples := xfer 12 4, highWaterMark := xfer 16 4, actions }, s)
  else if type = exportDevice then do
    let (actions, s) ← readActions o (xfer 16 4) s
    .ok (.exportDevice
      { sampleRate := xfer 2 2, input := xfer 4 2, numSamples := xfer 8 4, device := xfer 12 4, actions }, s)
  else if type = exportBucket then do
    let (actions, s) ← readActions o (xfer 16 4) s
    .ok (.exportBucket
      { input := xfer 2 2, numSamples := xfer 4 4, bucket := xfer 8 4, offset := xfer 12 4, actions }, s)
  else if type = exportMonitor then
    .ok (.exportMonitor { eventRate := xfer 2 2, input := xfer 4 2, format := xfer 8 1, numTracks := xfer 9 1 }, s)
  else .ok (.other type, s)

def readElements : (n : Nat) → List UInt8 → Exec (List (AuElement AuFixedPoint) × List UInt8)
  | 0, s => .ok ([], s)
  | n + 1, s => do
    let (el, s) ← readElement o s
    let (rest, s) ← readElements n s
    .ok (el :: rest, s)

/-- `AuGetElements`, answered with a reply: whether the flow is clocked, its elements, and what is behind the reply. -/
def auGetElements (s : List UInt8) : Exec (Bool × List (AuElement AuFixedPoint) × List UInt8) := do
  let (rep, s) ← auReadPad sizeofAuGetElementsReply s
  let (elements, s) ← readElements o (o.read 4 rep 12) s
  .ok (o.read 1 rep 1 ≠ 0, elements, s)

end Read

/-! ### Elements as cells -/

/-- The numbers behind an element. -/
def itemCells : AuElement AuFixedPoint → List Cell
  | .bundle inputs => chain (fun _ => sizeofAuInputTrack) trackCells 0 inputs
  | .sum inputs => chain (fun _ => sizeofCARD16) (fun input => [xfer 0 2 input]) 0 inputs
  | el => chain (fun _ => sizeofAuElementAction) actionCells 0 el.actions

/-- All numbers of an element, where it has them. -/
def cells (el : AuElement AuFixedPoint) : List Cell := members el ++ (itemCells el).map (Cell.shift sizeofAuElement)

/-- The numbers of an element have room. -/
structure Fits (el : AuElement AuFixedPoint) : Prop where
  cells : ∀ c ∈ cells el, c.Fits
  constant : ∀ input c, el = .multiplyConstant input c ∨ el = .addConstant input c → -2 ^ 31 ≤ c ∧ c < 2 ^ 31

/-- The numbers of a call have room, and its request has less than 2¹⁶ words. -/
structure Call.Fits (c : Call) : Prop where
  elements : ∀ x ∈ c.elements, ElementCodec.Fits x.2
  flow : c.flow < 2 ^ 32
  short : c.length < 2 ^ 16

/-- The bytes behind an element before its items are written. -/
def itemBlock (s : Scratch) : AuElement AuFixedPoint → List UInt8
  | .bundle inputs => inputs.flatMap fun _ => s.t
  | .sum inputs => inputs.flatMap (fun _ => s.pad) ++ s.pad.take (pad4 (inputs.length * 2) - inputs.length * 2)
  | el => el.actions.flatMap fun _ => s.a

section
variable {o : ByteOrder} {s : Scratch} {el : AuElement AuFixedPoint}

theorem apart_members (el : AuElement AuFixedPoint) : Apart sizeofAuElement (members el) := by
  cases el <;> exact ⟨by simp [members, numbers, xfer, Field.Before], by simp [members, numbers, xfer, sizeofAuElement]⟩

theorem apart_action (a : AuElementAction) : Apart sizeofAuElementAction (actionCells a) :=
  ⟨by simp [actionCells, xfer, Field.Before], by simp [actionCells, xfer, sizeofAuElementAction]⟩

theorem apart_track (tr : AuInputTrack) : Apart sizeofAuInputTrack (trackCells tr) :=
  ⟨by simp [trackCells, xfer, Field.Before], by simp [trackCells, xfer, sizeofAuInputTrack]⟩

theorem apart_input (v : Nat) : Apart sizeofCARD16 [xfer 0 2 v] :=
  ⟨by simp, by simp [xfer, sizeofCARD16]⟩

theorem sum_map_const {α : Type} (l : List α) (n : Nat) : (l.map fun _ => n).sum = l.length * n := by simp

theorem apart_items (el : AuElement AuFixedPoint) : Apart el.varLen (itemCells el) := by
  have hactions : ∀ actions : List AuElementAction, Apart (actions.length * sizeofAuElementAction)
      (chain (fun _ => sizeofAuElementAction) actionCells 0 actions) := by
    intro actions
    rw [← sum_map_const]
    exact apart_chain fun a _ => apart_action a
  cases el with
  | bundle inputs =>
    rw [AuElement.varLen, ← sum_map_const]
    exact apart_chain fun tr _ => apart_track tr
  | sum inputs =>
    have hinputs : Apart (inputs.map fun _ => sizeofCARD16).sum
        (chain (fun _ => sizeofCARD16) (fun input => [xfer 0 2 input]) 0 inputs) := apart_chain fun v _ => apart_input v
    rw [sum_map_const] at hinputs
    refine hinputs.mono ?_
    rw [AuElement.varLen, sizeofCARD16, pad4]
    omega
  | importClient | importDevice | importBucket | importWaveForm | exportClient | exportDevice | exportBucket
  | multiplyConstant | addConstant | exportMonitor | other => exact hactions _

theorem apart_cells (el : AuElement AuFixedPoint) : Apart (sizeofAuElement + el.varLen) (cells el) :=
  (apart_members el).append (apart_items el)

theorem length_itemBlock (s : Scratch) (el : AuElement AuFixedPoint) : (itemBlock s el).length = el.varLen := by
  cases el with
  | bundle inputs => rw [itemBlock, List.length_flatMap, sum_map_const, s.t_length, AuElement.varLen]
  | sum inputs =>
    rw [itemBlock, List.length_append, List.length_flatMap, sum_map_const, List.length_take, s.pad_length,
      AuElement.varLen, sizeofCARD16, pad4]
    omega
  | importClient | importDevice | importBucket | importWaveForm | exportClient | exportDevice | exportBucket
  | multiplyConstant | addConstant | exportMonitor | other =>
    rw [itemBlock, List.length_flatMap, sum_map_const, s.a_length, AuElement.varLen]
    all_goals
      intro _ h
      cases h

theorem itemBytes_eq (o : ByteOrder) (s : Scratch) (el : AuElement AuFixedPoint) :
    itemBytes o s el = o.storeAll (itemCells el) (itemBlock s el) := by
  have hactions : ∀ actions, writeActions o s.a actions =
      o.storeAll (chain (fun _ => sizeofAuElementAction) actionCells 0 actions) (actions.flatMap fun _ => s.a) :=
    fun actions => storeAll_chain (fun _ _ => s.a_length) fun a _ => apart_action a
  cases el with
  | bundle inputs => exact storeAll_chain (fun _ _ => s.t_length) fun tr _ => apart_track tr
  | sum inputs =>
    have hpad : s.pad.length = 2 := s.pad_length
    have hone : (fun v => o.storeAll [xfer 0 2 v] s.pad) = o.encode 2 := by
      funext v
      unfold xfer ByteOrder.storeAll Cell.store Ring.splice Cell.bytes
      simp [hpad]
    have hdata : (inputs.flatMap (o.encode 2)).length = inputs.length * 2 := by simp [List.length_flatMap]
    have hbytes : inputs.flatMap (fun v => o.storeAll [xfer 0 2 v] s.pad) =
        o.storeAll (chain (fun _ => sizeofCARD16) (fun v => [xfer 0 2 v]) 0 inputs) (inputs.flatMap fun _ => s.pad) :=
      storeAll_chain (fun _ _ => s.pad_length) fun v _ => apart_input v
    have hin : ∀ c ∈ chain (fun _ => sizeofCARD16) (fun v => [xfer 0 2 v]) 0 inputs,
        c.field.Inside (inputs.flatMap fun _ => s.pad) := by
      intro c hc
      rw [Field.Inside, List.length_flatMap, hpad]
      exact (apart_chain fun v _ => apart_input v).inside c hc
    rw [hone] at hbytes
    rw [itemBytes, hdata, hbytes]
    exact (ByteOrder.storeAll_left _ hin).symm
  | importClient | importDevice | importBucket | importWaveForm | exportClient | exportDevice | exportBucket
  | multiplyConstant | addConstant | exportMonitor | other => exact hactions _

/-- What is in the memory of an element before it is written. -/
def elementBlock (s : Scratch) (el : AuElement AuFixedPoint) : List UInt8 := s.e ++ itemBlock s el

theorem length_elementBlock (s : Scratch) (el : AuElement AuFixedPoint) :
    (elementBlock s el).length = sizeofAuElement + el.varLen := by
  rw [elementBlock, List.length_append, s.e_length, length_itemBlock]

/-- An element is written into a block of its size. -/
theorem elementBytes_eq (o : ByteOrder) (s : Scratch) (el : AuElement AuFixedPoint) :
    elementBytes o s el = o.storeAll (cells el) (elementBlock s el) := by
  have hmembers : ∀ c ∈ members el, c.field.Inside s.e := by
    intro c hc
    rw [Field.Inside, s.e_length]
    exact (apart_members el).inside c hc
  have hitems : ∀ c ∈ itemCells el, c.field.Inside (itemBlock s el) := by
    intro c hc
    rw [Field.Inside, length_itemBlock]
    exact (apart_items el).inside c hc
  rw [cells, elementBlock, ← s.e_length, ByteOrder.storeAll_two hmembers hitems, elementBytes, itemBytes_eq]

theorem length_elementBytes (o : ByteOrder) (s : Scratch) (el : AuElement AuFixedPoint) :
    (elementBytes o s el).length = sizeofAuElement + el.varLen := by
  rw [elementBytes_eq, ByteOrder.length_storeAll fun c hc => ?_, length_elementBlock]
  rw [Field.Inside, length_elementBlock]
  exact (apart_cells el).inside c hc

theorem Fits.members (h : Fits el) : ∀ c ∈ members el, c.Fits := fun c hc => h.cells c (List.mem_append_left _ hc)

theorem Fits.items (h : Fits el) : ∀ c ∈ itemCells el, c.Fits :=
  fun c hc => h.cells (c.shift sizeofAuElement) (List.mem_append_right _ (List.mem_map_of_mem hc))

/-- What was assigned in the union is read there. -/
theorem read_member {c : Cell} (h : Fits el) (hc : c ∈ members el) :
    o.read c.field.width (elementBytes o s el) c.field.pos = c.value := by
  rw [elementBytes_eq]
  exact ByteOrder.read_storeAll (by rw [length_elementBlock]; exact apart_cells el) (List.mem_append_left _ hc)
    (h.members c hc)

theorem typeAt_element (h : Fits el) : typeAt o (elementBytes o s el) 0 = typeOf el :=
  read_member (c := xfer 0 2 (typeOf el)) h List.mem_cons_self

/-- The number of actions is where the server looks for it. -/
theorem actions_member {off : Nat} (ho : el.isOther = false) (h : actionsAt (typeOf el) = some off) :
    xfer off 4 el.actions.length ∈ members el := by
  cases el with
  | other => cases ho
  | bundle | multiplyConstant | addConstant | sum | exportMonitor => cases h
  | importClient | importDevice | importBucket | importWaveForm | exportClient | exportDevice | exportBucket =>
    cases h
    simp [members, numbers, AuElement.actions]

theorem numActionsAt_element (h : Fits el) (ho : el.isOther = false) :
    numActionsAt o (elementBytes o s el) 0 = el.actions.length := by
  rw [numActionsAt, typeAt_element h]
  rcases ha : actionsAt (typeOf el) with - | off
  · cases el with
    | other => cases ho
    | bundle | multiplyConstant | addConstant | sum | exportMonitor => rfl
    | importClient | importDevice | importBucket | importWaveForm | exportClient | exportDevice | exportBucket =>
      cases ha
  · have := read_member (o := o) (s := s) h (actions_member ho ha)
    dsimp only [xfer] at this
    dsimp only
    rw [← this, Nat.zero_add]

theorem varBytes_element (h : Fits el) (ho : el.isOther = false) :
    varBytes o (elementBytes o s el) 0 = some el.varLen := by
  have hinputs : ∀ n, xfer 2 2 n ∈ members el → o.read 2 (elementBytes o s el) (0 + 2) = n :=
    fun n hn => read_member h hn
  rw [varBytes, typeAt_element h, numActionsAt_element h ho]
  cases el with
  | other => cases ho
  | importClient | importDevice | importBucket | importWaveForm | exportClient | exportDevice | exportBucket => rfl
  | bundle inputs =>
    rw [hinputs inputs.length (List.mem_cons_of_mem _ List.mem_cons_self)]
    rfl
  | sum inputs =>
    rw [hinputs inputs.length (List.mem_cons_of_mem _ List.mem_cons_self)]
    rfl
  | multiplyConstant | addConstant | exportMonitor => rfl

theorem isElement_bytes (h : Fits el) (ho : el.isOther = false) : IsElement o (elementBytes o s el) :=
  ⟨el.varLen, varBytes_element h ho, length_elementBytes o s el⟩

/-- The numbers of an element are those the server swaps. -/
theorem wide_cells (h : Fits el) (ho : el.isOther = false) :
    wide (cells el) = Requests.fieldsOfElement (typeAt o (elementBytes o s el) 0) 0
      (Requests.itemsAt o (elementBytes o s el) 0) := by
  have hinputs : ∀ n, xfer 2 2 n ∈ members el → o.read 2 (elementBytes o s el) (0 + 2) = n :=
    fun n hn => read_member h hn
  have hshift : ∀ l : List Field, l.map (Field.shift 0) = l := by
    intro l
    conv_rhs => rw [← List.map_id l]
    exact List.map_congr_left fun f _ => by rw [Field.shift, Nat.zero_add, id]
  have hactions : ∀ actions : List AuElementAction, wide ((chain (fun _ => sizeofAuElementAction) actionCells 0
      actions).map (Cell.shift sizeofAuElement)) = spaced sizeofAuElement sizeofAuElementAction 4 actions.length := by
    intro actions
    rw [chain_shift, Nat.add_zero]
    exact wide_chain_spaced fun a _ => rfl
  rw [cells, wide_append, Requests.fieldsOfElement, Requests.itemsAt, typeAt_element h, numActionsAt_element h ho,
    hshift, Requests.itemFields, Nat.zero_add, Nat.zero_add]
  cases el with
  | other => cases ho
  | importClient p | importDevice p | importBucket p | importWaveForm p | exportClient p | exportDevice p
  | exportBucket p => exact (congrArg _ (hactions p.actions)).trans rfl
  | bundle inputs =>
    have hno : wide ((chain (fun _ => sizeofAuInputTrack) trackCells 0 inputs).map
        (Cell.shift sizeofAuElement)) = [] := by
      rw [chain_shift]
      exact wide_chain_nil fun tr _ => rfl
    exact congrArg _ hno
  | sum inputs =>
    have hspaced : wide ((chain (fun _ => sizeofCARD16) (fun v => [xfer 0 2 v]) 0 inputs).map
        (Cell.shift sizeofAuElement)) = spaced sizeofAuElement sizeofCARD16 2 inputs.length := by
      rw [chain_shift, Nat.add_zero]
      exact wide_chain_spaced fun v _ => rfl
    rw [hinputs inputs.length (List.mem_cons_of_mem _ List.mem_cons_self)]
    exact congrArg _ hspaced
  | multiplyConstant | addConstant | exportMonitor => rfl

/-! ### One element is read -/

section
variable {α : Type} {n : Nat} {bs rest : List UInt8}

theorem auReadPad_append (gap rest : List UInt8) (hn : bs.length = n) (hgap : (bs ++ gap).length = pad4 n) :
    auReadPad n (bs ++ gap ++ rest) = .ok (bs, rest) := by
  rw [auReadPad, if_pos (by rw [List.length_append, hgap]; exact Nat.le_add_right ..), ← hgap, List.drop_left,
    List.append_assoc, ← hn, List.take_left]

theorem auReadPad_words (hn : bs.length = n) (h4 : n % 4 = 0) : auReadPad n (bs ++ rest) = .ok (bs, rest) := by
  have hpad : pad4 n = n := by
    unfold pad4
    omega
  have := auReadPad_append [] rest hn (by rw [List.append_nil, hn, hpad])
  rwa [List.append_nil] at this

theorem readItems_flatMap {size : Nat} {item : List UInt8 → α} {write : α → List UInt8} {l : List α}
    (hlen : ∀ a ∈ l, (write a).length = size) (h4 : size % 4 = 0) (hitem : ∀ a ∈ l, item (write a) = a) :
    readItems size item l.length (l.flatMap write ++ rest) = .ok (l, rest) := by
  induction l with
  | nil => rfl
  | cons a l ih =>
    have hrest := ih (fun a ha => hlen a (List.mem_cons_of_mem _ ha)) fun a ha => hitem a (List.mem_cons_of_mem _ ha)
    rw [List.flatMap_cons, List.append_assoc, List.length_cons, readItems,
      auReadPad_words (hlen a List.mem_cons_self) h4, Exec.ok_bind]
    dsimp only
    rw [hrest, Exec.ok_bind, hitem a List.mem_cons_self]

theorem length_storeAll_apart {l : List Cell} {m : List UInt8} (h : Apart m.length l) :
    (o.storeAll l m).length = m.length :=
  ByteOrder.length_storeAll fun c hc => h.inside c hc

theorem readAction_cells {a : AuElementAction} (h : ∀ c ∈ actionCells a, c.Fits) :
    readAction o (o.storeAll (actionCells a) s.a) = a := by
  have hread := ByteOrder.read_all (o := o) (m := s.a) (by rw [s.a_length]; exact apart_action a) h
  simp only [actionCells, xfer, List.map_cons, List.map_nil, List.cons.injEq, and_true] at hread
  obtain ⟨h₀, h₄, h₅, h₆, h₇, h₈, h₉⟩ := hread
  unfold readAction
  dsimp only [actionCells, xfer]
  rw [h₀, h₄, h₅, h₆, h₇, h₈, h₉]

theorem readTrack_cells {tr : AuInputTrack} (h : ∀ c ∈ trackCells tr, c.Fits) :
    readTrack o (o.storeAll (trackCells tr) s.t) = tr := by
  have hread := ByteOrder.read_all (o := o) (m := s.t) (by rw [s.t_length]; exact apart_track tr) h
  simp only [trackCells, xfer, List.map_cons, List.map_nil, List.cons.injEq, and_true] at hread
  obtain ⟨h₀, h₁⟩ := hread
  unfold readTrack
  dsimp only [trackCells, xfer]
  rw [h₀, h₁]

theorem readActions_cells (actions : List AuElementAction)
    (h : ∀ c ∈ chain (fun _ => sizeofAuElementAction) actionCells 0 actions, c.Fits)
    (hsmall : actions.length < 2 ^ 31) :
    readActions o actions.length (writeActions o s.a actions ++ rest) = .ok (actions, rest) := by
  rw [readActions, asInt32_nonneg hsmall, Int.toNat_natCast]
  refine readItems_flatMap (fun a ha => ?_) (by decide) fun a ha => readAction_cells (fits_of_chain h ha)
  rw [length_storeAll_apart (by rw [s.a_length]; exact apart_action a), s.a_length]

theorem auFixedPointOf_wordOf {c : Int} (h : -2 ^ 31 ≤ c ∧ c < 2 ^ 31) : auFixedPointOf (wordOf c) = c := by
  show asInt32 (c % 2 ^ 32).toNat = c
  unfold asInt32
  split <;> omega

theorem decide_toNat {n : Nat} {b : Bool} [Decidable (n ≠ 0)] (h : n = b.toNat) : decide (n ≠ 0) = b := by
  subst h
  cases b <;> simp

/-- Numbers one behind the other. -/
theorem read_words {w : Nat} {l : List Nat} (h : ∀ v ∈ l, v < 256 ^ w) :
    (List.range l.length).map (fun i => o.read w (l.flatMap (o.encode w)) (i * w)) = l := by
  have hlen : ∀ k : List Nat, (k.flatMap (o.encode w)).length = k.length * w := by simp [List.length_flatMap]
  refine List.ext_getElem (by simp) fun i hi _ => ?_
  have hi : i < l.length := by simpa using hi
  have hsplit : l.flatMap (o.encode w) =
      (l.take i).flatMap (o.encode w) ++ o.encode w l[i] ++ (l.drop (i + 1)).flatMap (o.encode w) := by
    conv_lhs => rw [← List.take_append_drop i l, List.drop_eq_getElem_cons hi]
    rw [List.flatMap_append, List.flatMap_cons, List.append_assoc]
  have hpre : ((l.take i).flatMap (o.encode w)).length = i * w := by
    rw [hlen, List.length_take, Nat.min_eq_left hi.le]
  have hread : o.read w ((l.take i).flatMap (o.encode w) ++ o.encode w l[i] ++ (l.drop (i + 1)).flatMap (o.encode w))
      (((l.take i).flatMap (o.encode w)).length + 0) = o.read w (o.encode w l[i]) 0 := ByteOrder.read_middle (by simp)
  rw [List.getElem_map, List.getElem_range, hsplit, ← hpre, ← Nat.add_zero ((l.take i).flatMap _).length, hread,
    ByteOrder.read, Memory.slice_all (by simp), ByteOrder.decode_encode (h _ (List.getElem_mem hi))]

/-- An element is read as it was written, and nothing behind it. -/
theorem readElement_bytes (h : Fits el) (ho : el.isOther = false) (hsmall : el.actions.length < 2 ^ 31) :
    readElement o (elementBytes o s el ++ rest) = .ok (el, rest) := by
  have hlen : (o.storeAll (members el) s.e).length = sizeofAuElement := by
    rw [length_storeAll_apart (by rw [s.e_length]; exact apart_members el), s.e_length]
  have hread := ByteOrder.read_all (o := o) (m := s.e) (by rw [s.e_length]; exact apart_members el) h.members
  rw [elementBytes, readElement, List.append_assoc, auReadPad_words hlen (by decide), Exec.ok_bind]
  dsimp only
  generalize o.storeAll (members el) s.e = e at hread
  cases el with
  | other => cases ho
  | importClient p =>
    simp only [members, numbers, typeOf, xfer, List.map_cons, List.map_nil, List.cons.injEq, and_true] at hread
    obtain ⟨h₀, h₂, h₄, h₅, h₆, h₈, h₁₂, h₁₆⟩ := hread
    rw [if_pos h₀, h₁₆, show itemBytes o s (.importClient p) = writeActions o s.a p.actions from rfl,
      readActions_cells p.actions h.items hsmall, Exec.ok_bind]
    dsimp only
    rw [h₂, h₄, h₅, decide_toNat h₆, h₈, h₁₂]
  | importDevice p =>
    simp only [members, numbers, typeOf, xfer, List.map_cons, List.map_nil, List.cons.injEq, and_true] at hread
    obtain ⟨h₀, h₂, h₄, h₈, h₁₂⟩ := hread
    repeat rw [if_neg (by rw [h₀]; decide)]
    rw [if_pos h₀, h₁₂, show itemBytes o s (.importDevice p) = writeActions o s.a p.actions from rfl,
      readActions_cells p.actions h.items hsmall, Exec.ok_bind]
    dsimp only
    rw [h₂, h₄, h₈]
  | importBucket p =>
    simp only [members, numbers, typeOf, xfer, List.map_cons, List.map_nil, List.cons.injEq, and_true] at hread
    obtain ⟨h₀, h₂, h₄, h₈, h₁₂, h₁₆⟩ := hread
    repeat rw [if_neg (by rw [h₀]; decide)]
    rw [if_pos h₀, h₁₆, show itemBytes o s (.importBucket p) = writeActions o s.a p.actions from rfl,
      readActions_cells p.actions h.items hsmall, Exec.ok_bind]
    dsimp only
    rw [h₂, h₄, h₈, h₁₂]
  | importWaveForm p =>
    simp only [members, numbers, typeOf, xfer, List.map_cons, List.map_nil, List.cons.injEq, and_true] at hread
    obtain ⟨h₀, h₂, h₄, h₈, h₁₂, h₁₆⟩ := hread
    repeat rw [if_neg (by rw [h₀]; decide)]
    rw [if_pos h₀, h₁₆, show itemBytes o s (.importWaveForm p) = writeActions o s.a p.actions from rfl,
      readActions_cells p.actions h.items hsmall, Exec.ok_bind]
    dsimp only
    rw [h₂, h₄, h₈, h₁₂]
  | bundle inputs => 
    simp only [members, numbers, typeOf, xfer, List.map_cons, List.map_nil, List.cons.injEq, and_true] at hread
    obtain ⟨h₀, h₂⟩ := hread
    repeat rw [if_neg (by rw [h₀]; decide)]
    rw [if_pos h₀, h₂]
    have hitems : readItems sizeofAuInputTrack (readTrack o) inputs.length
        (inputs.flatMap (fun tr => o.storeAll (trackCells tr) s.t) ++ rest) = .ok (inputs, rest) := readItems_flatMap
      (fun tr _ => by rw [length_storeAll_apart (by rw [s.t_length]; exact apart_track tr), s.t_length]) (by decide)
      fun tr htr => readTrack_cells (fits_of_chain h.items htr)
    rw [show itemBytes o s (.bundle inputs) = inputs.flatMap fun tr => o.storeAll (trackCells tr) s.t from rfl, hitems,
      Exec.ok_bind]
  | multiplyConstant input c =>
    simp only [members, numbers, typeOf, xfer, List.map_cons, List.map_nil, List.cons.injEq, and_true] at hread
    obtain ⟨h₀, h₂, h₄⟩ := hread
    repeat rw [if_neg (by rw [h₀]; decide)]
    rw [if_pos h₀, h₂, h₄, auFixedPointOf_wordOf (h.constant _ _ (.inl rfl))]
    rfl
  | addConstant input c =>
    simp only [members, numbers, typeOf, xfer, List.map_cons, List.map_nil, List.cons.injEq, and_true] at hread
    obtain ⟨h₀, h₂, h₄⟩ := hread
    repeat rw [if_neg (by rw [h₀]; decide)]
    rw [if_pos h₀, h₂, h₄, auFixedPointOf_wordOf (h.constant _ _ (.inr rfl))]
    rfl
  | sum inputs =>
    simp only [members, numbers, typeOf, xfer, List.map_cons, List.map_nil, List.cons.injEq, and_true] at hread
    obtain ⟨h₀, h₂⟩ := hread
    repeat rw [if_neg (by rw [h₀]; decide)]
    have hdata : (inputs.flatMap (o.encode 2)).length = inputs.length * sizeofCARD16 := by
      simp [List.length_flatMap, sizeofCARD16]
    have hpad : s.pad.length = 2 := s.pad_length
    have hgap : (itemBytes o s (.sum inputs)).length = pad4 (inputs.length * sizeofCARD16) := by
      rw [itemBytes, List.length_append, List.length_take, hdata, hpad]
      unfold pad4 sizeofCARD16
      omega
    have hskip := auReadPad_append _ rest hdata hgap
    have hinputs := read_words (o := o) (w := 2) fun v hv => fits_of_chain h.items hv _ List.mem_cons_self
    rw [if_pos h₀, h₂, itemBytes, hskip, Exec.ok_bind]
    dsimp only [sizeofCARD16]
    rw [hinputs]
  | exportClient p =>
    simp only [members, numbers, typeOf, xfer, List.map_cons, List.map_nil, List.cons.injEq, and_true] at hread
    obtain ⟨h₀, h₂, h₄, h₈, h₉, h₁₀, h₁₂, h₁₆, h₂₀⟩ := hread
    repeat rw [if_neg (by rw [h₀]; decide)]
    rw [if_pos h₀, h₂₀, show itemBytes o s (.exportClient p) = writeActions o s.a p.actions from rfl,
      readActions_cells p.actions h.items hsmall, Exec.ok_bind]
    dsimp only
    rw [h₂, h₄, h₈, h₉, decide_toNat h₁₀, h₁₂, h₁₆]
  | exportDevice p =>
    simp only [members, numbers, typeOf, xfer, List.map_cons, List.map_nil, List.cons.injEq, and_true] at hread
    obtain ⟨h₀, h₂, h₄, h₈, h₁₂, h₁₆⟩ := hread
    repeat rw [if_neg (by rw [h₀]; decide)]
    rw [if_pos h₀, h₁₆, show itemBytes o s (.exportDevice p) = writeActions o s.a p.actions from rfl,
      readActions_cells p.actions h.items hsmall, Exec.ok_bind]
    dsimp only
    rw [h₂, h₄, h₈, h₁₂]
  | exportBucket p =>
    simp only [members, numbers, typeOf, xfer, List.map_cons, List.map_nil, List.cons.injEq, and_true] at hread
    obtain ⟨h₀, h₂, h₄, h₈, h₁₂, h₁₆⟩ := hread
    repeat rw [if_neg (by rw [h₀]; decide)]
    rw [if_pos h₀, h₁₆, show itemBytes o s (.exportBucket p) = writeActions o s.a p.actions from rfl,
      readActions_cells p.actions h.items hsmall, Exec.ok_bind]
    dsimp only
    rw [h₂, h₄, h₈, h₁₂]
  | exportMonitor p =>
    simp only [members, numbers, typeOf, xfer, List.map_cons, List.map_nil, List.cons.injEq, and_true] at hread
    obtain ⟨h₀, h₂, h₄, h₈, h₉⟩ := hread
    repeat rw [if_neg (by rw [h₀]; decide)]
    rw [if_pos h₀, h₂, h₄, h₈, h₉]
    rfl

end

/-! ### The request -/

namespace Call
variable {c : Call}

/-- All numbers of the request. -/
def cells (c : Call) : List Cell :=
  c.header ++ (chain (fun x => sizeofAuElement + x.2.varLen) (fun x => ElementCodec.cells x.2) 0 c.elements).map
    (Cell.shift Requests.sizeofAuSetElementsReq)

/-- The memory of the request before it is written. -/
def block (c : Call) : List UInt8 := c.buffer ++ c.elements.flatMap fun x => elementBlock x.1 x.2

def records (o : ByteOrder) (c : Call) : List (List UInt8) := c.elements.map fun x => elementBytes o x.1 x.2

theorem body_eq : (c.records o).flatten = c.body o := by
  rw [records, body, elementsBytes, List.flatMap_def]

theorem four_dvd_varLen (el : AuElement AuFixedPoint) : 4 ∣ el.varLen := by
  cases el <;> simp only [AuElement.varLen, pad4, sizeofAuInputTrack, sizeofAuElementAction] <;> omega

theorem sum_sizes (c : Call) :
    (c.elements.map fun x => sizeofAuElement + x.2.varLen).sum = c.elements.length * sizeofAuElement + c.varLen := by
  unfold varLen
  generalize c.elements = l
  induction l with
  | nil => rfl
  | cons x l ih =>
    simp only [List.map_cons, List.sum_cons, List.length_cons, ih, Nat.succ_mul]
    omega

theorem length_body : (c.body o).length = c.elements.length * sizeofAuElement + c.varLen := by
  rw [body, elementsBytes, List.length_flatMap, List.map_congr_left fun x _ => length_elementBytes o x.1 x.2, sum_sizes]

theorem length_blocks : (c.elements.flatMap fun x => elementBlock x.1 x.2).length =
    c.elements.length * sizeofAuElement + c.varLen := by
  rw [List.length_flatMap, List.map_congr_left fun x _ => length_elementBlock x.1 x.2, sum_sizes]

theorem apart_header : Apart Requests.sizeofAuSetElementsReq c.header :=
  ⟨by simp [header, xfer, Field.Before], by simp [header, xfer, Requests.sizeofAuSetElementsReq]⟩

theorem length_header : (o.storeAll c.header c.buffer).length = Requests.sizeofAuSetElementsReq := by
  rw [length_storeAll_apart (by rw [c.buffer_length]; exact apart_header), c.buffer_length]

theorem length_bytes : (c.bytes o).length = 4 * c.length := by
  have hdvd : 4 ∣ c.varLen := by
    unfold varLen
    generalize c.elements = l
    induction l with
    | nil => exact ⟨0, rfl⟩
    | cons x l ih =>
      rw [List.map_cons, List.sum_cons]
      exact Nat.dvd_add (four_dvd_varLen x.2) ih
  rw [bytes, List.length_append, length_header, length_body, length]
  unfold Requests.sizeofAuSetElementsReq sizeofAuElement
  omega

theorem apart_elements (c : Call) : Apart (c.elements.length * sizeofAuElement + c.varLen)
    (chain (fun x => sizeofAuElement + x.2.varLen) (fun x => ElementCodec.cells x.2) 0 c.elements) := by
  rw [← sum_sizes]
  exact apart_chain fun x _ => ElementCodec.apart_cells x.2

theorem apart_cells (c : Call) : Apart c.block.length c.cells := by
  rw [block, List.length_append, c.buffer_length, length_blocks]
  exact apart_header.append (apart_elements c)

/-- The request is written into a block of its size. -/
theorem bytes_eq : c.bytes o = o.storeAll c.cells c.block := by
  have hheader : ∀ x ∈ c.header, x.field.Inside c.buffer := by
    intro x hx
    rw [Field.Inside, c.buffer_length]
    exact apart_header.inside x hx
  have hrest : ∀ x ∈ chain (fun x : Scratch × AuElement AuFixedPoint => sizeofAuElement + x.2.varLen)
      (fun x => ElementCodec.cells x.2) 0 c.elements,
      x.field.Inside (c.elements.flatMap fun x => elementBlock x.1 x.2) := by
    intro x hx
    rw [Field.Inside, length_blocks]
    exact (apart_elements c).inside x hx
  have hbody : c.body o = o.storeAll (chain (fun x => sizeofAuElement + x.2.varLen) (fun x => ElementCodec.cells x.2) 0
      c.elements) (c.elements.flatMap fun x => elementBlock x.1 x.2) := by
    rw [← storeAll_chain (fun x _ => length_elementBlock x.1 x.2) fun x _ => ElementCodec.apart_cells x.2, body]
    unfold elementsBytes
    exact congrArg (List.flatMap · c.elements) (funext fun x => elementBytes_eq o x.1 x.2)
  rw [cells, block, ← c.buffer_length, ByteOrder.storeAll_two hheader hrest, bytes, hbody]

theorem numElements_le : c.elements.length ≤ c.length := by
  unfold length sizeofAuElement
  omega

theorem fits_cells (h : c.Fits) : ∀ x ∈ c.cells, x.Fits := by
  have hflow := h.flow
  have hshort := h.short
  have hnum := c.numElements_le
  have hclocked := Bool.toNat_lt c.clocked
  intro x hx
  rcases List.mem_append.1 hx with hx | hx
  · simp only [header, xfer, List.mem_cons, List.not_mem_nil, or_false] at hx
    rcases hx with rfl | rfl | rfl | rfl | rfl <;> simp only [Cell.Fits] <;> norm_num [Requests.setElements] <;> omega
  · obtain ⟨b, hb, rfl⟩ := List.mem_map.1 hx
    exact fits_chain (fun a ha => (h.elements a ha).cells) b hb

theorem read_header {x : Cell} (h : c.Fits) (hx : x ∈ c.header) :
    o.read x.field.width (c.bytes o) x.field.pos = x.value := by
  rw [bytes_eq]
  exact ByteOrder.read_storeAll c.apart_cells (List.mem_append_left _ hx) (fits_cells h x (List.mem_append_left _ hx))

/-! ### As the server sees it -/

theorem isElement_records (h : c.Fits) (hknown : ∀ x ∈ c.elements, x.2.isOther = false) :
    ∀ r ∈ c.records o, IsElement o r := by
  intro r hr
  obtain ⟨x, hx, rfl⟩ := List.mem_map.1 hr
  exact isElement_bytes (h.elements x hx) (hknown x hx)

theorem reqType_bytes (h : c.Fits) : Requests.reqType (c.bytes o) = Requests.setElements := by
  have hread := read_header (o := o) (x := xfer 0 1 Requests.setElements) h List.mem_cons_self
  have hlen : 1 ≤ (c.bytes o).length := by
    rw [length_bytes, length, Requests.sizeofAuSetElementsReq]
    omega
  refine Eq.trans ?_ hread
  generalize c.bytes o = m at hlen
  cases m with
  | nil => cases hlen
  | cons b m => cases o <;> simp [Requests.reqType, xfer, ByteOrder.read, ByteOrder.decode, Memory.slice, valueOf]

theorem countAt_bytes (h : c.Fits) : Requests.countAt o (c.bytes o) 8 = c.elements.length :=
  read_header (x := xfer 8 4 c.elements.length) h (by simp [header])

theorem drop_header : (c.bytes o).drop Requests.sizeofAuSetElementsReq = c.body o := by
  rw [bytes, ← length_header, List.drop_left]

theorem wellFormed_bytes (h : c.Fits) (hknown : ∀ x ∈ c.elements, x.2.isOther = false) :
    Requests.WellFormed o (c.bytes o) where
  words := by
    rw [length_bytes]
    omega
  header := by
    rw [length_bytes, length, Requests.sizeofAuSetElementsReq, Requests.sizeofAuReq]
    omega
  short := by
    rw [length_bytes]
    have := h.short
    omega
  complete := by
    unfold Requests.Complete
    dsimp only
    rw [reqType_bytes h, if_neg (by decide), if_neg (by decide), if_neg (by decide), if_neg (by decide), if_pos rfl,
      countAt_bytes h, drop_header]
    refine ⟨?_, c.records o, body_eq, List.length_map .., isElement_records h hknown⟩
    rw [length_bytes, length, Requests.sizeofAuSetElementsReq]
    omega

theorem fieldsOfElement_shift (type p n : Nat) :
    Requests.fieldsOfElement type p n = (Requests.fieldsOfElement type 0 n).map (Field.shift p) := by
  have hshift : ∀ l : List Field, (l.map (Field.shift 0)).map (Field.shift p) = l.map (Field.shift p) := by
    intro l
    rw [List.map_map]
    refine List.map_congr_left fun f _ => ?_
    rw [Function.comp_apply, Field.shift, Field.shift, Field.shift, Nat.zero_add]
  have hspaced : ∀ d w, (spaced (0 + sizeofAuElement) d w n).map (Field.shift p) =
      spaced (p + sizeofAuElement) d w n := by
    intro d w
    unfold spaced
    rw [List.map_map]
    exact List.map_congr_left fun i _ => by rw [Function.comp_apply, Field.shift, Nat.zero_add, Nat.add_assoc]
  unfold Requests.fieldsOfElement Requests.itemFields
  rw [List.map_append, List.map_cons, hshift]
  congr 1
  split
  · exact (hspaced _ _).symm
  · split
    · exact (hspaced _ _).symm
    · rfl

/-- The numbers of the elements. -/
theorem elementsFields_bytes (pre post : List UInt8) {l : List (Scratch × AuElement AuFixedPoint)}
    (h : ∀ x ∈ l, ElementCodec.Fits x.2) (hknown : ∀ x ∈ l, x.2.isOther = false) :
    Requests.elementsFields o (pre ++ elementsBytes o l ++ post) l.length pre.length =
      wide (chain (fun x => sizeofAuElement + x.2.varLen) (fun x => ElementCodec.cells x.2) pre.length l) := by
  induction l generalizing pre with
  | nil => rfl
  | cons x l ih =>
    have hx := h x List.mem_cons_self
    have ho := hknown x List.mem_cons_self
    have helement := isElement_bytes (o := o) (s := x.1) hx ho
    have hsplit : pre ++ elementsBytes o (x :: l) ++ post =
        pre ++ elementBytes o x.1 x.2 ++ (elementsBytes o l ++ post) := by simp [elementsBytes]
    have hsplit' : pre ++ elementBytes o x.1 x.2 ++ (elementsBytes o l ++ post) =
        (pre ++ elementBytes o x.1 x.2) ++ elementsBytes o l ++ post := by simp
    have hnext : pre.length + x.2.varLen + sizeofAuElement = (pre ++ elementBytes o x.1 x.2).length := by
      rw [List.length_append, length_elementBytes]
      omega
    have hlen : 2 ≤ (elementBytes o x.1 x.2).length := by
      rw [length_elementBytes, sizeofAuElement]
      omega
    rw [wide_chain_cons, wide_cells (o := o) (s := x.1) hx ho, ← fieldsOfElement_shift, List.length_cons,
      Requests.elementsFields, hsplit, typeAt_middle pre _ hlen, SwapRequests.itemsAt_middle pre _ helement.header,
      varBytes_middle pre _ helement.header, varBytes_element hx ho, Option.getD_some, hsplit', hnext]
    congr 1
    rw [ih (pre ++ elementBytes o x.1 x.2) (fun y hy => h y (List.mem_cons_of_mem _ hy)) fun y hy =>
      hknown y (List.mem_cons_of_mem _ hy), ← hnext]
    congr 2
    omega

/-- The request of a client of the other byte order. -/
theorem foreign_bytes (h : c.Fits) (hknown : ∀ x ∈ c.elements, x.2.isOther = false) :
    Requests.foreign o (c.bytes o) = c.bytes o.other := by
  have hlayout : Requests.layout o (c.bytes o) = wide c.cells := by
    have helements := elementsFields_bytes (o := o) (o.storeAll c.header c.buffer) [] h.elements hknown
    rw [List.append_nil, length_header] at helements
    unfold Requests.layout
    dsimp only
    rw [reqType_bytes h, if_neg (by decide), if_neg (by decide), if_neg (by decide), if_neg (by decide), if_pos rfl,
      countAt_bytes h, cells, wide_append, chain_shift, Nat.add_zero, ← helements]
    rfl
  rw [Requests.foreign, hlayout, bytes_eq, bytes_eq, swapAll_storeAll c.apart_cells]

/-- However the client orders its bytes, the handler gets them in the order of the server. -/
theorem received_bytes (client : ByteOrder) (dm : SwapRequests.DataModel) (h : c.Fits)
    (hknown : ∀ x ∈ c.elements, x.2.isOther = false) :
    received o client dm (c.bytes client) = .ok (.ok (c.bytes o)) := by
  unfold received
  by_cases hc : client = o
  · rw [if_pos hc, hc]
  · have hother : client = o.other := by
      cases client <;> cases o <;> first | exact absurd rfl hc | rfl
    have hwell := wellFormed_bytes (o := o) h hknown
    have htype := reqType_bytes (o := o) h
    have hfound : SwapRequests.ParametersFound o dm (c.bytes o) := by
      intro hp
      rw [htype] at hp
      cases hp
    rw [if_neg hc, hother, ← foreign_bytes h hknown, SwapRequests.reqType_foreign hwell]
    rcases hrun : SwapRequests.sproc o dm (Requests.reqType (c.bytes o)) (Requests.foreign o (c.bytes o)) with - | run
    · have := SwapRequests.sproc_isSome o dm
        (show Requests.reqType (c.bytes o) ∈ SwapRequests.swappedTypes by rw [htype]; decide)
        (Requests.foreign o (c.bytes o))
      rw [hrun] at this
      cases this
    · rw [SwapRequests.sproc_foreign hwell hfound hrun]
      rfl

end Call

/-! ### The passes of the server -/

section Passes
variable {lookup : AuID → Option FlowPtr} {flow : FlowPtr} {n room i a : Nat}

theorem loadAction_cells (pre post : List UInt8) {action : AuElementAction} (h : ∀ c ∈ actionCells action, c.Fits) :
    SetElements.loadAction o (pre ++ o.storeAll (actionCells action) s.a ++ post) pre.length = .ok action := by
  have hread := ByteOrder.read_all (o := o) (m := s.a) (by rw [s.a_length]; exact apart_action action) h
  have hlen : (o.storeAll (actionCells action) s.a).length = sizeofAuElementAction := by
    rw [length_storeAll_apart (by rw [s.a_length]; exact apart_action action), s.a_length]
  simp only [actionCells, xfer, List.map_cons, List.map_nil, List.cons.injEq, and_true] at hread
  obtain ⟨h₀, h₄, h₅, h₆, h₇, h₈, h₉⟩ := hread
  simp only [actionCells, xfer] at hlen ⊢
  generalize o.storeAll _ s.a = raw at *
  have hload : ∀ k w, k + w ≤ sizeofAuElementAction → o.load w (pre ++ raw ++ post) (pre.length + k) =
      .ok (o.read w raw k) := by
    intro k w hk
    rw [← hlen] at hk
    rw [ByteOrder.load_ok (by simp only [List.length_append]; omega), ByteOrder.read_middle hk]
  unfold SetElements.loadAction
  rw [← Nat.add_zero pre.length, hload 0 4 (by decide), Nat.add_zero, hload 4 1 (by decide), hload 5 1 (by decide),
    hload 6 1 (by decide), hload 7 1 (by decide), hload 8 1 (by decide), hload 9 1 (by decide), h₀, h₄, h₅, h₆, h₇, h₈,
    h₉]
  rfl

/-- The pass over the actions stores what the model of a request stores for them. -/
theorem actionPass_cells (lookup : AuID → Option FlowPtr) (pre post : List UInt8) {actions : List AuElementAction}
    (h : ∀ action ∈ actions, ∀ c ∈ actionCells action, c.Fits) (hroom : a + actions.length ≤ room) :
    SetElements.actionPass o (pre ++ writeActions o s.a actions ++ post) lookup n room actions.length pre.length a =
      .ok (actions.mapM (storeAction lookup n)) := by
  induction actions generalizing pre a with
  | nil => rfl
  | cons action actions ih =>
    have hlen : (o.storeAll (actionCells action) s.a).length = sizeofAuElementAction := by
      rw [length_storeAll_apart (by rw [s.a_length]; exact apart_action action), s.a_length]
    have hsplit : pre ++ writeActions o s.a (action :: actions) ++ post =
        pre ++ o.storeAll (actionCells action) s.a ++ (writeActions o s.a actions ++ post) := by
      simp [writeActions]
    have hsplit' : pre ++ o.storeAll (actionCells action) s.a ++ (writeActions o s.a actions ++ post) =
        (pre ++ o.storeAll (actionCells action) s.a) ++ writeActions o s.a actions ++ post := by simp
    rw [List.length_cons] at hroom
    have hrest := ih (pre ++ o.storeAll (actionCells action) s.a) (a := a + 1)
      (fun b hb => h b (List.mem_cons_of_mem _ hb)) (by omega)
    rw [List.length_append, hlen] at hrest
    rw [hsplit, List.length_cons, SetElements.actionPass, loadAction_cells _ _ (h action List.mem_cons_self),
      Exec.ok_bind, if_neg (by omega), List.mapM_cons]
    rcases storeAction lookup n action with status | stored
    · rfl
    · dsimp only
      rw [hsplit', hrest, Exec.ok_bind]
      rcases actions.mapM (storeAction lookup n) with status | rest <;> rfl

theorem defaultsOf_typeOf (ho : el.isOther = false) :
    SetElements.defaultsOf flow (typeOf el) = defaultActions flow el := by
  cases el <;> first | rfl | cases ho

theorem countAt_element (h : Fits el) (ho : el.isOther = false) :
    SetElements.countAt o (elementBytes o s el) 0 = el.numActions := by
  rw [SetElements.countAt, numActionsAt_element h ho, typeAt_element h, AuElement.numActions,
    ← SetElements.length_defaultsOf 0, defaultsOf_typeOf ho]
  by_cases ha : el.actions = []
  · rw [if_pos ha, if_neg (by rw [ha]; decide)]
  · rw [if_neg ha, if_pos (by rwa [Ne, List.length_eq_zero_iff])]

/-- The record of an element whose bytes are at `p`. -/
def recordAt (p : Nat) (e : ServerElement) : SetElements.ElementRec where
  raw := p
  elementNum := e.elementNum
  isComponent := e.isComponent
  varLen := e.raw.varLen
  actions := e.actions

/-- The records of elements one behind the other. -/
def recordsFrom : (p : Nat) → List ServerElement → List SetElements.ElementRec
  | _, [] => []
  | p, e :: es => recordAt p e :: recordsFrom (p + sizeofAuElement + e.raw.varLen) es

theorem initElement_bytes (client : Nat) (lookup : AuID → Option FlowPtr) (flow : FlowPtr) (n i : Nat)
    (pre post : List UInt8) (h : Fits el) (ho : el.isOther = false) (hsmall : el.varLen < 2 ^ 31)
    (hroom : a + el.numActions ≤ room) :
    SetElements.initElement o (pre ++ elementBytes o s el ++ post) lookup flow n room i pre.length a =
      .ok ((storeActions lookup flow n el).map fun actions =>
        recordAt pre.length (initElement client i el actions)) := by
  have helement := isElement_bytes (o := o) (s := s) h ho
  have hin := SetElements.header_middle pre post helement
  have hhead := helement.header
  have hlen : sizeofAuElement ≤ (elementBytes o s el).length := by
    rw [length_elementBytes]
    exact Nat.le_add_right ..
  have hload : ∀ k w, k + w ≤ sizeofAuElement → o.load w (pre ++ elementBytes o s el ++ post) (pre.length + k) =
      .ok (o.read w (elementBytes o s el) k) := by
    intro k w hk
    rw [ByteOrder.load_ok (by simp only [List.length_append]; omega), ByteOrder.read_middle (by omega)]
  have htype : o.load 2 (pre ++ elementBytes o s el ++ post) pre.length = .ok (typeOf el) := by
    have := hload 0 2 (by decide)
    rwa [Nat.add_zero, show o.read 2 (elementBytes o s el) 0 = typeOf el from typeAt_element h] at this
  -- the variable part of an element without actions
  have hvar : el.actions = [] → (if typeOf el = bundle then do
        let num ← o.load 2 (pre ++ elementBytes o s el ++ post) (pre.length + 2)
        .ok (num * sizeofAuInputTrack)
      else if typeOf el = Elements.sum then do
        let num ← o.load 2 (pre ++ elementBytes o s el ++ post) (pre.length + 2)
        .ok (pad4 (num * sizeofCARD16))
      else .ok 0 : Exec Nat) = .ok el.varLen := by
    intro ha
    have hinputs : ∀ num, xfer 2 2 num ∈ members el → o.read 2 (elementBytes o s el) 2 = num :=
      fun num hn => read_member h hn
    rw [hload 2 2 (by decide)]
    cases el with
    | other => cases ho
    | bundle inputs =>
      rw [hinputs inputs.length (List.mem_cons_of_mem _ List.mem_cons_self)]
      rfl
    | sum inputs =>
      rw [hinputs inputs.length (List.mem_cons_of_mem _ List.mem_cons_self)]
      rfl
    | importClient | importDevice | importBucket | importWaveForm | exportClient | exportDevice | exportBucket
    | multiplyConstant | addConstant | exportMonitor => exact congrArg (fun l => Except.ok (l.length * 12)) ha.symm
  have hdefault : el.actions = [] → ¬ room < a + (SetElements.defaultsOf flow (typeOf el)).length := by
    intro ha
    rw [AuElement.numActions, if_pos ha, ← defaultsOf_typeOf ho, SetElements.length_defaultsOf] at hroom
    rw [SetElements.length_defaultsOf]
    omega
  have hcomponent : decide (typeOf el ≠ bundle ∧ typeOf el ≠ multiplyConstant ∧ typeOf el ≠ addConstant ∧
      typeOf el ≠ Elements.sum) = el.isComponent := by
    cases el <;> first | rfl | cases ho
  unfold SetElements.initElement
  rw [htype, Exec.ok_bind, storeActions]
  dsimp only
  rcases hat : actionsAt (typeOf el) with - | off
  · have ha : el.actions = [] := by
      cases el with
      | other => cases ho
      | bundle | multiplyConstant | addConstant | sum | exportMonitor => rfl
      | importClient | importDevice | importBucket | importWaveForm | exportClient | exportDevice | exportBucket =>
        cases hat
    dsimp only
    rw [Exec.ok_bind, if_pos rfl, hvar ha, Exec.ok_bind, if_neg (hdefault ha), if_pos ha, hcomponent,
      defaultsOf_typeOf ho]
    rfl
  · obtain ⟨hsize, hbytes, hcells⟩ : el.varLen = el.actions.length * sizeofAuElementAction ∧
        itemBytes o s el = writeActions o s.a el.actions ∧
        ∀ c ∈ chain (fun _ => sizeofAuElementAction) actionCells 0 el.actions, c.Fits := by
      cases el with
      | other => cases ho
      | bundle | multiplyConstant | addConstant | sum | exportMonitor => cases hat
      | importClient | importDevice | importBucket | importWaveForm | exportClient | exportDevice | exportBucket =>
        exact ⟨rfl, rfl, h.items⟩
    have hoff : off + 4 ≤ sizeofAuElement := by
      rw [← headerSize_of_actions hat]
      exact headerSize_le _
    have hnum : o.read 4 (elementBytes o s el) off = el.actions.length := read_member h (actions_member ho hat)
    dsimp only
    rw [hload off 4 hoff, hnum, Exec.ok_bind]
    by_cases ha : el.actions = []
    · rw [if_pos (by rw [ha]; rfl), hvar ha, Exec.ok_bind, if_neg (hdefault ha), if_pos ha, hcomponent,
        defaultsOf_typeOf ho]
      rfl
    · have hpass : SetElements.actionPass o (pre ++ elementBytes o s el ++ post) lookup n room el.actions.length
          (pre.length + sizeofAuElement) a = .ok (el.actions.mapM (storeAction lookup n)) := by
        have hfixed : (o.storeAll (members el) s.e).length = sizeofAuElement := by
          rw [length_storeAll_apart (by rw [s.e_length]; exact apart_members el), s.e_length]
        rw [AuElement.numActions, if_neg ha] at hroom
        have := actionPass_cells (o := o) (s := s) (n := n) lookup (pre ++ o.storeAll (members el) s.e) post
          (fun action haction => fits_of_chain hcells haction) hroom
        rw [List.length_append, hfixed, ← hbytes] at this
        rwa [elementBytes, ← List.append_assoc]
      rw [if_neg (by rwa [List.length_eq_zero_iff]), hpass, Exec.ok_bind, if_neg ha, hcomponent, ← hsize,
        Nat.mod_eq_of_lt (by omega)]
      rfl

/-- The loop of the model over the elements from the `i`th on. -/
def initFrom (lookup : AuID → Option FlowPtr) (client : Nat) (flow : FlowPtr) (n i : Nat)
    (els : List (AuElement AuFixedPoint)) : Except AuStatus (List ServerElement) :=
  (els.zipIdx i).mapM fun x => (storeActions lookup flow n x.1).map fun actions => initElement client x.2 x.1 actions

theorem initFrom_cons (client : Nat) (els : List (AuElement AuFixedPoint)) :
    initFrom lookup client flow n i (el :: els) = (storeActions lookup flow n el).bind fun actions =>
      (initFrom lookup client flow n (i + 1) els).map (initElement client i el actions :: ·) := by
  rw [initFrom, List.zipIdx_cons, List.mapM_cons]
  rcases storeActions lookup flow n el with status | actions
  · rfl
  · rw [initFrom]
    show (List.mapM _ _ >>= _ : Except AuStatus _) = _
    rcases List.mapM _ (els.zipIdx (i + 1)) with status | rest <;> rfl

theorem initElements_eq (client : Nat) (els : List (AuElement AuFixedPoint)) :
    initElements lookup client flow els = initFrom lookup client flow els.length 0 els := by
  unfold initElements initFrom
  congr 1

/-- The pass over the elements leaves the records of what the model of a request makes of them. -/
theorem initElements_bytes (client : Nat) (lookup : AuID → Option FlowPtr) (flow : FlowPtr) (pre post : List UInt8)
    {l : List (Scratch × AuElement AuFixedPoint)} (h : ∀ x ∈ l, Fits x.2)
    (hknown : ∀ x ∈ l, x.2.isOther = false) (hsmall : (elementsBytes o l).length < 2 ^ 18)
    (hroom : a + (l.map (·.2.numActions)).sum ≤ room) :
    SetElements.initElements o (pre ++ elementsBytes o l ++ post) lookup flow n room l.length i
        pre.length a =
      .ok ((initFrom lookup client flow n i (l.map (·.2))).map (recordsFrom pre.length)) := by
  induction l generalizing pre i a with
  | nil => rfl
  | cons x l ih =>
    have hx := h x List.mem_cons_self
    have ho := hknown x List.mem_cons_self
    have hlen := length_elementBytes o x.1 x.2
    simp only [List.map_cons, List.sum_cons] at hroom
    rw [elementsBytes, List.flatMap_cons, ← elementsBytes, List.length_append] at hsmall
    have hsplit : pre ++ elementsBytes o (x :: l) ++ post =
        pre ++ elementBytes o x.1 x.2 ++ (elementsBytes o l ++ post) := by simp [elementsBytes]
    have hsplit' : pre ++ elementBytes o x.1 x.2 ++ (elementsBytes o l ++ post) =
        (pre ++ elementBytes o x.1 x.2) ++ elementsBytes o l ++ post := by simp
    have hone := initElement_bytes (o := o) (s := x.1) client lookup flow n i pre (elementsBytes o l ++ post) hx ho
      (by omega) (show a + x.2.numActions ≤ room by omega)
    rw [hsplit, List.length_cons, List.map_cons, SetElements.initElements, hone, Exec.ok_bind, initFrom_cons]
    rcases hstore : storeActions lookup flow n x.2 with status | actions
    · rfl
    · -- as many actions are stored as there is room for
      have hcount : actions.length = x.2.numActions := by
        have := SetElements.initElement_inside lookup flow n i pre (elementsBytes o l ++ post)
          (isElement_bytes (o := o) (s := x.1) hx ho)
          (show a + SetElements.countAt o (elementBytes o x.1 x.2) 0 ≤ room by rw [countAt_element hx ho]; omega)
          (by omega)
        rw [hone, hstore] at this
        rcases this with ⟨status, hs⟩ | ⟨e, he, hcount, -⟩
        · cases hs
        · cases he
          rw [← countAt_element (o := o) (s := x.1) hx ho, ← hcount]
          rfl
      have hnext : ((pre.length : Int) + (sizeofAuElement : Nat) + asInt32 x.2.varLen).toNat =
          (pre ++ elementBytes o x.1 x.2).length := by
        rw [asInt32_nonneg (by omega), List.length_append]
        omega
      have hrest := ih (pre ++ elementBytes o x.1 x.2) (i := i + 1) (a := a + actions.length)
        (fun y hy => h y (List.mem_cons_of_mem _ hy)) (fun y hy => hknown y (List.mem_cons_of_mem _ hy)) (by omega)
        (by omega)
      have hend : (pre ++ elementBytes o x.1 x.2).length = pre.length + sizeofAuElement + x.2.varLen := by
        rw [List.length_append, hlen, Nat.add_assoc]
      rw [← hsplit'] at hrest
      dsimp only [Except.map, Except.bind, recordAt, initElement]
      rw [hnext, hrest, Exec.ok_bind]
      rcases hrun : initFrom lookup client flow n (i + 1) (l.map (·.2)) with status | rest
      · rw [hrun]
        rfl
      · rw [hrun, hend]
        rfl

end Passes

/-- The request as the model of the server has it. -/
def Call.request (client : Nat) (c : Call) : SetElementsRequest where
  client := client
  flow := c.flow
  clocked := c.clocked
  len := c.elements.length * sizeofAuElement + c.varLen
  elements := c.elements.map (·.2)

/-- What the checks and passes of the model of a request come to. -/
def modelPasses (r : SetElementsRequest) (lookup : AuID → Option FlowPtr) (memory : Bool) :
    Except AuStatus (List ServerElement) :=
  match lookup r.flow with
  | none => .error auBadFlow
  | some p => if ¬ aualloc memory r.size then .error auBadAlloc else initElements lookup r.client p r.elements

section Server
variable {c : Call}

theorem requestOf_fields (hsize : Requests.sizeofAuSetElementsReq ≤ (c.bytes o).length)
    (hshort : (c.bytes o).length < 2 ^ 18) (h : c.Fits) : (requestOf o (c.bytes o) hsize hshort).flow = c.flow ∧
    (requestOf o (c.bytes o) hsize hshort).clocked = c.clocked ∧
    (requestOf o (c.bytes o) hsize hshort).numElements = c.elements.length ∧
    (requestOf o (c.bytes o) hsize hshort).body = c.body o := by
  have hread : ∀ x ∈ c.header, o.read x.field.width (c.bytes o) x.field.pos = x.value :=
    fun x hx => Call.read_header h hx
  have hflow := hread (xfer 4 4 c.flow) (by simp [Call.header])
  have hclocked := hread (xfer 1 1 c.clocked.toNat) (by simp [Call.header])
  have hnum := hread (xfer 8 4 c.elements.length) (by simp [Call.header])
  exact ⟨hflow, decide_toNat hclocked, hnum, Call.drop_header⟩

theorem sum_countAt (h : c.Fits) (hknown : ∀ x ∈ c.elements, x.2.isOther = false) :
    ((c.records o).map (SetElements.countAt o · 0)).sum = ((c.elements.map (·.2)).map (·.numActions)).sum := by
  rw [Call.records, List.map_map, List.map_map]
  congr 1
  exact List.map_congr_left fun x hx => countAt_element (h.elements x hx) (hknown x hx)

/-- The passes over the bytes of a request come to what the model makes of its elements. -/
theorem parse_bytes (client : Nat) (hsize : Requests.sizeofAuSetElementsReq ≤ (c.bytes o).length)
    (hshort : (c.bytes o).length < 2 ^ 18) (h : c.Fits) (hknown : ∀ x ∈ c.elements, x.2.isOther = false)
    (lookup : AuID → Option FlowPtr) (memory : Bool) :
    (requestOf o (c.bytes o) hsize hshort).parse lookup memory =
      .ok ((modelPasses (c.request client) lookup memory).map (recordsFrom 0)) := by
  obtain ⟨hflow, -, hnum, hbody⟩ := requestOf_fields hsize hshort h
  generalize hr : requestOf o (c.bytes o) hsize hshort = r at *
  have horder : r.order = o := by rw [← hr]; rfl
  have hrecords : ∀ x ∈ c.records o, IsElement r.order x := by
    rw [horder]
    exact Call.isElement_records h hknown
  have hflat : (c.records o).flatten = r.body := by rw [hbody, Call.body_eq]
  have hcount : (c.records o).length = r.numElements := by rw [hnum, Call.records, List.length_map]
  have hcheck := SetElements.Request.lengthCheck_records hflat hcount hrecords
  have hblock := SetElements.Request.blockSize_eq hflat hcount hrecords
  have hsum := sum_countAt (o := o) h hknown
  have hlen : r.body.length = c.elements.length * sizeofAuElement + c.varLen := by rw [hbody, Call.length_body]
  rw [horder, hsum] at hcheck hblock
  have hsizes : r.fixedSize + ((c.elements.map (·.2)).map (·.numActions)).sum * sizeofActionRec =
      (c.request client).size := by
    rw [SetElements.Request.fixedSize, SetElementsRequest.size, hlen, hnum, Call.request, List.length_map]
    dsimp only
    rw [show ∀ k, pad4 (k * sizeofActionRec) = k * sizeofActionRec from fun k => by unfold pad4 sizeofActionRec; omega]
  unfold SetElements.Request.parse modelPasses
  rw [hflow, show (c.request client).flow = c.flow from rfl]
  rcases lookup c.flow with - | p
  · rfl
  · dsimp only
    rw [hcheck, Exec.ok_bind]
    dsimp only
    rw [hblock, Nat.add_sub_cancel_left, Nat.mul_div_cancel _ (by decide), hsizes]
    by_cases hmem : aualloc memory (c.request client).size
    · have hpasses := initElements_bytes (o := o) (n := c.elements.length) (i := 0) (a := 0) client lookup p [] []
        h.elements hknown
        (by rw [← Call.body, ← hbody]; exact r.length_lt) (Nat.zero_add _).le
      rw [List.nil_append, List.append_nil, ← Call.body, ← hbody, List.length_nil] at hpasses
      rw [if_neg (not_not.2 hmem), if_neg (not_not.2 hmem), if_neg (by rw [← hsizes]; omega), horder, hnum,
        initElements_eq, List.map_map]
      refine hpasses.trans ?_
      rw [Call.request, List.length_map]
    · rw [if_pos hmem, if_pos hmem]
      rfl

/-! ### The reply -/

/-- A piece of the reply, in the byte order of the client. -/
theorem written_bytes (h : Fits el) (ho : el.isOther = false) (hsmall : el.varLen + sizeofAuElement < 2 ^ 31)
    (swapped : Bool) :
    (if swapped then SwapRequests.auCopySwapElementWrite o true (elementBytes o s el) else .ok (elementBytes o s el)) =
      .ok (elementBytes (if swapped then o.other else o) s el) := by
  cases swapped with
  | false => rfl
  | true =>
    obtain ⟨l, hout⟩ := SwapRequests.swapElementOut_ok (o := o) (m := elementBytes o s el) (p := 0)
      (varBytes_element h ho) (by rw [length_elementBytes]; omega) (by omega)
    have hswap : swapAll (wide (cells el)) (elementBytes o s el) = elementBytes o.other s el := by
      rw [elementBytes_eq, elementBytes_eq]
      exact swapAll_storeAll (by rw [length_elementBlock]; exact apart_cells el)
    rw [if_pos rfl, if_pos rfl, SwapRequests.auCopySwapElementWrite, if_neg (by decide), hout, Exec.ok_bind]
    dsimp only
    rw [← wide_cells h ho, hswap]

/-- The pieces of the reply are the elements one after the other. -/
theorem written_elements (swapped : Bool) (pre post : List UInt8) {l : List (Scratch × AuElement AuFixedPoint)}
    {els : List ServerElement} (hels : els.map (·.raw) = l.map (·.2)) (h : ∀ x ∈ l, Fits x.2)
    (hknown : ∀ x ∈ l, x.2.isOther = false) (hsmall : (elementsBytes o l).length < 2 ^ 18) :
    ((recordsFrom pre.length els).mapM fun e => do
      let raw ← Memory.load (pre ++ elementsBytes o l ++ post) e.raw (e.varLen + sizeofAuElement)
      if swapped then SwapRequests.auCopySwapElementWrite o true raw else .ok raw) =
      .ok (l.map fun x => elementBytes (if swapped then o.other else o) x.1 x.2) := by
  induction l generalizing pre els with
  | nil =>
    obtain rfl : els = [] := List.map_eq_nil_iff.1 hels
    rfl
  | cons x l ih =>
    cases els with
    | nil => cases hels
    | cons e els =>
      obtain ⟨he, hrest⟩ := List.cons.inj hels
      have hx := h x List.mem_cons_self
      have ho := hknown x List.mem_cons_self
      have hlen := length_elementBytes o x.1 x.2
      rw [elementsBytes, List.flatMap_cons, ← elementsBytes, List.length_append] at hsmall
      have hsplit : pre ++ elementsBytes o (x :: l) ++ post =
          pre ++ (elementBytes o x.1 x.2 ++ (elementsBytes o l ++ post)) := by simp [elementsBytes]
      have hsplit' : pre ++ (elementBytes o x.1 x.2 ++ (elementsBytes o l ++ post)) =
          (pre ++ elementBytes o x.1 x.2) ++ elementsBytes o l ++ post := by simp
      have hload : Memory.load (pre ++ (elementBytes o x.1 x.2 ++ (elementsBytes o l ++ post)))
          pre.length (x.2.varLen + sizeofAuElement) = .ok (elementBytes o x.1 x.2) := by
        rw [Memory.load_ok (by simp only [List.length_append]; omega), Nat.add_comm x.2.varLen, ← hlen,
          Memory.slice_middle]
      have hend : pre.length + sizeofAuElement + x.2.varLen = (pre ++ elementBytes o x.1 x.2).length := by
        rw [List.length_append, hlen, Nat.add_assoc]
      have htail := ih (pre ++ elementBytes o x.1 x.2) hrest (fun y hy => h y (List.mem_cons_of_mem _ hy))
        (fun y hy => hknown y (List.mem_cons_of_mem _ hy)) (by omega)
      rw [recordsFrom, List.mapM_cons, hsplit]
      dsimp only [recordAt]
      rw [show e.raw = x.2 from he, hload, Exec.ok_bind, written_bytes hx ho (by omega), Exec.ok_bind, hend, hsplit',
        htail]
      rfl

theorem length_recordsFrom (p : Nat) (els : List ServerElement) : (recordsFrom p els).length = els.length := by
  induction els generalizing p with
  | nil => rfl
  | cons e els ih => rw [recordsFrom, List.length_cons, List.length_cons, ih]

/-- The sizing pass adds up the variable parts. -/
theorem sizedVarLen_bytes (hsize : Requests.sizeofAuSetElementsReq ≤ (c.bytes o).length)
    (hshort : (c.bytes o).length < 2 ^ 18) (h : c.Fits) (hknown : ∀ x ∈ c.elements, x.2.isOther = false) :
    sizedVarLen (requestOf o (c.bytes o) hsize hshort) = c.varLen := by
  obtain ⟨-, -, hnum, hbody⟩ := requestOf_fields hsize hshort h
  have hlt : c.varLen < 2 ^ 31 := by
    have := (requestOf o (c.bytes o) hsize hshort).length_lt
    rw [hbody, Call.length_body] at this
    omega
  have hwalk := walkEnd_flatten (o := o) [] [] (Call.isElement_records h hknown)
  rw [List.nil_append, List.append_nil, Call.body_eq, List.length_nil, Nat.zero_add, Call.records, List.length_map,
    Call.length_body] at hwalk
  obtain ⟨-, a, hs⟩ := SetElements.sizingPass_walk (v := 0) (a := 0) hwalk (by decide)
  rw [Nat.zero_add, Nat.sub_zero, Nat.add_sub_cancel_left, Nat.mod_eq_of_lt (by omega)] at hs
  unfold sizedVarLen
  rw [hbody, hnum, show (requestOf o (c.bytes o) hsize hshort).order = o from rfl, hs]
  exact asInt32_nonneg hlt

theorem actions_le (el : AuElement AuFixedPoint) : el.actions.length ≤ el.varLen := by
  cases el with
  | bundle | sum => exact Nat.zero_le _
  | importClient | importDevice | importBucket | importWaveForm | exportClient | exportDevice | exportBucket
  | multiplyConstant | addConstant | exportMonitor | other => exact Nat.le_mul_of_pos_right _ (by decide)

/-- Elements are read one after the other. -/
theorem readElements_bytes (rest : List UInt8) {l : List (Scratch × AuElement AuFixedPoint)} (h : ∀ x ∈ l, Fits x.2)
    (hknown : ∀ x ∈ l, x.2.isOther = false) (hsmall : (elementsBytes o l).length < 2 ^ 18) :
    readElements o l.length (elementsBytes o l ++ rest) = .ok (l.map (·.2), rest) := by
  induction l with
  | nil => rfl
  | cons x l ih =>
    have hlen := length_elementBytes o x.1 x.2
    rw [elementsBytes, List.flatMap_cons, ← elementsBytes, List.length_append] at hsmall
    have hactions := actions_le x.2
    rw [elementsBytes, List.flatMap_cons, ← elementsBytes, List.append_assoc, List.length_cons, readElements,
      readElement_bytes (h x List.mem_cons_self) (hknown x List.mem_cons_self) (by omega), Exec.ok_bind]
    dsimp only
    rw [ih (fun y hy => h y (List.mem_cons_of_mem _ hy)) (fun y hy => hknown y (List.mem_cons_of_mem _ hy)) (by omega)]
    rfl

theorem apart_reply (f : FlowElements) (sequence : Nat) : Apart sizeofAuGetElementsReply (f.reply sequence) :=
  ⟨by simp [FlowElements.reply, xfer, Field.Before],
    by simp [FlowElements.reply, xfer, sizeofAuGetElementsReply]⟩

theorem wide_reply (f : FlowElements) (sequence : Nat) : wide (f.reply sequence) = replyFields := rfl

/-- The reply, in the byte order of the client. -/
theorem procAuGetElements_bytes (swapped : Bool) (sequence : Nat) {rep : List UInt8} {f : FlowElements}
    {els : List ServerElement} (hrep : rep.length = sizeofAuGetElementsReply) (hraw : f.raw = c.body o)
    (helements : f.elements = recordsFrom 0 els) (hels : els.map (·.raw) = c.elements.map (·.2)) (h : c.Fits)
    (hknown : ∀ x ∈ c.elements, x.2.isOther = false) (hsmall : (c.body o).length < 2 ^ 18) :
    procAuGetElements o swapped sequence rep f =
      .ok ((if swapped then o.other else o).storeAll (f.reply sequence) rep ++
        c.body (if swapped then o.other else o)) := by
  have hwritten := written_elements (o := o) swapped [] [] hels h.elements hknown hsmall
  rw [List.nil_append, List.append_nil, List.length_nil, ← Call.body, ← hraw, ← helements] at hwritten
  have hheader : (if swapped then swapAll replyFields (o.storeAll (f.reply sequence) rep)
      else o.storeAll (f.reply sequence) rep) = (if swapped then o.other else o).storeAll (f.reply sequence) rep := by
    cases swapped with
    | false => rfl
    | true => exact swapAll_storeAll (by rw [hrep]; exact apart_reply f sequence)
  unfold procAuGetElements
  rw [hwritten, Exec.ok_bind, hheader, Call.body, elementsBytes, List.flatMap_def]

end Server

/-- Memory that was in use before. -/
def usedScratch : Scratch where
  e := List.replicate 24 170
  a := List.replicate 12 170
  t := List.replicate 4 170
  pad := [170, 170]
  e_length := rfl
  a_length := rfl
  t_length := rfl
  pad_length := rfl

/-- A port, three times itself, into another port. -/
def portCall : Call where
  flow := 2 ^ 22
  clocked := true
  elements := [(usedScratch, .importClient ⟨8000, 1, 1, false, 8, 2, [⟨0, 0, 255, 255, 255, 2, 0⟩]⟩),
    (usedScratch, .sum [0, 0, 0]), (usedScratch, .exportClient ⟨8000, 1, 1, 1, false, 8, 6, []⟩)]
  buffer := List.replicate 12 170
  buffer_length := rfl

theorem fits_portCall : portCall.Fits where
  elements x hx := by
    simp only [portCall, List.mem_cons, List.not_mem_nil, or_false] at hx
    rcases hx with rfl | rfl | rfl
    all_goals exact ⟨by decide, by simp⟩
  flow := by decide
  short := by decide

theorem known_portCall : ∀ x ∈ portCall.elements, x.2.isOther = false := by decide

/-- The flow with an id, as the handlers look it up. -/
def lookupFlow (s : Server) (id : AuID) : Option FlowPtr := lookupIDByType s.clientTable id .auFlowType

end

end Nas.ElementCodec
