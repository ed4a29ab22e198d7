import Nas.PortInv
import Nas.Dispatch

/-!
# Flow control of an import

An element-notify event for an `ImportClient` grants its client the room that is left in the port, and adds it to
`incoming`, what the client may still send (`fillInEvent`); a `WriteElement` takes from `incoming` what it brings. The
events of an element that is stopped grant the same without adding it, and the end of the data sets `incoming` to
zero whatever was granted. A client that uses such credit gets `incoming` below zero, where it wraps around.

`granted`, `sent` and `lost` record what has happened since the port was made or reset. `credit_sound_iff` says which
runs keep the counters right.
-/

namespace Nas
variable {K : Type}

/-- `AuTransferState` -/
inductive TransferState where
  | ready
  | pending
  | finished
deriving DecidableEq, Repr

/-- An import with its port. -/
structure Importing (K : Type) where
  c : Component
  el : FlowElement K
  /-- The bytes that events have granted. -/
  granted : Nat := 0
  /-- The bytes that requests have brought. -/
  sent : Nat := 0
  /-- What is gone of `granted`: granted while the element was stopped, or not used when the data ended. -/
  lost : Nat := 0
  /-- A request was refused. -/
  refused : Bool := false

namespace Importing
variable (s : Importing K)

/-- `num_bytes` of an event. -/
def numBytes : Nat := sub32 (sub32 s.c.dataSize s.c.currentSize) s.c.incoming

/-- `fillInEvent` for an `ImportClient`. -/
def fillInEvent : Importing K :=
  let numBytes := s.numBytes
  { s with
    c := if s.el.state ≠ auStateStop then { s.c with incoming := (s.c.incoming + numBytes) % 2 ^ 32 } else s.c
    granted := s.granted + numBytes
    lost := if s.el.state ≠ auStateStop then s.lost else s.lost + numBytes }

/-- `AuChangeElementState` for the element, less its actions. -/
def changeElementState (newState : Nat) : Importing K :=
  if newState = s.el.state ∨ (newState = auStatePause ∧ s.el.state = auStateStop) then s
  else if newState = auStateStart ∧ s.el.state = auStateStop then
    let el := (s.el.rewind.move newState).clearStateChange
    -- an empty import is paused before anything gets going
    if s.c.discard then { s with c := startImportPort s.c, el := el.pauseEmpty, granted := 0, sent := 0, lost := 0 }
    else { s with c := startImportPort s.c, el }
  else { s with el := (s.el.move newState).clearStateChange }

/-- `ProcAuWriteElement` for the port. -/
def writeElement (state : TransferState) (bytes : List UInt8) : Exec (Importing K) := do
  match ← writeElementPort s.c bytes with
  | none => .ok { s with refused := true }
  | some c =>
    let s := { s with c, sent := s.sent + bytes.length }
    if state = .pending then .ok s
    else
      let s := if state = .finished then
          { s with c := { s.c with eof := true, incoming := 0 }, lost := s.granted - s.sent }
        else s
      .ok (if bytes ≠ [] ∧ s.el.state = auStatePause then s.changeElementState auStateStart else s)

/-- A tick. `mem`: there is memory for the event it asks for. -/
def tick (fuel : Nat) (rc : RateConvert) (mem : Bool) : Exec (Importing K) :=
  if s.el.state = auStateStart then do
    let (c, el, event) ← readClient fuel rc s.c s.el
    let s := { s with c, el }
    .ok (match event with
      | .none => s
      | .change newState _ => s.changeElementState newState
      | .watermark => if mem then s.fillInEvent else s)
  else .ok s

end Importing

inductive ImportOp where
  /-- An action of the element sends a notification. -/
  | notify
  | writeElement (state : TransferState) (bytes : List UInt8)
  | tick (fuel : Nat) (rc : RateConvert) (mem : Bool)
  | changeElementState (newState : Nat)

def importStep (s : Importing K) : ImportOp → Exec (Importing K)
  | .notify => .ok s.fillInEvent
  | .writeElement state bytes => s.writeElement state bytes
  | .tick fuel rc mem => s.tick fuel rc mem
  | .changeElementState newState => .ok (s.changeElementState newState)

/-- The element of a new port, as `doSetup` leaves it. -/
def newImport (c : Component) (el : FlowElement K) : Importing K :=
  { c, el := { el with minibufChunk := minibufChunkOf c } }

/-! ### Credit -/

/-- No request was refused, and what may still come fits behind what is there. -/
structure Sound (s : Importing K) : Prop where
  accepted : s.refused = false
  fits : s.c.incoming + s.c.currentSize ≤ s.c.dataSize

/-- The client sends no more than events have granted. -/
def Affordable (s : Importing K) : ImportOp → Prop
  | .writeElement _ bytes => s.sent + bytes.length ≤ s.granted
  | _ => True

/-- The client sends no more than events have granted, less what is lost; or it sends the end of its data, and there
is room for it. -/
def Covered (s : Importing K) : ImportOp → Prop
  | .writeElement .finished bytes => bytes.length ≤ s.c.dataSize - s.c.currentSize
  | .writeElement _ bytes => s.sent + bytes.length + s.lost ≤ s.granted
  | _ => True

instance (s : Importing K) : (op : ImportOp) → Decidable (Affordable s op)
  | .writeElement _ _ => inferInstanceAs (Decidable (_ ≤ _))
  | .notify | .tick .. | .changeElementState _ => inferInstanceAs (Decidable True)

instance (s : Importing K) : (op : ImportOp) → Decidable (Covered s op)
  | .writeElement .finished _ | .writeElement .ready _ | .writeElement .pending _ => inferInstanceAs (Decidable (_ ≤ _))
  | .notify | .tick .. | .changeElementState _ => inferInstanceAs (Decidable True)

/-- The counters count what was granted and is not used or lost. -/
structure CreditInv (s : Importing K) : Prop where
  port : PortInv s.c
  accepted : s.refused = false
  fits : s.c.incoming + s.c.currentSize ≤ s.c.dataSize
  credit : s.granted = s.sent + s.lost + s.c.incoming
  chunk : s.el.minibufChunk < 2 ^ 32

theorem PortInv.counters {c : Component} (h : PortInv c) (incoming : Nat) (eof : Bool) :
    PortInv { c with incoming, eof } := by
  have hsame := h.same (show ({ c with incoming, eof } : Component).data = c.data from rfl) rfl rfl rfl rfl
  exact hsame.1

theorem writeElementPort_incoming {c c' : Component} {bytes : List UInt8} (hlt : c.incoming < 2 ^ 32)
    (he : writeElementPort c bytes = .ok (some c')) :
    c'.incoming = sub32 c.incoming bytes.length ∧ c'.dataSize = c.dataSize := by
  unfold writeElementPort at he
  dsimp only at he
  split at he
  · cases he
  · split at he
    · rename_i hzero
      cases he
      exact ⟨by rw [hzero, sub32_eq hlt (Nat.zero_le _)]; rfl, rfl⟩
    · obtain ⟨data, -, he⟩ := Exec.bind_eq_ok.1 he
      obtain ⟨data', -, he⟩ := Exec.bind_eq_ok.1 he
      cases he
      exact ⟨rfl, rfl⟩

/-- A write that there is room for. -/
theorem PortInv.writeElementPort_room {c : Component} (h : PortInv c) {bytes : List UInt8} (hlt : c.incoming < 2 ^ 32)
    (hroom : bytes.length ≤ c.dataSize - c.currentSize) :
    ∃ c', writeElementPort c bytes = .ok (some c') ∧ PortInv c' ∧ c'.currentSize = c.currentSize + bytes.length ∧
      c'.incoming = sub32 c.incoming bytes.length ∧ c'.dataSize = c.dataSize := by
  obtain ⟨c', hc', hport, hunread⟩ := h.writeElementPort_ok hroom
  obtain ⟨hincoming, hsize⟩ := writeElementPort_incoming hlt hc'
  refine ⟨c', hc', hport, ?_, hincoming, hsize⟩
  rw [← hport.length_unread, hunread, List.length_append, h.length_unread]

namespace CreditInv
variable {s s' : Importing K}

theorem sound (h : CreditInv s) : Sound s := ⟨h.accepted, h.fits⟩

theorem numBytes_eq (h : CreditInv s) : s.numBytes = s.c.dataSize - s.c.currentSize - s.c.incoming := by
  have hlt := h.port.dataSize_lt
  have hfits := h.fits
  have hroom : sub32 s.c.dataSize s.c.currentSize = s.c.dataSize - s.c.currentSize :=
    sub32_eq (by omega) h.port.ring.fill_le
  unfold Importing.numBytes
  rw [hroom, sub32_eq (by omega) (by omega)]

theorem fillInEvent (h : CreditInv s) : CreditInv s.fillInEvent := by
  have hlt := h.port.dataSize_lt
  have hfits := h.fits
  have hcredit := h.credit
  unfold Importing.fillInEvent
  rw [h.numBytes_eq]
  generalize hn : s.c.dataSize - s.c.currentSize - s.c.incoming = n
  dsimp only
  split
  · rw [Nat.mod_eq_of_lt (by omega : s.c.incoming + n < 2 ^ 32)]
    refine ⟨h.port.counters _ _, h.accepted, ?_, ?_, h.chunk⟩
    · dsimp only
      omega
    · dsimp only
      omega
  · refine ⟨h.port, h.accepted, h.fits, ?_, h.chunk⟩
    dsimp only
    omega

theorem changeElementState (h : CreditInv s) (newState : Nat) : CreditInv (s.changeElementState newState) := by
  have hport : PortInv (startImportPort s.c) := (h.port.step (K := K) .startImport trivial rfl).1
  unfold Importing.changeElementState
  split
  · exact h
  · split
    · dsimp only
      split
      · rename_i hdiscard
        refine ⟨hport, h.accepted, ?_, ?_, h.chunk⟩
        · rw [startImportPort, if_pos hdiscard]
          exact Nat.zero_le _
        · rw [startImportPort, if_pos hdiscard]
          rfl
      · rename_i hdiscard
        refine ⟨hport, h.accepted, ?_, ?_, h.chunk⟩
        · rw [startImportPort, if_neg hdiscard]
          exact h.fits
        · rw [startImportPort, if_neg hdiscard]
          exact h.credit
    · exact ⟨h.port, h.accepted, h.fits, h.credit, h.chunk⟩

theorem covered_iff (h : CreditInv s) {state : TransferState} (hstate : state ≠ .finished) {bytes : List UInt8} :
    Covered s (.writeElement state bytes) ↔ bytes.length ≤ s.c.incoming := by
  have hcredit := h.credit
  cases state with
  | finished => exact absurd rfl hstate
  | ready | pending =>
    unfold Covered
    omega

/-- What a write does. -/
theorem writeElement_cases {state : TransferState} {bytes : List UInt8} (he : s.writeElement state bytes = .ok s') :
    writeElementPort s.c bytes = .ok none ∧ s' = { s with refused := true } ∨
      ∃ c t, writeElementPort s.c bytes = .ok (some c) ∧
        (state ≠ .finished ∧ t = { s with c, sent := s.sent + bytes.length } ∨
          state = .finished ∧ t = { s with
            c := { c with eof := true, incoming := 0 }
            sent := s.sent + bytes.length
            lost := s.granted - (s.sent + bytes.length) }) ∧
        (s' = t ∨ t.el.state = auStatePause ∧ s' = t.changeElementState auStateStart) := by
  obtain ⟨r, hr, he⟩ := Exec.bind_eq_ok.1 he
  rcases r with - | c
  · cases he
    exact .inl ⟨hr, rfl⟩
  · right
    dsimp only at he
    by_cases hfinished : state = .finished
    · subst hfinished
      rw [if_neg (by decide), if_pos rfl] at he
      refine ⟨c, _, hr, .inr ⟨rfl, rfl⟩, ?_⟩
      split at he
      · rename_i hpaused
        cases he
        exact .inr ⟨hpaused.2, rfl⟩
      · cases he
        exact .inl rfl
    · refine ⟨c, _, hr, .inl ⟨hfinished, rfl⟩, ?_⟩
      split at he
      · cases he
        exact .inl rfl
      · split at he
        · rename_i hpaused
          cases he
          exact .inr ⟨hpaused.2, rfl⟩
        · cases he
          exact .inl rfl

/-- A write that is covered keeps the counters. -/
theorem writeElement (h : CreditInv s) {state : TransferState} {bytes : List UInt8}
    (hafford : Affordable s (.writeElement state bytes)) (hcovered : Covered s (.writeElement state bytes))
    (he : s.writeElement state bytes = .ok s') : CreditInv s' := by
  have hlt := h.port.dataSize_lt
  have hfits := h.fits
  have hcredit := h.credit
  have hafford : s.sent + bytes.length ≤ s.granted := hafford
  have hroom : bytes.length ≤ s.c.dataSize - s.c.currentSize := by
    by_cases hstate : state = .finished
    · subst hstate
      exact hcovered
    · have hle := (h.covered_iff hstate).1 hcovered
      omega
  obtain ⟨c, hc, hport, hsize, hincoming, hdata⟩ := h.port.writeElementPort_room (by omega) hroom
  have hle := hport.ring.fill_le
  rcases writeElement_cases he with ⟨hnone, -⟩ | ⟨c', t, hc', ht, hs'⟩
  · rw [hc] at hnone
    cases hnone
  · obtain rfl : c = c' := by
      rw [hc] at hc'
      cases hc'
      rfl
    have hinv : CreditInv t := by
      rcases ht with ⟨hstate, rfl⟩ | ⟨-, rfl⟩
      · have hle := (h.covered_iff hstate).1 hcovered
        rw [sub32_eq (by omega) hle] at hincoming
        refine ⟨hport, h.accepted, ?_, ?_, h.chunk⟩
        · dsimp only
          omega
        · dsimp only
          omega
      · refine ⟨hport.counters 0 true, h.accepted, ?_, ?_, h.chunk⟩
        · dsimp only
          omega
        · dsimp only
          omega
    rcases hs' with rfl | ⟨-, rfl⟩
    · exact hinv
    · exact hinv.changeElementState _

theorem changeElementState_paused (hpaused : s.el.state = auStatePause) (newState : Nat) :
    (s.changeElementState newState).c = s.c := by
  unfold Importing.changeElementState
  split
  · rfl
  · rw [if_neg (by rw [hpaused]; exact fun h => absurd h.2 (by decide))]

/-- A write that is not covered is refused, or sets `incoming` below zero. -/
theorem writeElement_bad (h : CreditInv s) {state : TransferState} {bytes : List UInt8}
    (hcovered : ¬ Covered s (.writeElement state bytes)) : ∃ s', s.writeElement state bytes = .ok s' ∧ ¬ Sound s' := by
  have hlt := h.port.dataSize_lt
  have hfits := h.fits
  by_cases hroom : bytes.length ≤ s.c.dataSize - s.c.currentSize
  · have hstate : state ≠ .finished := by
      rintro rfl
      exact hcovered hroom
    rw [h.covered_iff hstate] at hcovered
    obtain ⟨c, hc, -, hsize, hincoming, hdata⟩ := h.port.writeElementPort_room (by omega) hroom
    have hwrap : c.incoming + c.currentSize > c.dataSize := by
      rw [hincoming, hsize, hdata]
      unfold sub32
      omega
    unfold Importing.writeElement
    rw [hc, Exec.ok_bind]
    dsimp only
    split
    · exact ⟨_, rfl, fun hsound => absurd hsound.fits (Nat.not_le.2 hwrap)⟩
    · refine ⟨_, rfl, fun hsound => ?_⟩
      have hfits' := hsound.fits
      split at hfits'
      · rename_i hpaused
        rw [changeElementState_paused hpaused.2] at hfits'
        exact absurd hfits' (Nat.not_le.2 hwrap)
      · exact absurd hfits' (Nat.not_le.2 hwrap)
  · unfold Importing.writeElement
    rw [h.port.writeElementPort_refused (by omega), Exec.ok_bind]
    refine ⟨_, rfl, fun hsound => ?_⟩
    have haccepted := hsound.accepted
    cases haccepted

theorem readClient_counters {c c' : Component} {el el' : FlowElement K} {fuel : Nat} {rc : RateConvert} {ev : PortEvent}
    (he : readClient fuel rc c el = .ok (c', el', ev)) :
    c'.incoming = c.incoming ∧ c'.dataSize = c.dataSize ∧ el'.minibufChunk = el.minibufChunk ∧ el'.state = el.state := by
  unfold readClient at he
  dsimp only at he
  split at he
  · cases he
    exact ⟨rfl, rfl, rfl, rfl⟩
  · obtain ⟨o₁, -, he⟩ := Exec.bind_eq_ok.1 he
    obtain ⟨o₂, -, he⟩ := Exec.bind_eq_ok.1 he
    cases he
    exact ⟨rfl, rfl, rfl, rfl⟩

theorem tick (h : CreditInv s) {fuel : Nat} {rc : RateConvert} {mem : Bool} (he : s.tick fuel rc mem = .ok s') :
    CreditInv s' := by
  unfold Importing.tick at he
  split at he
  · obtain ⟨⟨c, el, event⟩, hread, he⟩ := Exec.bind_eq_ok.1 he
    obtain ⟨hport, hsuffix⟩ := h.port.readClient_ok h.chunk hread
    obtain ⟨hincoming, hsize, hchunk, -⟩ := readClient_counters hread
    have hs : CreditInv { s with c, el } := by
      refine ⟨hport, h.accepted, ?_, ?_, ?_⟩
      · have hlen := hsuffix.length_le
        rw [hport.length_unread, h.port.length_unread] at hlen
        have hfits := h.fits
        dsimp only
        omega
      · dsimp only
        rw [hincoming]
        exact h.credit
      · dsimp only
        rw [hchunk]
        exact h.chunk
    cases event with
    | none =>
      cases he
      exact hs
    | change newState reason =>
      cases he
      exact hs.changeElementState newState
    | watermark =>
      cases he
      dsimp only
      split
      · exact hs.fillInEvent
      · exact hs
  · cases he
    exact h

theorem step (h : CreditInv s) {op : ImportOp} (hafford : Affordable s op) (hcovered : Covered s op)
    (he : importStep s op = .ok s') : CreditInv s' := by
  cases op with
  | notify =>
    cases he
    exact h.fillInEvent
  | writeElement state bytes => exact h.writeElement hafford hcovered he
  | tick fuel rc mem => exact h.tick he
  | changeElementState newState =>
    cases he
    exact h.changeElementState newState

end CreditInv

section
variable {auMinibufSamples format numTracks numSamples lowWater highWater : Nat} {discard : Bool} {c : Component}

theorem newImport_inv (hm : auMinibufSamples < 2 ^ 21) (ht : numTracks < 2 ^ 8)
    (hc : createPort auMinibufSamples format numTracks numSamples lowWater highWater discard = some c) (el : FlowElement K) :
    CreditInv (newImport c el) := by
  have hport := createPort_inv hm ht hc
  unfold createPort at hc
  dsimp only at hc
  split at hc
  · cases hc
  · have hmini : auNativeBytesPerSample * auMinibufSamples * numTracks % 2 ^ 32 < 2 ^ 32 := Nat.mod_lt _ (by decide)
    cases hc
    refine ⟨hport, rfl, Nat.zero_le _, rfl, ?_⟩
    unfold newImport minibufChunkOf
    dsimp only
    split
    · omega
    · exact hmini

end

/-- A port of eight bytes, which are kept when its element stops. -/
def keptPort : Component where
  numSamples := 8
  format := 1
  numTracks := 1
  dataSize := 8
  minibufSize := 8
  bytesPerSample := 1
  lowWaterMark := 2
  data := List.replicate 8 0

def keptImport : FlowElement AuFixedPoint := initElement 1 0 (.importClient ⟨8000, 1, 1, false, 8, 2, []⟩) []

/-- The client fills the port each time it is told that there is room, first when the element has stopped. -/
def stoppedOps : List ImportOp :=
  [.changeElementState auStateStart, .changeElementState auStateStop, .notify,
    .writeElement .ready (List.replicate 8 0), .changeElementState auStateStart, .changeElementState auStatePause,
    .notify, .writeElement .ready (List.replicate 8 0)]

/-- No event of a stopped element grants anything, and the client uses all of its credit when it ends its data. -/
def Charged (s : Importing K) : ImportOp → Prop
  | .notify => s.el.state ≠ auStateStop ∨ s.numBytes = 0
  | .writeElement .finished bytes => s.sent + bytes.length = s.granted
  | _ => True

section
variable {s s' : Importing K}

theorem changeElementState_lost (hlost : s.lost = 0) (newState : Nat) : (s.changeElementState newState).lost = 0 := by
  unfold Importing.changeElementState
  split
  · exact hlost
  · split
    · dsimp only
      split
      · rfl
      · exact hlost
    · exact hlost

theorem fillInEvent_lost (hlost : s.lost = 0) (hcharged : s.el.state ≠ auStateStop ∨ s.numBytes = 0) :
    s.fillInEvent.lost = 0 := by
  unfold Importing.fillInEvent
  dsimp only
  split
  · exact hlost
  · rename_i hstop
    rcases hcharged with hne | hzero
    · exact absurd hne hstop
    · rw [hlost, hzero]

theorem covered_of_charged (h : CreditInv s) (hlost : s.lost = 0) {op : ImportOp} (hafford : Affordable s op) :
    Covered s op := by
  have hcredit := h.credit
  have hfits := h.fits
  cases op with
  | writeElement state bytes =>
    have hafford : s.sent + bytes.length ≤ s.granted := hafford
    cases state with
    | ready | pending =>
      unfold Covered
      omega
    | finished =>
      unfold Covered
      omega
  | notify | tick | changeElementState => trivial

theorem lost_step {op : ImportOp} (hlost : s.lost = 0) (hcharged : Charged s op) (he : importStep s op = .ok s') :
    s'.lost = 0 := by
  cases op with
  | notify =>
    cases he
    exact fillInEvent_lost hlost hcharged
  | changeElementState newState =>
    cases he
    exact changeElementState_lost hlost newState
  | tick fuel rc mem =>
    unfold importStep Importing.tick at he
    dsimp only at he
    split at he
    · rename_i hstart
      obtain ⟨⟨c, el, event⟩, hread, he⟩ := Exec.bind_eq_ok.1 he
      cases event with
      | none =>
        cases he
        exact hlost
      | change newState reason =>
        cases he
        exact changeElementState_lost (s := { s with c, el }) hlost newState
      | watermark =>
        cases he
        dsimp only
        split
        · refine fillInEvent_lost hlost (.inl ?_)
          dsimp only
          rw [(CreditInv.readClient_counters hread).2.2.2, hstart]
          decide
        · exact hlost
    · cases he
      exact hlost
  | writeElement state bytes =>
    rcases CreditInv.writeElement_cases he with ⟨-, rfl⟩ | ⟨c, t, -, ht, hs'⟩
    · exact hlost
    · have ht : t.lost = 0 := by
        rcases ht with ⟨-, rfl⟩ | ⟨rfl, rfl⟩
        · exact hlost
        · have hall : s.sent + bytes.length = s.granted := hcharged
          dsimp only
          omega
      rcases hs' with rfl | ⟨-, rfl⟩
      · exact ht
      · exact changeElementState_lost ht _

/-- Then a client may send all it is granted. -/
theorem credit_sound_of_charged (h : CreditInv s) (hlost : s.lost = 0) {ops : List ImportOp}
    (hafford : Each importStep Affordable ops s) (hcharged : Each importStep Charged ops s) :
    Always importStep Sound ops s := by
  induction ops generalizing s with
  | nil => exact h.sound
  | cons op ops ih =>
    refine ⟨h.sound, fun s' he => ?_⟩
    exact ih (h.step hafford.1 (covered_of_charged h hlost hafford.1) he) (lost_step hlost hcharged.1 he)
      (hafford.2 s' he) (hcharged.2 s' he)

end

end Nas
