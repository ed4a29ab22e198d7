import Nas.Credit
import Nas.Loop
import Nas.Stdio

/-!
# Playing a sound

`AuSoundPlay` of `soundlib.c` plays a block of data or a file: `EventHandler` answers an event that grants the flow's
port some bytes with `sendData` or `sendFile`, and these call `AuWriteElement`, which splits what it sends. `play` is
all of it on the events of the flow, until the end of the data has been sent.

The bytes arrive in order, and the last write alone has the end (`sound_delivered_iff`), except with a server of requests of
sixteen bytes, which leave no room for data, and with grants of 2^31 bytes, which are negative as an `int`.
-/

namespace Nas.SoundPump
open Stdio

/-! ### `AuWriteElement` -/

/-- A `WriteElement` request. -/
structure Write where
  state : TransferState
  data : List UInt8
deriving DecidableEq, Repr

/-- What `_AuData` copies: `numBytes` bytes from `data` on, an offset into `block`. -/
def bytesAt (block : List UInt8) (data : Int) (numBytes : Nat) : Exec (List UInt8) :=
  if numBytes = 0 then .ok []
  else if 0 ≤ data ∧ data.toNat + numBytes ≤ block.length then .ok ((block.drop data.toNat).take numBytes)
  else .error .fault

structure Splitting where
  data : Int
  numBytes : Nat
  writes : List Write
deriving DecidableEq, Repr

/-- A turn of the loop of `AuWriteElement`. -/
def split (block : List UInt8) (maxBytes : Nat) (finalState : TransferState) (s : Splitting) :
    Exec (Turn Splitting (List Write)) := do
  let bytes := if s.numBytes > maxBytes then maxBytes else s.numBytes
  let numBytes := s.numBytes - bytes
  let sent ← bytesAt block s.data bytes
  let writes := s.writes ++ [⟨if numBytes ≠ 0 then .pending else finalState, sent⟩]
  if numBytes ≠ 0 then .ok (.next ⟨s.data + bytes, numBytes, writes⟩) else .ok (.stop writes)

def sizeofAuWriteElementReq : Nat := 16

/-- `AuWriteElement`, with enough turns for every loop that ends (`auWriteElement_eq_fuel`). -/
def auWriteElement (maxRequestSize : Nat) (block : List UInt8) (data : Int) (numBytes : Nat) (endOfData : Bool) :
    Exec (List Write) :=
  Turn.loop (split block (sub32 maxRequestSize sizeofAuWriteElementReq) (if endOfData then .finished else .ready))
    (numBytes + 1) ⟨data, numBytes, []⟩

/-! ### The data handlers -/

/-- Where the bytes come from: a block of memory and `priv->buf` in it, or a file and the size of the buffer. -/
inductive Source where
  | data (block : List UInt8) (buf : Int)
  | file (fp : Stream) (bufSize : Nat)
deriving DecidableEq, Repr

/-- `AuSoundDataRec`. `numBytes` is an `int`, here as its 32 bits. -/
structure AuSoundData where
  source : Source
  numBytes : Nat
deriving DecidableEq, Repr

def sendData (maxRequestSize : Nat) (block : List UInt8) (buf : Int) (left numBytes : Nat) :
    Exec (List Write × AuSoundData) := do
  let n := min numBytes left
  if n ≠ 0 then
    let writes ← auWriteElement maxRequestSize block buf n (n ≠ numBytes)
    .ok (writes, ⟨.data block (buf + asInt32 n), left - n⟩)
  else
    let writes ← auWriteElement maxRequestSize block buf 0 true
    .ok (writes, ⟨.data block buf, left⟩)

/-- `sendFile`. Each format's `readFile` is an `fread`, whose `size_t` is made from an `int`. -/
def sendFile (maxRequestSize : Nat) (fp : Stream) (bufSize left numBytes : Nat) :
    Exec (List Write × AuSoundData) := do
  let (buf, fp) := fp.fread (asSize (asInt32 (min numBytes left)))
  if bufSize < buf.length then .error .fault
  else
    let n := asInt32 buf.length
    if 0 < n then
      let writes ← auWriteElement maxRequestSize buf 0 n.toNat (n.toNat ≠ numBytes)
      .ok (writes, ⟨.file fp bufSize, left - n.toNat⟩)
    else
      let writes ← auWriteElement maxRequestSize buf 0 0 true
      .ok (writes, ⟨.file fp bufSize, left⟩)

/-- `priv->dataHandler` -/
def dataHandler (maxRequestSize : Nat) (priv : AuSoundData) (numBytes : Nat) : Exec (List Write × AuSoundData) :=
  match priv.source with
  | .data block buf => sendData maxRequestSize block buf priv.numBytes numBytes
  | .file fp bufSize => sendFile maxRequestSize fp bufSize priv.numBytes numBytes

/-! ### Events -/

inductive ElementNotifyKind where
  | lowWater
  | highWater
  | state
deriving DecidableEq, Repr

inductive Event where
  | monitorNotify
  | elementNotify (kind : ElementNotifyKind) (curState reason numBytes : Nat)
deriving DecidableEq, Repr

inductive Handled where
  | nothing
  /-- The handler is unregistered and `priv` freed. -/
  | stopped
  | sent (writes : List Write) (priv : AuSoundData)
deriving DecidableEq, Repr

/-- `EventHandler`. `loopCount` is 0. -/
def eventHandler (maxRequestSize : Nat) (priv : AuSoundData) : Event → Exec Handled
  | .monitorNotify => .ok .nothing
  | .elementNotify kind curState reason numBytes =>
    match kind with
    | .highWater | .lowWater => (fun x => .sent x.1 x.2) <$> dataHandler maxRequestSize priv numBytes
    | .state =>
      if curState = auStateStop then .ok .stopped
      else if curState = auStatePause then
        -- a flow that the hardware has paused is started again or stopped
        if reason = auReasonHardware then .ok .nothing
        else if reason ≠ auReasonUser then (fun x => .sent x.1 x.2) <$> dataHandler maxRequestSize priv numBytes
        else .ok .nothing
      else .ok .nothing

def Event.numBytes : Event → Nat
  | monitorNotify => 0
  | elementNotify _ _ _ numBytes => numBytes

/-- The events of a flow, until the end of the data has been sent: what was granted and written. -/
def play (maxRequestSize : Nat) : List Event → AuSoundData → Exec (List (Nat × List Write))
  | [], _ => .ok []
  | ev :: evs, priv => do
    match ← eventHandler maxRequestSize priv ev with
    | .nothing => play maxRequestSize evs priv
    | .stopped => .ok []
    | .sent writes priv =>
      if writes.any (·.state = .finished) then .ok [(ev.numBytes, writes)]
      else
        let log ← play maxRequestSize evs priv
        .ok ((ev.numBytes, writes) :: log)

/-! ### Set-up -/

/-- A sound's description. All are `int`. -/
structure Sound where
  numTracks : Int
  sampleRate : Int
  numSamples : Int
  dataFormat : Nat
deriving DecidableEq, Repr

/-- `SoundNumBytes` -/
def Sound.numBytes (s : Sound) : Nat := asUint32 (s.numSamples * sizeofFormat s.dataFormat * s.numTracks)

/-- The bytes of the port, and of the buffer that `AuSoundPlayFromFile` allocates. -/
def Sound.bufSize (s : Sound) (auSoundPortDuration : Nat) : Nat :=
  asUint32 (s.sampleRate * auSoundPortDuration * s.numTracks * sizeofFormat s.dataFormat)

def soundPlayFromFile (auSoundPortDuration : Nat) (s : Sound) (fp : Stream) : AuSoundData :=
  ⟨.file fp (s.bufSize auSoundPortDuration), s.numBytes⟩

def soundPlayFromData (s : Sound) (data : List UInt8) : AuSoundData := ⟨.data data 0, s.numBytes⟩

/-- What a sound is played from. A block of data has the sound's bytes. -/
inductive Playing (auSoundPortDuration : Nat) (s : Sound) : AuSoundData → Prop where
  | file (fp : Stream) : Playing auSoundPortDuration s (soundPlayFromFile auSoundPortDuration s fp)
  | data (data : List UInt8) (h : s.numBytes ≤ data.length) : Playing auSoundPortDuration s (soundPlayFromData s data)

/-! ### What is sent -/

/-- The data of some writes. -/
def bytesOf (writes : List Write) : List UInt8 := writes.flatMap (·.data)

/-- The first `SoundNumBytes` bytes of what there is. -/
def AuSoundData.audio (priv : AuSoundData) : List UInt8 :=
  match priv.source with
  | .data block buf => (block.drop buf.toNat).take priv.numBytes
  | .file fp _ => (fp.bytes.drop fp.pos).take priv.numBytes

/-- What the events grant, up to the one after which nothing is handled. -/
def grants : List Event → List Nat
  | [] => []
  | .elementNotify .highWater _ _ n :: evs | .elementNotify .lowWater _ _ n :: evs => n :: grants evs
  | .elementNotify .state curState reason n :: evs =>
    if curState = auStateStop then []
    else if curState = auStatePause ∧ reason ≠ auReasonHardware ∧ reason ≠ auReasonUser then n :: grants evs
    else grants evs
  | .monitorNotify :: evs => grants evs

/-- All that was written, on some grants. -/
structure Delivered (audio : List UInt8) (grants : List Nat) (log : List (Nat × List Write)) : Prop where
  /-- No grant is exceeded. -/
  within : ∀ x ∈ log, (bytesOf x.2).length ≤ x.1
  /-- The last write alone has the end, and all is sent; or every grant has been used up. -/
  whole : (∃ init last, log.flatMap Prod.snd = init ++ [last] ∧ last.state = .finished ∧
      (∀ w ∈ init, w.state ≠ .finished) ∧ bytesOf (log.flatMap Prod.snd) = audio) ∨
    ((∀ w ∈ log.flatMap Prod.snd, w.state ≠ .finished) ∧ log.map Prod.fst = grants ∧ grants.sum ≤ audio.length ∧
      bytesOf (log.flatMap Prod.snd) = audio.take grants.sum)

/-- The events are handled without an end to neither loops nor buffers, and all is delivered. -/
def Delivers (maxRequestSize : Nat) (events : List Event) (priv : AuSoundData) : Prop :=
  ∃ log, play maxRequestSize events priv = .ok log ∧ Delivered priv.audio (grants events) log

def Source.isFile : Source → Bool
  | data .. => false
  | file .. => true

/-- No grant is negative as an `int` where that matters, when there are still `left` bytes to send: for a file, if as
many bytes are left; for data, if another grant comes before all is sent. -/
def Signed (isFile : Bool) : Nat → List Nat → Prop
  | _, [] => True
  | left, n :: ns =>
    (2 ^ 31 ≤ n → match isFile with
      | true => left < 2 ^ 31
      | false => left ≤ n ∨ ns = []) ∧ Signed isFile (left - n) ns

structure Good (maxRequestSize : Nat) (grants : List Nat) (priv : AuSoundData) : Prop where
  room : maxRequestSize ≠ sizeofAuWriteElementReq ∨ grants = [] ∨ priv.audio = []
  signed : Signed priv.source.isFile priv.audio.length grants

/-! ### Splitting -/

/-- The last of some writes alone has the end. -/
def Ends (writes : List Write) : Prop :=
  ∃ init last, writes = init ++ [last] ∧ last.state = .finished ∧ ∀ w ∈ init, w.state ≠ .finished

/-- What `AuWriteElement` sends of `bytes`. -/
structure Carries (finalState : TransferState) (bytes : List UInt8) (writes : List Write) : Prop where
  bytes : bytesOf writes = bytes
  states : ∃ init last, writes = init ++ [last] ∧ last.state = finalState ∧ ∀ w ∈ init, w.state = .pending

theorem bytesOf_append {l l' : List Write} : bytesOf (l ++ l') = bytesOf l ++ bytesOf l' := List.flatMap_append

theorem bytesOf_cons {w : Write} {l : List Write} : bytesOf (w :: l) = w.data ++ bytesOf l := List.flatMap_cons

section
variable {block : List UInt8} {maxBytes n fuel m : Nat} {p : Int} {finalState : TransferState} {writes : List Write}

theorem Carries.ends {bytes : List UInt8} (h : Carries .finished bytes writes) : Ends writes := by
  obtain ⟨init, last, rfl, hlast, hinit⟩ := h.states
  exact ⟨init, last, rfl, hlast, fun w hw he => by simp [hinit w hw] at he⟩

theorem Carries.goesOn {bytes : List UInt8} (h : Carries .ready bytes writes) :
    ∀ w ∈ writes, w.state ≠ .finished := by
  obtain ⟨init, last, rfl, hlast, hinit⟩ := h.states
  intro w hw he
  rcases List.mem_append.1 hw with hw | hw
  · simp [hinit w hw] at he
  · rw [List.mem_singleton.1 hw, hlast] at he
    cases he

theorem bytesAt_inside (h : n = 0 ∨ 0 ≤ p ∧ p.toNat + n ≤ block.length) :
    bytesAt block p n = .ok ((block.drop p.toNat).take n) := by
  by_cases hn : n = 0
  · simp [bytesAt, hn]
  · rw [bytesAt, if_neg hn, if_pos (h.resolve_left hn)]

theorem bytesAt_outside (hn : n ≠ 0) (h : p < 0) : bytesAt block p n = .error .fault := by
  rw [bytesAt, if_neg hn, if_neg (by omega)]

theorem bytesAt_ne_fuel : bytesAt block p n ≠ .error .fuel := by
  rw [bytesAt]
  split_ifs <;> simp

/-- A turn that sends all. -/
theorem split_last (h : n ≤ maxBytes) (hin : n = 0 ∨ 0 ≤ p ∧ p.toNat + n ≤ block.length) :
    split block maxBytes finalState ⟨p, n, writes⟩ =
      .ok (.stop (writes ++ [⟨finalState, (block.drop p.toNat).take n⟩])) := by
  simp [split, if_neg (Nat.not_lt.2 h), bytesAt_inside hin]

/-- A turn that leaves some. -/
theorem split_more (h : maxBytes < n) (hin : maxBytes = 0 ∨ 0 ≤ p ∧ p.toNat + maxBytes ≤ block.length) :
    split block maxBytes finalState ⟨p, n, writes⟩ = .ok (.next ⟨p + maxBytes, n - maxBytes,
      writes ++ [⟨.pending, (block.drop p.toNat).take maxBytes⟩]⟩) := by
  have hne : n - maxBytes ≠ 0 := by omega
  simp only [split, gt_iff_lt, if_pos h, bytesAt_inside hin, Exec.ok_bind, if_pos hne]

theorem loop_split (hmax : 0 < maxBytes) (hin : n = 0 ∨ 0 ≤ p ∧ p.toNat + n ≤ block.length) (hfuel : n < fuel) :
    ∃ l, Turn.loop (split block maxBytes finalState) fuel ⟨p, n, writes⟩ = .ok (writes ++ l) ∧
      Carries finalState ((block.drop p.toNat).take n) l := by
  induction fuel generalizing p n writes with
  | zero => omega
  | succ fuel ih =>
    rw [Turn.loop]
    rcases Nat.lt_or_ge maxBytes n with hlt | hle
    · rw [split_more hlt (by omega)]
      obtain ⟨l, hl, hc⟩ := @ih (n - maxBytes) (p + maxBytes)
        (writes ++ [⟨.pending, (block.drop p.toNat).take maxBytes⟩]) (by omega) (by omega)
      refine ⟨_, hl.trans (by rw [List.append_assoc]), ?_, ?_⟩
      · have hp : (p + maxBytes).toNat = p.toNat + maxBytes := by omega
        rw [List.singleton_append, bytesOf_cons, hc.bytes, hp, ← List.drop_drop, ← List.take_add,
          Nat.add_sub_cancel' hlt.le]
      · obtain ⟨init, last, rfl, hlast, hinit⟩ := hc.states
        refine ⟨_ :: init, last, rfl, hlast, fun w hw => ?_⟩
        rcases List.mem_cons.1 hw with rfl | hw
        · rfl
        · exact hinit w hw
    · rw [split_last hle hin]
      exact ⟨_, rfl, by simp [bytesOf], [], _, rfl, rfl, by simp⟩

/-- Where no data fits in a request the loop has no end. -/
theorem loop_split_stuck (hn : n ≠ 0) : Turn.loop (split block 0 finalState) fuel ⟨p, n, writes⟩ = .error .fuel := by
  induction fuel generalizing p writes with
  | zero => rfl
  | succ fuel ih =>
    rw [Turn.loop, split_more (Nat.pos_of_ne_zero hn) (.inl rfl)]
    exact ih

theorem loop_split_halts (hmax : 0 < maxBytes ∨ n = 0) (hfuel : n < fuel) :
    Turn.loop (split block maxBytes finalState) fuel ⟨p, n, writes⟩ ≠ .error .fuel := by
  induction fuel generalizing p n writes with
  | zero => omega
  | succ fuel ih =>
    rw [Turn.loop]
    simp only [split]
    rcases hb : bytesAt block p (if n > maxBytes then maxBytes else n) with e | sent
    · simp only [Exec.error_bind]
      intro he
      cases he
      exact bytesAt_ne_fuel hb
    · simp only [Exec.ok_bind]
      split_ifs with hmore hrest hrest
      · exact ih (by omega) (by omega)
      · simp
      · omega
      · simp

/-- `AuWriteElement` is out of turns exactly if it has no end. -/
theorem auWriteElement_eq_fuel {endOfData : Bool} : auWriteElement m block p n endOfData = .error .fuel ↔
    ¬ Turn.Halts (split block (sub32 m sizeofAuWriteElementReq) (if endOfData then .finished else .ready))
      ⟨p, n, []⟩ := by
  constructor
  · rintro h ⟨fuel, hfuel⟩
    by_cases hmax : 0 < sub32 m sizeofAuWriteElementReq ∨ n = 0
    · exact loop_split_halts hmax (Nat.lt_succ_self n) h
    · rw [not_or, Nat.not_lt, Nat.le_zero] at hmax
      rw [hmax.1] at hfuel
      exact hfuel (loop_split_stuck hmax.2)
  · intro h
    by_contra hne
    exact h ⟨n + 1, hne⟩

theorem sub32_sizeof (hm : m < 2 ^ 16) : sub32 m sizeofAuWriteElementReq = 0 ↔ m = sizeofAuWriteElementReq := by
  simp only [sub32, sizeofAuWriteElementReq]
  omega

variable (block) in
/-- What is sent arrives, if there is room for it. -/
theorem auWriteElement_sends (hm : m < 2 ^ 16) (hroom : m ≠ sizeofAuWriteElementReq ∨ n = 0)
    (hin : n = 0 ∨ 0 ≤ p ∧ p.toNat + n ≤ block.length) (endOfData : Bool) :
    ∃ l, auWriteElement m block p n endOfData = .ok l ∧
      Carries (if endOfData then .finished else .ready) ((block.drop p.toNat).take n) l := by
  by_cases hn : n = 0
  · subst hn
    rw [auWriteElement, Turn.loop, split_last (Nat.zero_le _) (.inl rfl)]
    exact ⟨_, rfl, by simp [bytesOf], [], _, rfl, rfl, by simp⟩
  · have hmax : 0 < sub32 m sizeofAuWriteElementReq := by
      rw [Nat.pos_iff_ne_zero, Ne, sub32_sizeof hm]
      exact hroom.resolve_right hn
    obtain ⟨l, hl, hc⟩ := loop_split hmax hin (Nat.lt_succ_self n)
    exact ⟨l, hl, hc⟩

theorem auWriteElement_stuck (hn : n ≠ 0) (endOfData : Bool) :
    auWriteElement sizeofAuWriteElementReq block p n endOfData = .error .fuel :=
  loop_split_stuck hn

theorem auWriteElement_outside (hm : m < 2 ^ 16) (hroom : m ≠ sizeofAuWriteElementReq) (hn : n ≠ 0) (hp : p < 0)
    (endOfData : Bool) : auWriteElement m block p n endOfData = .error .fault := by
  have hmax : sub32 m sizeofAuWriteElementReq ≠ 0 := fun h => hroom ((sub32_sizeof hm).1 h)
  rw [auWriteElement]
  generalize sub32 m sizeofAuWriteElementReq = maxBytes at hmax ⊢
  have hbytes : (if n > maxBytes then maxBytes else n) ≠ 0 := by
    split_ifs <;> assumption
  simp only [Turn.loop, split, bytesAt_outside hbytes hp, Exec.error_bind]

end

/-! ### What a handler does -/

theorem asInt32_small {n : Nat} (h : n < 2 ^ 31) : asInt32 n = n := by
  unfold asInt32
  have : n % 2 ^ 32 = n := Nat.mod_eq_of_lt (by omega)
  rw [this, if_pos h]

theorem asInt32_large {n : Nat} (h : 2 ^ 31 ≤ n) (h' : n < 2 ^ 32) : asInt32 n = (n : Int) - 2 ^ 32 := by
  unfold asInt32
  have : n % 2 ^ 32 = n := Nat.mod_eq_of_lt h'
  rw [this, if_neg (by omega)]

theorem asSize_asInt32_small {n : Nat} (h : n < 2 ^ 31) : asSize (asInt32 n) = n := by
  rw [asInt32_small h, asSize]
  omega

/-- A negative count asks for more than there is. -/
theorem le_asSize_asInt32 {n : Nat} (h : 2 ^ 31 ≤ n) (h' : n < 2 ^ 32) : 2 ^ 32 ≤ asSize (asInt32 n) := by
  rw [asInt32_large h h', asSize]
  omega

/-- What a handler has sent of `audio` on a grant. -/
structure Answers (audio : List UInt8) (n : Nat) (writes : List Write) : Prop where
  bytes : bytesOf writes = audio.take n
  ends : audio.length < n → Ends writes
  goesOn : n ≤ audio.length → ∀ w ∈ writes, w.state ≠ .finished

theorem Answers.of_carries {audio : List UInt8} {n : Nat} {writes : List Write} (endOfData : Bool)
    (h : Carries (if endOfData then .finished else .ready) (audio.take n) writes)
    (he : endOfData = true ↔ audio.length < n) : Answers audio n writes := by
  refine ⟨h.bytes, fun hlt => ?_, fun hle => ?_⟩
  · rw [if_pos (he.2 hlt)] at h
    exact h.ends
  · rw [if_neg fun hend => Nat.not_lt.2 hle (he.1 hend)] at h
    exact h.goesOn

section
variable {block rest : List UInt8} {buf : Int} {left n m bufSize : Nat} {fp : Stream}

theorem sendData_answers (hm : m < 2 ^ 16)
    (hroom : m ≠ sizeofAuWriteElementReq ∨ (block.drop buf.toNat).take left = [])
    (hin : left = 0 ∨ 0 ≤ buf ∧ buf.toNat + left ≤ block.length) (hn : 0 < n) :
    ∃ writes, Answers ((block.drop buf.toNat).take left) n writes ∧ sendData m block buf left n =
      .ok (writes, ⟨.data block (if left = 0 then buf else buf + asInt32 (min n left)), left - n⟩) := by
  have hlen : ((block.drop buf.toNat).take left).length = left := by
    rw [List.length_take, List.length_drop]
    omega
  have htake : ((block.drop buf.toNat).take left).take n = (block.drop buf.toNat).take (min n left) := List.take_take
  by_cases hleft : left = 0
  · subst hleft
    obtain ⟨l, hl, hc⟩ := auWriteElement_sends block (p := buf) hm (.inr rfl) (.inl rfl) true
    refine ⟨l, .of_carries true (by simpa using hc) (by simpa using hn), ?_⟩
    simp [sendData, hl]
  · have hne : min n left ≠ 0 := by omega
    have hroom : m ≠ sizeofAuWriteElementReq := hroom.resolve_right fun h => by
      rw [h, List.length_nil] at hlen
      exact hleft hlen.symm
    obtain ⟨l, hl, hc⟩ := auWriteElement_sends block (n := min n left) (p := buf) hm (.inl hroom)
      (.inr (by omega)) (decide (min n left ≠ n))
    have hmin : left - min n left = left - n := by omega
    refine ⟨l, .of_carries (decide (min n left ≠ n)) (htake ▸ hc) ?_, ?_⟩
    · rw [hlen, decide_eq_true_iff]
      omega
    · simp only [sendData, if_pos hne, if_neg hleft, hl, Exec.ok_bind, hmin]

/-- Behind a grant that is negative as an `int`, `priv->buf` is before the block. -/
theorem sendData_outside (hm : m < 2 ^ 16) (hroom : m ≠ sizeofAuWriteElementReq) (hleft : left ≠ 0) (hbuf : buf < 0)
    (hn : 0 < n) : sendData m block buf left n = .error .fault := by
  have hne : min n left ≠ 0 := by omega
  simp only [sendData, if_pos hne, auWriteElement_outside hm hroom hne hbuf, Exec.error_bind]

theorem sendData_stuck (hleft : left ≠ 0) (hn : 0 < n) :
    sendData sizeofAuWriteElementReq block buf left n = .error .fuel := by
  have hne : min n left ≠ 0 := by omega
  simp only [sendData, if_pos hne, auWriteElement_stuck hne, Exec.error_bind]

/-- What `sendFile` reads, as long as nothing is negative. -/
theorem fread_signed (hleft : left < 2 ^ 32) (hn : n < 2 ^ 32)
    (hsigned : 2 ^ 31 ≤ n → (rest.take left).length < 2 ^ 31) :
    rest.take (asSize (asInt32 (min n left))) = (rest.take left).take n := by
  rw [List.take_take]
  rcases Nat.lt_or_ge (min n left) (2 ^ 31) with hlt | hle
  · rw [asSize_asInt32_small hlt]
  · have hrest : rest.length < 2 ^ 31 := by
      have := hsigned (by omega)
      rw [List.length_take] at this
      omega
    have hsize := le_asSize_asInt32 hle (by omega)
    rw [List.take_of_length_le (by omega), List.take_of_length_le (by omega)]

theorem sendFile_eq {got : List UInt8}
    (h : (fp.bytes.drop fp.pos).take (asSize (asInt32 (min n left))) = got) :
    sendFile m fp bufSize left n =
      if bufSize < got.length then .error .fault
      else if 0 < asInt32 got.length then (do
        let writes ← auWriteElement m got 0 (asInt32 got.length).toNat ((asInt32 got.length).toNat ≠ n)
        .ok (writes, ⟨.file { fp with pos := fp.pos + got.length } bufSize, left - (asInt32 got.length).toNat⟩))
      else (do
        let writes ← auWriteElement m got 0 0 true
        .ok (writes, ⟨.file { fp with pos := fp.pos + got.length } bufSize, left⟩)) := by
  have hread : fp.fread (asSize (asInt32 (min n left))) = (got, { fp with pos := fp.pos + got.length }) := by
    rw [Stream.fread, h]
  rw [sendFile, hread]

theorem sendFile_reads (hleft : left < 2 ^ 32) (hn : n ≤ bufSize) (hbuf : bufSize < 2 ^ 32)
    (hsigned : 2 ^ 31 ≤ n → ((fp.bytes.drop fp.pos).take left).length < 2 ^ 31) {got : List UInt8}
    (hgot : ((fp.bytes.drop fp.pos).take left).take n = got) :
    sendFile m fp bufSize left n =
      (do
        let writes ← auWriteElement m got 0 got.length (got = [] ∨ got.length ≠ n)
        .ok (writes, ⟨.file { fp with pos := fp.pos + got.length } bufSize, left - got.length⟩)) := by
  have hlt : got.length < 2 ^ 31 := by
    rw [← hgot, List.length_take]
    rcases Nat.lt_or_ge n (2 ^ 31) with h | h
    · omega
    · exact Nat.lt_of_le_of_lt (Nat.min_le_right ..) (hsigned h)
  have hle : got.length ≤ n := by
    rw [← hgot, List.length_take]
    exact Nat.min_le_left ..
  rw [sendFile_eq ((fread_signed hleft (Nat.lt_of_le_of_lt hn hbuf) hsigned).trans hgot), if_neg (by omega),
    asInt32_small hlt]
  rcases got with _ | ⟨b, got⟩
  · rfl
  · rw [if_pos (by simp)]
    simp only [Int.toNat_natCast, reduceCtorEq, false_or]

theorem sendFile_answers (hm : m < 2 ^ 16)
    (hroom : m ≠ sizeofAuWriteElementReq ∨ (fp.bytes.drop fp.pos).take left = []) (hleft : left < 2 ^ 32)
    (hpos : 0 < n) (hn : n ≤ bufSize) (hbuf : bufSize < 2 ^ 32)
    (hsigned : 2 ^ 31 ≤ n → ((fp.bytes.drop fp.pos).take left).length < 2 ^ 31) :
    ∃ writes got, Answers ((fp.bytes.drop fp.pos).take left) n writes ∧
      got = min n ((fp.bytes.drop fp.pos).take left).length ∧
      sendFile m fp bufSize left n = .ok (writes, ⟨.file { fp with pos := fp.pos + got } bufSize, left - got⟩) := by
  obtain ⟨got, hgot⟩ : ∃ got, ((fp.bytes.drop fp.pos).take left).take n = got := ⟨_, rfl⟩
  have hlen : got.length = min n ((fp.bytes.drop fp.pos).take left).length := by rw [← hgot, List.length_take]
  have hempty : m ≠ sizeofAuWriteElementReq ∨ got.length = 0 := hroom.imp_right fun h => by rw [← hgot, h]; simp
  obtain ⟨l, hl, hc⟩ := auWriteElement_sends got (p := 0) (n := got.length) hm hempty (.inr (by simp))
    (decide (got = [] ∨ got.length ≠ n))
  have hall : (got.drop (0 : Int).toNat).take got.length = got := by simp
  refine ⟨l, got.length, .of_carries (decide (got = [] ∨ got.length ≠ n)) ?_ ?_, hlen, ?_⟩
  · rw [hgot]
    rwa [hall] at hc
  · rw [decide_eq_true_iff]
    constructor
    · rintro (h | h)
      · rw [h, List.length_nil] at hlen
        omega
      · omega
    · exact fun h => .inr (by omega)
  · rw [sendFile_reads hleft hn hbuf hsigned hgot, hl]
    rfl

/-- A negative count reads all of the file; if that is not more than the buffer holds, it is taken for its end. -/
theorem sendFile_negative (hleft : left < 2 ^ 32) (hbuf : bufSize < 2 ^ 32) (hn : n ≤ bufSize) (hlarge : 2 ^ 31 ≤ n)
    (haudio : 2 ^ 31 ≤ ((fp.bytes.drop fp.pos).take left).length) :
    sendFile m fp bufSize left n = .error .fault ∨
      ∃ priv, sendFile m fp bufSize left n = .ok ([⟨.finished, []⟩], priv) := by
  have hle : 2 ^ 31 ≤ min n left := by
    rw [List.length_take] at haudio
    omega
  have hgot : 2 ^ 31 ≤ ((fp.bytes.drop fp.pos).take (asSize (asInt32 (min n left)))).length := by
    have := le_asSize_asInt32 hle (by omega)
    rw [List.length_take] at haudio ⊢
    omega
  obtain ⟨got, hread⟩ : ∃ got, (fp.bytes.drop fp.pos).take (asSize (asInt32 (min n left))) = got := ⟨_, rfl⟩
  rw [hread] at hgot
  rw [sendFile_eq hread]
  rcases Nat.lt_or_ge bufSize got.length with hlt | hfits
  · exact .inl (if_pos hlt)
  · have hneg : asInt32 got.length < 0 := by
      rw [asInt32_large hgot (by omega)]
      omega
    refine .inr ⟨⟨.file { fp with pos := fp.pos + got.length } bufSize, left⟩, ?_⟩
    rw [if_neg (Nat.not_lt.2 hfits), if_neg (by omega), auWriteElement, Turn.loop, split_last (Nat.zero_le _) (.inl rfl)]
    rfl

theorem sendFile_stuck (haudio : (fp.bytes.drop fp.pos).take left ≠ []) (hleft : left < 2 ^ 32) (hpos : 0 < n)
    (hn : n ≤ bufSize) (hbuf : bufSize < 2 ^ 32)
    (hsigned : 2 ^ 31 ≤ n → ((fp.bytes.drop fp.pos).take left).length < 2 ^ 31) :
    sendFile sizeofAuWriteElementReq fp bufSize left n = .error .fuel := by
  have hne : (((fp.bytes.drop fp.pos).take left).take n).length ≠ 0 := by
    have := List.length_pos_of_ne_nil haudio
    rw [List.length_take]
    omega
  rw [sendFile_reads hleft hn hbuf hsigned rfl, auWriteElement_stuck hne]
  rfl

end

/-! ### Runs -/

/-- `play` on the grants alone. -/
def serve (maxRequestSize : Nat) : List Nat → AuSoundData → Exec (List (Nat × List Write))
  | [], _ => .ok []
  | n :: ns, priv => do
    let (writes, priv) ← dataHandler maxRequestSize priv n
    if writes.any (·.state = .finished) then .ok [(n, writes)]
    else
      let log ← serve maxRequestSize ns priv
      .ok ((n, writes) :: log)

section
variable {m n : Nat} {ns : List Nat} {priv priv' : AuSoundData} {writes : List Write} {log : List (Nat × List Write)}
  {audio : List UInt8} {isFile : Bool}

theorem play_eq_serve (events : List Event) (priv : AuSoundData) : play m events priv = serve m (grants events) priv := by
  -- an event that grants something is one call of the handler
  have hcons (n : Nat) (evs : List Event) (priv : AuSoundData)
      (ih : ∀ priv, play m evs priv = serve m (grants evs) priv) :
      (do
        match ← (fun x => Handled.sent x.1 x.2) <$> dataHandler m priv n with
        | .nothing => play m evs priv
        | .stopped => .ok []
        | .sent writes priv =>
          if writes.any (·.state = .finished) then .ok [(n, writes)]
          else
            let log ← play m evs priv
            .ok ((n, writes) :: log)) = serve m (n :: grants evs) priv := by
    rw [serve]
    rcases dataHandler m priv n with e | ⟨writes, priv'⟩
    · rfl
    · simp only [Functor.map, Except.map, Exec.ok_bind, ih]
  induction events generalizing priv with
  | nil => rfl
  | cons ev evs ih =>
    rcases ev with _ | ⟨kind, curState, reason, n⟩
    · exact ih priv
    · cases kind with
      | lowWater => exact hcons n evs priv ih
      | highWater => exact hcons n evs priv ih
      | state =>
        rw [play]
        simp only [eventHandler, grants, Event.numBytes]
        by_cases hstop : curState = auStateStop
        · simp only [if_pos hstop, Exec.ok_bind]
          rfl
        by_cases hpause : curState = auStatePause ∧ reason ≠ auReasonHardware ∧ reason ≠ auReasonUser
        · simp only [if_neg hstop, if_pos hpause, if_pos hpause.1, if_neg hpause.2.1, if_pos hpause.2.2]
          exact hcons n evs priv ih
        · simp only [if_neg hstop, if_neg hpause]
          split_ifs with hp hr hu
          · exact ih priv
          · exact absurd ⟨hp, hr, hu⟩ hpause
          · exact ih priv
          · exact ih priv

theorem serve_ends (h : dataHandler m priv n = .ok (writes, priv')) (hends : Ends writes) :
    serve m (n :: ns) priv = .ok [(n, writes)] := by
  have hany : (writes.any fun w => decide (w.state = .finished)) = true := by
    obtain ⟨init, last, rfl, hlast, -⟩ := hends
    simp [hlast]
  rw [serve, h, Exec.ok_bind]
  exact if_pos hany

theorem serve_goesOn (h : dataHandler m priv n = .ok (writes, priv')) (hgo : ∀ w ∈ writes, w.state ≠ .finished) :
    serve m (n :: ns) priv = ((n, writes) :: ·) <$> serve m ns priv' := by
  have hany : ¬ (writes.any fun w => decide (w.state = .finished)) = true := by
    simpa using hgo
  rw [serve, h, Exec.ok_bind]
  simp only [if_neg hany]
  rcases serve m ns priv' with e | log <;> rfl

theorem serve_error {e : Stop} (h : dataHandler m priv n = .error e) : serve m (n :: ns) priv = .error e := by
  rw [serve, h]
  rfl

theorem Answers.bytes_le (h : Answers audio n writes) : (bytesOf writes).length ≤ n := by
  rw [h.bytes, List.length_take]
  exact Nat.min_le_left ..

theorem Answers.delivered (h : Answers audio n writes) (hlt : audio.length < n) :
    Delivered audio (n :: ns) [(n, writes)] where
  within x hx := by
    rw [List.mem_singleton.1 hx]
    exact h.bytes_le
  whole := by
    obtain ⟨init, last, hw, hlast, hinit⟩ := h.ends hlt
    refine .inl ⟨init, last, by simpa using hw, hlast, hinit, ?_⟩
    rw [List.flatMap_singleton, h.bytes, List.take_of_length_le hlt.le]

theorem Answers.delivered_cons (h : Answers audio n writes) (hle : n ≤ audio.length) :
    Delivered audio (n :: ns) ((n, writes) :: log) ↔ Delivered (audio.drop n) ns log := by
  have hgo := h.goesOn hle
  have hbytes : bytesOf (((n, writes) :: log).flatMap Prod.snd) = audio.take n ++ bytesOf (log.flatMap Prod.snd) := by
    rw [List.flatMap_cons, bytesOf_append, h.bytes]
  constructor
  · rintro ⟨hwithin, hwhole⟩
    refine ⟨fun x hx => hwithin x (List.mem_cons_of_mem _ hx), ?_⟩
    rw [hbytes] at hwhole
    rcases hwhole with ⟨init, last, hw, hlast, hinit, hall⟩ | ⟨hw, hns, hsum, hall⟩
    · left
      -- the end is not among the writes for the first grant
      obtain ⟨l, hl⟩ : ∃ l, log.flatMap Prod.snd = l ++ [last] := by
        rcases List.eq_nil_or_concat (log.flatMap Prod.snd) with hnil | ⟨l, x, hl⟩
        · rw [List.flatMap_cons, hnil, List.append_nil] at hw
          exact absurd hlast (hgo last (by rw [show writes = init ++ [last] from hw]; simp))
        · rw [List.flatMap_cons, hl, List.concat_eq_append, ← List.append_assoc] at hw
          exact ⟨l, by rw [hl, List.concat_eq_append, (List.append_inj' hw rfl).2]⟩
      rw [List.flatMap_cons, hl, ← List.append_assoc] at hw
      refine ⟨l, last, hl, hlast, fun w hmem => hinit w ?_, ?_⟩
      · rw [← (List.append_inj' hw rfl).1]
        exact List.mem_append_right _ hmem
      · exact List.append_cancel_left (hall.trans (List.take_append_drop n audio).symm)
    · right
      rw [List.sum_cons] at hsum hall
      refine ⟨fun w hmem => hw w ?_, (List.cons.inj hns).2, ?_, ?_⟩
      · rw [List.flatMap_cons]
        exact List.mem_append_right _ hmem
      · rw [List.length_drop]
        omega
      · rw [List.take_add] at hall
        exact List.append_cancel_left hall
  · rintro ⟨hwithin, hwhole⟩
    refine ⟨fun x hx => ?_, ?_⟩
    · rcases List.mem_cons.1 hx with rfl | hx
      · exact h.bytes_le
      · exact hwithin x hx
    rw [hbytes, List.flatMap_cons]
    rcases hwhole with ⟨init, last, hw, hlast, hinit, hall⟩ | ⟨hw, hns, hsum, hall⟩
    · refine .inl ⟨writes ++ init, last, by rw [hw, List.append_assoc], hlast, fun w hmem => ?_, ?_⟩
      · exact (List.mem_append.1 hmem).elim (hgo w) (hinit w)
      · rw [hall, List.take_append_drop]
    · rw [List.length_drop] at hsum
      refine .inr ⟨fun w hmem => (List.mem_append.1 hmem).elim (hgo w) (hw w), ?_, ?_, ?_⟩
      · rw [List.map_cons, hns]
      · rw [List.sum_cons]
        omega
      · rw [hall, List.sum_cons, List.take_add]

theorem delivered_nil : Delivered audio [] [] :=
  ⟨by simp, .inr (by simp [bytesOf])⟩

theorem signed_zero : Signed isFile 0 ns := by
  induction ns with
  | nil => trivial
  | cons n ns ih =>
    refine ⟨fun _ => ?_, by rwa [Nat.zero_sub]⟩
    cases isFile with
    | false => exact .inl (Nat.zero_le _)
    | true => exact Nat.two_pow_pos 31

/-- `Delivers` on the grants alone. -/
def Serves (m : Nat) (ns : List Nat) (priv : AuSoundData) : Prop :=
  ∃ log, serve m ns priv = .ok log ∧ Delivered priv.audio ns log

theorem serves_nil : Serves m [] priv := ⟨[], rfl, delivered_nil⟩

theorem not_serves_error {e : Stop} (h : dataHandler m priv n = .error e) : ¬ Serves m (n :: ns) priv := by
  rintro ⟨log, hlog, -⟩
  rw [serve_error h] at hlog
  cases hlog

theorem serves_ends (h : dataHandler m priv n = .ok (writes, priv')) (ha : Answers priv.audio n writes)
    (hlt : priv.audio.length < n) : Serves m (n :: ns) priv :=
  ⟨_, serve_ends h (ha.ends hlt), ha.delivered hlt⟩

theorem serves_cons (h : dataHandler m priv n = .ok (writes, priv')) (ha : Answers priv.audio n writes)
    (hle : n ≤ priv.audio.length) :
    Serves m (n :: ns) priv ↔ ∃ log, serve m ns priv' = .ok log ∧ Delivered (priv.audio.drop n) ns log := by
  rw [Serves, serve_goesOn h (ha.goesOn hle)]
  constructor
  · rintro ⟨log, hlog, hd⟩
    obtain ⟨log', hlog', rfl⟩ := Exec.map_eq_ok.1 hlog
    exact ⟨log', hlog', (ha.delivered_cons hle).1 hd⟩
  · rintro ⟨log, hlog, hd⟩
    exact ⟨_, Exec.map_eq_ok.2 ⟨log, hlog, rfl⟩, (ha.delivered_cons hle).2 hd⟩

/-- The end of the data before there is all of it. -/
theorem not_serves_empty (h : dataHandler m priv n = .ok ([⟨.finished, []⟩], priv')) (hne : priv.audio ≠ []) :
    ¬ Serves m (n :: ns) priv := by
  rintro ⟨log, hlog, hd⟩
  rw [serve_ends h ⟨[], _, rfl, rfl, by simp⟩] at hlog
  cases hlog
  rcases hd.whole with ⟨_, _, _, _, _, hall⟩ | ⟨hgo, _⟩
  · exact hne hall.symm
  · exact hgo _ (List.mem_singleton.2 rfl) rfl

/-- There is room in a request for what is left, if anything is left. -/
def Roomy (m : Nat) (ns : List Nat) (audio : List UInt8) : Prop :=
  m ≠ sizeofAuWriteElementReq ∨ ns = [] ∨ audio = []

theorem serves_file_iff (hm : m < 2 ^ 16) {bufSize left : Nat} (hbuf : bufSize < 2 ^ 32) {fp : Stream}
    (hleft : left < 2 ^ 32) (hns : ∀ n ∈ ns, 0 < n ∧ n ≤ bufSize) :
    Serves m ns ⟨.file fp bufSize, left⟩ ↔ Roomy m ns (AuSoundData.audio ⟨.file fp bufSize, left⟩) ∧
      Signed true (AuSoundData.audio ⟨.file fp bufSize, left⟩).length ns := by
  induction ns generalizing fp left with
  | nil => exact ⟨fun _ => ⟨.inr (.inl rfl), trivial⟩, fun _ => serves_nil⟩
  | cons n ns ih =>
    obtain ⟨hpos, hn⟩ := hns n (by simp)
    obtain ⟨audio, haudio⟩ : ∃ audio, AuSoundData.audio ⟨.file fp bufSize, left⟩ = audio := ⟨_, rfl⟩
    have hread : (fp.bytes.drop fp.pos).take left = audio := haudio
    by_cases hsigned : 2 ^ 31 ≤ n → audio.length < 2 ^ 31
    · by_cases hroom : m ≠ sizeofAuWriteElementReq ∨ audio = []
      · obtain ⟨writes, got, ha, hgot, hsend⟩ := sendFile_answers hm (hread.symm ▸ hroom) hleft hpos hn hbuf
          (hread.symm ▸ hsigned)
        rw [hread] at ha hgot
        rw [haudio]
        rcases Nat.lt_or_ge audio.length n with hlt | hle
        · have hzero : audio.length - n = 0 := by omega
          refine ⟨fun _ => ⟨hroom.imp_right .inr, hsigned, hzero ▸ signed_zero⟩, fun _ => ?_⟩
          exact serves_ends hsend (haudio.symm ▸ ha) (haudio.symm ▸ hlt)
        · have hgot : got = n := by omega
          have hm16 : m ≠ sizeofAuWriteElementReq := hroom.resolve_right fun h => by
            rw [h, List.length_nil] at hle
            omega
          have hrest : AuSoundData.audio ⟨.file { fp with pos := fp.pos + n } bufSize, left - n⟩ = audio.drop n := by
            rw [← hread, List.drop_take, List.drop_drop]
            rfl
          subst hgot
          have hhandled : dataHandler m ⟨.file fp bufSize, left⟩ got =
            .ok (writes, ⟨.file { fp with pos := fp.pos + got } bufSize, left - got⟩) := hsend
          rw [serves_cons hhandled (haudio.symm ▸ ha) (haudio.symm ▸ hle), haudio, ← hrest]
          refine (ih (by omega) fun x hx => hns x (List.mem_cons_of_mem _ hx)).trans ?_
          rw [hrest, List.length_drop]
          exact ⟨fun h => ⟨.inl hm16, hsigned, h.2⟩, fun h => ⟨.inl hm16, h.2.2⟩⟩
      · rw [not_or, not_ne_iff] at hroom
        rw [haudio]
        refine ⟨fun h => absurd h ?_, fun h => ?_⟩
        · rw [hroom.1]
          exact not_serves_error (sendFile_stuck (hread.symm ▸ hroom.2) hleft hpos hn hbuf (hread.symm ▸ hsigned))
        · rcases h.1 with h | h | h
          · exact absurd hroom.1 h
          · cases h
          · exact absurd h hroom.2
    · refine ⟨fun h => absurd h ?_, fun h => absurd (haudio ▸ h.2.1) hsigned⟩
      rw [Classical.not_imp, Nat.not_lt] at hsigned
      rcases sendFile_negative (m := m) hleft hbuf hn hsigned.1 (hread.symm ▸ hsigned.2) with h | ⟨priv, h⟩
      · exact not_serves_error h
      · refine not_serves_empty h fun hnil => ?_
        have := hsigned.2
        rw [← haudio, hnil, List.length_nil] at this
        omega

theorem serves_data_iff (hm : m < 2 ^ 16) {block : List UInt8} {buf : Int} {left : Nat}
    (hin : left = 0 ∨ 0 ≤ buf ∧ buf.toNat + left ≤ block.length ∧ buf.toNat + left < 2 ^ 32)
    (hns : ∀ n ∈ ns, 0 < n ∧ n < 2 ^ 32) :
    Serves m ns ⟨.data block buf, left⟩ ↔ Roomy m ns (AuSoundData.audio ⟨.data block buf, left⟩) ∧
      Signed false (AuSoundData.audio ⟨.data block buf, left⟩).length ns := by
  induction ns generalizing buf left with
  | nil => exact ⟨fun _ => ⟨.inr (.inl rfl), trivial⟩, fun _ => serves_nil⟩
  | cons n ns ih =>
    obtain ⟨hpos, hn⟩ := hns n (by simp)
    have hns' : ∀ n ∈ ns, 0 < n ∧ n < 2 ^ 32 := fun x hx => hns x (List.mem_cons_of_mem _ hx)
    obtain ⟨audio, haudio⟩ : ∃ audio, AuSoundData.audio ⟨.data block buf, left⟩ = audio := ⟨_, rfl⟩
    have hread : (block.drop buf.toNat).take left = audio := haudio
    have hlen : audio.length = left := by
      rw [← hread, List.length_take, List.length_drop]
      omega
    rw [haudio]
    by_cases hroom : m ≠ sizeofAuWriteElementReq ∨ audio = []
    · obtain ⟨writes, ha, hsend⟩ := sendData_answers hm (hread.symm ▸ hroom)
        (hin.imp_right fun h => ⟨h.1, h.2.1⟩) hpos
      rw [hread] at ha
      rcases Nat.lt_or_ge audio.length n with hlt | hle
      · have hzero : audio.length - n = 0 := by omega
        refine ⟨fun _ => ⟨hroom.imp_right .inr, fun _ => .inl hlt.le, hzero ▸ signed_zero⟩, fun _ => ?_⟩
        exact serves_ends hsend (haudio.symm ▸ ha) (haudio.symm ▸ hlt)
      · have hm16 : m ≠ sizeofAuWriteElementReq := hroom.resolve_right fun h => by
          rw [h, List.length_nil] at hle
          omega
        rw [if_neg (by omega), Nat.min_eq_left (by omega)] at hsend
        have hhandled : dataHandler m ⟨.data block buf, left⟩ n =
          .ok (writes, ⟨.data block (buf + asInt32 n), left - n⟩) := hsend
        rw [serves_cons hhandled (haudio.symm ▸ ha) (haudio.symm ▸ hle), haudio]
        -- `priv->buf` is right if the grant is not negative or all is sent
        by_cases hin' : left - n = 0 ∨ n < 2 ^ 31
        · have hrest : AuSoundData.audio ⟨.data block (buf + asInt32 n), left - n⟩ = audio.drop n := by
            rcases hin' with h0 | hlt
            · rw [List.drop_of_length_le (by omega)]
              simp only [AuSoundData.audio, h0, List.take_zero]
            · have hbuf : (buf + n).toNat = buf.toNat + n := by omega
              rw [← hread, List.drop_take, List.drop_drop, ← hbuf, ← asInt32_small hlt]
              rfl
          rw [← hrest]
          refine (ih ?_ hns').trans ?_
          · rcases hin' with h0 | hlt
            · exact .inl h0
            · rw [asInt32_small hlt]
              omega
          · rw [hrest, List.length_drop]
            refine ⟨fun h => ⟨.inl hm16, fun hlarge => .inl ?_, h.2⟩, fun h => ⟨.inl hm16, h.2.2⟩⟩
            omega
        · rw [not_or, Nat.not_lt] at hin'
          rcases ns with _ | ⟨n', ns⟩
          · exact ⟨fun _ => ⟨.inl hm16, fun _ => .inr rfl, trivial⟩, fun _ => ⟨[], rfl, delivered_nil⟩⟩
          · have hbuf : buf + asInt32 n < 0 := by
              rw [asInt32_large hin'.2 hn]
              omega
            refine ⟨?_, fun h => ?_⟩
            · have hfault : dataHandler m ⟨.data block (buf + asInt32 n), left - n⟩ n' = .error .fault :=
                sendData_outside hm hm16 hin'.1 hbuf (hns' n' (by simp)).1
              rintro ⟨log, hlog, -⟩
              rw [serve_error hfault] at hlog
              cases hlog
            · rcases h.2.1 hin'.2 with h | h
              · omega
              · cases h
    · rw [not_or, not_ne_iff] at hroom
      refine ⟨fun h => absurd h ?_, fun h => ?_⟩
      · have hne : left ≠ 0 := fun h0 => hroom.2 (List.eq_nil_of_length_eq_zero (hlen.trans h0))
        rw [hroom.1]
        exact not_serves_error (sendData_stuck hne hpos)
      · rcases h.1 with h | h | h
        · exact absurd hroom.1 h
        · cases h
        · exact absurd h hroom.2

end

theorem signed_of_lt {isFile : Bool} {left : Nat} {ns : List Nat} (h : ∀ n ∈ ns, n < 2 ^ 31) :
    Signed isFile left ns := by
  induction ns generalizing left with
  | nil => trivial
  | cons n ns ih =>
    refine ⟨fun hle => ?_, ih fun x hx => h x (List.mem_cons_of_mem _ hx)⟩
    exact absurd hle (Nat.not_le.2 (h n (by simp)))

theorem asUint32_lt (x : Int) : asUint32 x < 2 ^ 32 := by
  unfold asUint32
  omega

/-- A sound is delivered on every sequence of grants, if there is room for data in a request and no grant is negative
as an `int`. -/
theorem sound_delivered_iff {auSoundPortDuration : Nat} {s : Sound} {priv : AuSoundData}
    (hplay : Playing auSoundPortDuration s priv) {maxRequestSize : Nat} (hm : maxRequestSize < 2 ^ 16)
    {events : List Event} (hgrants : ∀ n ∈ grants events, 0 < n ∧ n ≤ s.bufSize auSoundPortDuration) :
    Delivers maxRequestSize events priv ↔ Good maxRequestSize (grants events) priv := by
  have hbuf : s.bufSize auSoundPortDuration < 2 ^ 32 := asUint32_lt _
  have hleft : s.numBytes < 2 ^ 32 := asUint32_lt _
  have hserves : Delivers maxRequestSize events priv ↔ Serves maxRequestSize (grants events) priv := by
    rw [Delivers, play_eq_serve]
    rfl
  have hgood : Good maxRequestSize (grants events) priv ↔ Roomy maxRequestSize (grants events) priv.audio ∧
      Signed priv.source.isFile priv.audio.length (grants events) :=
    ⟨fun h => ⟨h.room, h.signed⟩, fun h => ⟨h.1, h.2⟩⟩
  rw [hserves, hgood]
  cases hplay with
  | file fp => exact serves_file_iff hm hbuf hleft hgrants
  | data block hblock =>
    refine serves_data_iff hm (.inr ⟨le_refl _, ?_, ?_⟩) fun n hn => ?_
    · rwa [Int.toNat_zero, Nat.zero_add]
    · rwa [Int.toNat_zero, Nat.zero_add]
    · exact ⟨(hgrants n hn).1, Nat.lt_of_le_of_lt (hgrants n hn).2 hbuf⟩

/-- Three bytes, at eight thousand a second. -/
def shortSound : Sound where
  numTracks := 1
  sampleRate := 8000
  numSamples := 3
  dataFormat := 1

/-- A flow that grants two bytes, twice. -/
def twoGrants : List Event := [.elementNotify .state auStatePause auReasonUnderrun 2, .elementNotify .lowWater 1 0 2]

theorem shortSound_delivered : Delivers 17 twoGrants (soundPlayFromData shortSound [1, 2, 3]) :=
  have hplay : Playing 5 shortSound (soundPlayFromData shortSound [1, 2, 3]) := .data _ (by decide)
  (sound_delivered_iff hplay (by decide) (by decide)).2 ⟨.inl (by decide), signed_of_lt (by decide)⟩

/-- With requests of sixteen bytes the first grant is never answered. -/
theorem no_room_for_data : ¬ ∀ (auSoundPortDuration : Nat) (s : Sound) (priv : AuSoundData) (maxRequestSize : Nat)
    (events : List Event), Playing auSoundPortDuration s priv → maxRequestSize < 2 ^ 16 →
    (∀ n ∈ grants events, 0 < n ∧ n ≤ s.bufSize auSoundPortDuration) → Delivers maxRequestSize events priv := by
  intro h
  obtain ⟨log, hlog, -⟩ := h 5 shortSound (soundPlayFromData shortSound [1, 2, 3]) 16 twoGrants (.data _ (by decide))
    (by decide) (by decide)
  have hstuck : dataHandler 16 (soundPlayFromData shortSound [1, 2, 3]) 2 = .error .fuel := by
    have hleft : shortSound.numBytes = 3 := by decide
    rw [soundPlayFromData, hleft]
    exact @sendData_stuck [1, 2, 3] 0 3 2 (by decide) (by decide)
  rw [play_eq_serve, show grants twoGrants = [2, 2] from rfl, serve_error hstuck] at hlog
  cases hlog

end Nas.SoundPump
