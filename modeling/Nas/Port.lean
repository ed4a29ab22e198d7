import Nas.Audio
import Nas.Ring

/-!
# Client ports

The data of an `ImportClient` or `ExportClient` element is kept in a port: `dataSize` bytes used as a
circular buffer. Four functions move data through it: `ProcAuWriteElement` and `readClient` for an
import, `writeClient` and `ProcAuReadElement` for an export (`audispatch.c`, `auprocess.c`). This
file has the parts of these functions that work on the port, the rate converters the two tick
functions call, and `createPort` with what `doSetup` and `AuChangeElementState` do to a port.
-/

namespace Nas
variable {K : Type}

/-! ### Creation -/

/-- `sizeof(ComponentRec)`, already a multiple of four. -/
def sizeofComponentRec : Nat := 304

/-- `PAD4` of an `AuUint32`. -/
def pad4u (n : Nat) : Nat := (n + 3) % 2 ^ 32 / 4 * 4

/-- `createPort` less the allocation: `none` for the overflow check's null pointer. The sums of the
check are taken in the 64 bits of `sizeof`, the products in 32 bits. -/
def createPort (auMinibufSamples format numTracks numSamples lowWater highWater : Nat)
    (discard : Bool) : Option Component :=
  let bps := sizeofFormat format
  let dataSize := numSamples * bps * numTracks % 2 ^ 32
  let minibufSize := auNativeBytesPerSample * auMinibufSamples * numTracks % 2 ^ 32
  if dataSize > sizeofComponentRec + pad4u dataSize + pad4u minibufSize * 2 then none
  else some
    { numSamples, format, numTracks, discard, dataSize, minibufSize
      lowWaterMark := lowWater * bps * numTracks % 2 ^ 32
      highWaterMark := highWater * bps * numTracks % 2 ^ 32
      data := List.replicate dataSize 0
      bytesPerSample := numTracks * bps }

/-- `flowEl->minibufChunk` as `doSetup` computes it for a port. -/
def minibufChunkOf (c : Component) : Nat :=
  if sizeofFormat c.format = 1 then c.minibufSize / 2 else c.minibufSize

/-! ### Rate conversion -/

/-- Which converter `doSetup` chose: `rcNull` when the rates are equal, else one of the `rc_x`. -/
inductive RateConvert where
  | null
  | frames
deriving DecidableEq, Repr

/-- What a converter stored, how many source bytes it used up, and the element's new phase. -/
structure Converted where
  bytes : List UInt8
  used : Nat
  currentSample : Nat
deriving DecidableEq, Repr

/-- The frame of `bps` bytes at offset `s` of the source. -/
def frameAt (src : List UInt8) (s bps : Nat) : List UInt8 :=
  (List.range bps).map fun k => src.getD (s + k) 0

/-- The code behind `NEXT:` in `rc_x`: go on by the whole part of the phase `c`, keeping in `c` what
the source has not got. Returns the phase, the source offset and the bytes left. -/
def rcNext (bps c s avail : Nat) : Nat × Nat × Nat :=
  let inc := c / 2 ^ 16
  if inc = 0 then (c, s, avail)
  else if inc * bps > avail then
    (c % 2 ^ 16 + (inc * bps - avail) / bps * 2 ^ 16, s + avail, 0)
  else (c % 2 ^ 16, s + inc * bps, avail - inc * bps)

/-- The loop of `rc_x`. `want` counts down in steps of a frame and is only compared with zero. -/
def rcLoop (bps n : Nat) (src : List UInt8) :
    Nat → (want avail c s : Nat) → List UInt8 → Exec Converted
  | fuel, want, avail, c, s, out =>
    if want = 0 ∨ avail = 0 then .ok ⟨out, s, c⟩
    else
      match fuel with
      | 0 => .error .fuel
      | fuel + 1 =>
        let next := rcNext bps ((c + n) % 2 ^ 32) s avail
        rcLoop bps n src fuel (sub32 want bps) next.2.2 next.1 next.2.1 (out ++ frameAt src s bps)

/-- `rc_1`, `rc_2`, `rc_4` and `rc_n`: they differ in how a frame is copied only. -/
def rcX (fuel bps c n : Nat) (src : List UInt8) (want avail : Nat) : Exec Converted :=
  let first := if c / 2 ^ 16 ≠ 0 then rcNext bps c 0 avail else (c, 0, avail)
  rcLoop bps n src fuel want first.2.2 first.1 first.2.1 []

/-- `rcNull`. Its two counts are signed, so a count of 2^31 or more makes the copy run away. -/
def rcNull (c : Nat) (src : List UInt8) (want avail : Nat) : Exec Converted :=
  let size := min (asInt32 want) (asInt32 avail)
  if size < 0 then .error .fault
  else .ok ⟨(List.range size.toNat).map fun k => src.getD k 0, size.toNat, c⟩

def rateConvert (rc : RateConvert) (fuel bps : Nat) (el : FlowElement K) (src : List UInt8)
    (want avail : Nat) : Exec Converted :=
  match rc with
  | .null => rcNull el.currentSample src want avail
  | .frames => rcX fuel bps el.currentSample el.nextSample src want avail

/-- A copy into the port's data. -/
def store (data : List UInt8) (d : Nat) (bytes : List UInt8) : Exec (List UInt8) :=
  if d + bytes.length ≤ data.length then .ok (Ring.splice data d bytes) else .error .fault

/-! ### The data path -/

/-- What a tick function asks for when it has moved its data. -/
inductive PortEvent where
  | none
  /-- `AuChangeElementState` on the element. -/
  | change (newState reason : Nat)
  /-- `AuRequestElementNotifyEvent` for a watermark. -/
  | watermark
deriving DecidableEq, Repr

/-- `x & ~(bytesPerSample - 1)`. -/
def alignDown (x bytesPerSample : Nat) : Nat := x &&& (2 ^ 32 - 1 - sub32 bytesPerSample 1)

/-- `readClient`: a tick takes data out of the port of an import. -/
def readClient (fuel : Nat) (rc : RateConvert) (c : Component) (el : FlowElement K) :
    Exec (Component × FlowElement K × PortEvent) :=
  let curSize := alignDown c.currentSize c.bytesPerSample
  if curSize = 0 then .ok (c, el, .none)
  else do
    let size := el.minibufChunk
    let available := min curSize size
    -- how much can we get before we need to wrap
    let pass1 := min (c.dataSize - c.read) curSize
    let o₁ ← rateConvert rc fuel c.bytesPerSample el (c.data.drop c.read) size pass1
    let s := if c.read + o₁.used = c.dataSize then 0 else c.read + o₁.used
    let el := { el with currentSample := o₁.currentSample }
    let o₂ ← (if o₁.bytes.length < available ∧ pass1 < curSize then
        let pass2 := min (c.dataSize - s) (sub32 curSize o₁.used)
        rateConvert rc fuel c.bytesPerSample el (c.data.drop s) (sub32 size o₁.bytes.length) pass2
      else .ok ⟨[], 0, el.currentSample⟩ : Exec Converted)
    let out := o₁.bytes ++ o₂.bytes
    let total := o₁.used + o₂.used
    let newSize := sub32 curSize total
    .ok ({ c with read := s + o₂.used, currentSize := sub32 c.currentSize total },
      { el with
        currentSample := o₂.currentSample
        minibuf := out ++ el.minibuf.drop out.length
        minibufSamples := if newSize = 0 then out.length / c.bytesPerSample else el.minibufSamples },
      -- did we underrun?
      if newSize = 0 then
        if c.eof then .change auStateStop auReasonEOF else .change auStatePause auReasonUnderrun
      else if (curSize > c.lowWaterMark ∨ c.incoming = 0) ∧ newSize ≤ c.lowWaterMark ∧ ¬c.eof then
        .watermark
      else .none)

/-- `writeClient`: a tick puts the element's minibuffer into the port of an export. -/
def writeClient (fuel : Nat) (rc : RateConvert) (c : Component) (el : FlowElement K) :
    Exec (Component × FlowElement K × PortEvent) := do
  let size := el.minibufBytes
  let free := sub32 c.dataSize c.currentSize
  let overrun := size > free
  -- how much can we send before we need to wrap
  let pass1 := min (c.dataSize - c.write) free
  let o₁ ← rateConvert rc fuel c.bytesPerSample el el.minibuf pass1 size
  let data ← store c.data c.write o₁.bytes
  let d := if c.write + o₁.bytes.length = c.dataSize then 0 else c.write + o₁.bytes.length
  let el := { el with currentSample := o₁.currentSample }
  -- have we written all we can?
  let o₂ ← (if pass1 < size then
      let pass2 := min (size - pass1) (c.dataSize - d)
      rateConvert rc fuel c.bytesPerSample el (el.minibuf.drop o₁.used) pass2 (sub32 size o₁.used)
    else .ok ⟨[], 0, el.currentSample⟩ : Exec Converted)
  let data ← store data d o₂.bytes
  let el := { el with currentSample := o₂.currentSample }
  let bytesOut := o₁.bytes.length + o₂.bytes.length
  let newSize := (c.currentSize + bytesOut) % 2 ^ 32
  let c' := { c with data, write := d + o₂.bytes.length, currentSize := newSize }
  .ok (c', el,
    if overrun then .change auStatePause auReasonOverrun
    else if (c.currentSize < c.highWaterMark ∨ c.outgoing = 0) ∧ newSize ≥ c.highWaterMark then
      .watermark
    else .none)

/-! ### Requests -/

/-- The port part of `ProcAuWriteElement`, from the check of `num_bytes` on; `none` for the
`AuBadValue` exit. -/
def writeElementPort (c : Component) (bytes : List UInt8) : Exec (Option Component) :=
  let numBytes := bytes.length
  if numBytes > sub32 c.dataSize c.currentSize then .ok none
  else if numBytes = 0 then .ok (some c)
  else do
    let n := min numBytes (c.dataSize - c.write)
    let data ← store c.data c.write (bytes.take n)
    -- wrap if necessary
    let data ← (if n ≠ numBytes then store data 0 (bytes.drop n) else .ok data : Exec (List UInt8))
    let d := c.write + numBytes
    .ok (some { c with
      data
      write := if d ≥ c.dataSize then d - c.dataSize else d
      currentSize := (c.currentSize + numBytes) % 2 ^ 32
      incoming := sub32 c.incoming numBytes })

/-- The bytes that follow a reply header: data, or a pad byte whose value is left open. -/
abbrev Sent := List (Option UInt8)

/-- `WriteToClient`, seen as the bytes it appends to the client's stream: `count` bytes of `buf` and
the pad to a multiple of four. The count is an `int`; a negative one reaches `bcopy`. -/
def writeToClient (sent : Sent) (count : Nat) (buf : List UInt8) : Exec Sent :=
  if count % 2 ^ 32 = 0 then .ok sent
  else if asInt32 count < 0 ∨ buf.length < count then .error .fault
  else .ok (sent ++ (buf.take count).map some ++ List.replicate (pad4 count - count) none)

/-- The header of a `ReadElement` reply. -/
structure AuReadElementReply where
  length : Nat
  numBytes : Nat
deriving DecidableEq, Repr

/-- What `readElementPort` has still to send: the stream so far, the bytes left, where they start. -/
structure Remaining where
  sent : Sent
  numBytes : Nat
  p : Nat
deriving DecidableEq, Repr

/-- The part of `ProcAuReadElement` that sends the bytes up to the end of the port, and with a tail
that is not a multiple of four some of those at its beginning. -/
def readElementWrap (c : Component) (numBytes : Nat) : Exec Remaining :=
  let p := c.read
  if p + numBytes > c.dataSize then
    let bytesLeft := c.dataSize - p
    -- don't let WriteToClient put in any padding
    if bytesLeft % 4 ≠ 0 then do
      let n := bytesLeft / 4 * 4
      let sent ← writeToClient [] n (c.data.drop p)
      let numBytes := sub32 numBytes n
      let bytesLeft := bytesLeft % 4
      -- copy from end of port to buffer
      let buf := (c.data.drop (p + n)).take bytesLeft
      -- copy from beginning of port to buffer
      let n := if numBytes > 4 - bytesLeft then 4 - bytesLeft else numBytes
      let buf := buf ++ c.data.take n
      let sent ← writeToClient sent (bytesLeft + n) buf
      .ok ⟨sent, sub32 numBytes (bytesLeft + n), n⟩
    else do
      let sent ← writeToClient [] bytesLeft (c.data.drop p)
      .ok ⟨sent, sub32 numBytes bytesLeft, 0⟩
  else .ok ⟨[], numBytes, p⟩

/-- The number of bytes a request for `num_bytes` gets. -/
def bytesSent (c : Component) (num_bytes : Nat) : Nat := min num_bytes c.currentSize

/-- The port part of `ProcAuReadElement` for a request of `num_bytes` bytes. -/
def readElementPort (c : Component) (num_bytes : Nat) :
    Exec (Component × AuReadElementReply × Sent) := do
  let totalBytes := bytesSent c num_bytes
  let rep : AuReadElementReply := ⟨(totalBytes + 3) % 2 ^ 32 / 4, totalBytes⟩
  let r ← readElementWrap c totalBytes
  let sent ← (if r.numBytes ≠ 0 then writeToClient r.sent r.numBytes (c.data.drop r.p)
    else .ok r.sent : Exec Sent)
  let p := r.p + r.numBytes
  .ok ({ c with
    outgoing := sub32 c.outgoing totalBytes
    currentSize := sub32 c.currentSize totalBytes
    read := if p ≥ c.dataSize then p - c.dataSize else p }, rep, sent)

/-- What `AuChangeElementState` does to the port of an import that leaves the stopped state. -/
def startImportPort (c : Component) : Component :=
  if c.discard then { c with read := 0, write := 0, incoming := 0, currentSize := 0, eof := false }
  else { c with eof := false }

/-- What `AuChangeElementState` does to the port of an export that leaves the stopped state. -/
def startExportPort (c : Component) : Component :=
  if c.discard then { c with read := 0, write := 0, outgoing := 0, currentSize := 0 } else c

end Nas
