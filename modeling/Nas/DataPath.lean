import Nas.ReadClient

/-!
# Buckets and wave forms

`readBucket`, `writeBucket` and `readWaveForm` (`auprocess.c`), and the calls of a rate converter that the data path
makes. A pointer into the data of a component is an offset; the distance to the end of the data is taken in the 32 bits
of `AuUint32`, and wraps around when the pointer is behind it.

`Routine.respects_iff` says which routines make no call that goes out of its bounds.
-/

namespace Nas
variable {K : Type}

/-! ### The routines -/

/-- `c->dataEnd - p`, as `AuUint32`. -/
def Component.left (c : Component) (p : Nat) : Nat := (((c.dataSize : Int) - p) % 2 ^ 32).toNat

/-- `x / y`, which has no result for zero. -/
def divide (x y : Nat) : Exec Nat := if y = 0 then .error .fault else .ok (x / y)

/-- How far a conversion has looked at its source. -/
def extent (rc : RateConvert) (bps : Nat) (el : FlowElement K) (o : Converted) : Nat :=
  match rc with
  | .null => o.bytes.length
  | .frames => (position el.currentSample el.nextSample (o.bytes.length / bps - 1) + 1) * bps

/-- A conversion of the data of a component from an offset on. -/
def convertFrom (rc : RateConvert) (fuel : Nat) (c : Component) (el : FlowElement K) (s want avail : Nat) :
    Exec Converted := do
  let o ← rateConvert rc fuel c.bytesPerSample el (c.data.drop s) want avail
  if o.bytes = [] ∨ s + extent rc c.bytesPerSample el o ≤ c.dataSize then .ok o else .error .fault

/-- `bytes` at an offset of the minibuffer. -/
def copyTo (minibuf : List UInt8) (d : Nat) (bytes : List UInt8) : List UInt8 :=
  minibuf.take d ++ bytes ++ minibuf.drop (d + bytes.length)

/-- What `readBucket` does first with new parameters. -/
def FlowElement.bucketParms (el : FlowElement K) (c : Component) : FlowElement K :=
  match el.raw with
  | .importBucket p =>
    if el.parmsChanged then
      { el with
        read := p.offset * c.bytesPerSample % 2 ^ 32
        numBytes := if el.countSamples then p.numSamples * c.bytesPerSample % 2 ^ 32 else el.numBytes
        parmsChanged := false }
    else el
  | .exportBucket p =>
    if el.parmsChanged then
      { el with
        write := p.offset * c.bytesPerSample % 2 ^ 32
        numBytes := if el.countSamples then p.numSamples * c.bytesPerSample % 2 ^ 32 else el.numBytes
        parmsChanged := false }
    else el
  | _ => el

/-- What there is to read in a bucket. -/
def FlowElement.available (el : FlowElement K) (c : Component) : Nat :=
  if el.countSamples then min (c.left el.read) el.numBytes else c.left el.read

/-- `readBucket` -/
def readBucket (fuel : Nat) (rc : RateConvert) (c : Component) (el : FlowElement K) :
    Exec (FlowElement K × PortEvent) := do
  let el := el.bucketParms c
  let o ← convertFrom rc fuel c el el.read el.minibufChunk (el.available c)
  let el := { el with
    currentSample := o.currentSample
    minibuf := copyTo el.minibuf 0 o.bytes
    read := el.read + o.used
    numBytes := sub32 el.numBytes o.used }
  -- did we run out of data?
  if el.read = c.dataSize then do
    let samples ← divide o.bytes.length c.bytesPerSample
    .ok ({ el with minibufSamples := samples }, .change auStateStop auReasonEOF)
  else .ok (el, .none)

/-- What a tick has for a bucket. -/
def FlowElement.offered (el : FlowElement K) : Nat :=
  if el.countSamples then min el.minibufBytes el.numBytes else el.minibufBytes

/-- `writeBucket` -/
def writeBucket (fuel : Nat) (rc : RateConvert) (c : Component) (el : FlowElement K) :
    Exec (Component × FlowElement K × PortEvent) := do
  let el := el.bucketParms c
  -- the room is a signed number here
  let overrun := (el.minibufBytes : Int) > (c.dataSize : Int) - el.write
  let o ← rateConvert rc fuel c.bytesPerSample el el.minibuf (c.left el.write) el.offered
  let data ← (if o.bytes = [] then .ok c.data else store c.data el.write o.bytes : Exec (List UInt8))
  let el := { el with
    currentSample := o.currentSample
    write := el.write + o.bytes.length
    numBytes := sub32 el.numBytes o.bytes.length }
  .ok ({ c with data }, el, if overrun then .change auStateStop auReasonEOF else .none)

/-- What `readWaveForm` does first with new parameters. -/
def FlowElement.waveParms (el : FlowElement K) (c : Component) : Component × FlowElement K :=
  match el.raw with
  | .importWaveForm p =>
    if el.parmsChanged then
      ({ c with frequency := p.frequency * c.waveSamples % 2 ^ 32 },
        { el with
          countSamples := p.numSamples ≠ auUnlimitedSamples
          numBytes := if p.numSamples ≠ auUnlimitedSamples then p.numSamples * auNativeBytesPerSample % 2 ^ 32
            else el.numBytes
          parmsChanged := false })
    else (c, el)
  | _ => (c, el)

/-- Where the loops of `readWaveForm` are: what is wanted, what is stored, and `bytesOut`, which has no value at
first. -/
structure WaveLoop (K : Type) where
  el : FlowElement K
  size : Nat
  d : Nat := 0
  bytesOut : Option Nat := none

/-- The conditions of the two loops. -/
def WaveLoop.more (w : WaveLoop K) : Prop := w.size ≠ 0 ∧ (w.el.countSamples → w.el.numBytes ≠ 0)

instance (w : WaveLoop K) : Decidable w.more := inferInstanceAs (Decidable (_ ∧ _))

/-- The body of the loops. -/
def WaveLoop.round (rc : RateConvert) (fuel : Nat) (c : Component) (w : WaveLoop K) : Exec (WaveLoop K) := do
  let o ← convertFrom rc fuel c w.el w.el.read w.size (c.left w.el.read)
  let bytesOut := if w.el.countSamples then min o.bytes.length w.el.numBytes else o.bytes.length
  .ok
    { el := { w.el with
        currentSample := o.currentSample
        minibuf := copyTo w.el.minibuf w.d o.bytes
        read := if w.el.read + o.used = c.dataSize then 0 else w.el.read + o.used
        numBytes := if w.el.countSamples then w.el.numBytes - bytesOut else w.el.numBytes }
      size := sub32 w.size bytesOut
      d := w.d + bytesOut
      bytesOut := some bytesOut }

/-- The loops, of which one is taken. -/
def WaveLoop.rounds (rc : RateConvert) (fuel : Nat) (c : Component) : Nat → WaveLoop K → Exec (WaveLoop K)
  | n, w =>
    if w.more then
      match n with
      | 0 => .error .fuel
      | n + 1 => do
        let w ← w.round rc fuel c
        w.rounds rc fuel c n
    else .ok w

/-- `readWaveForm` -/
def readWaveForm (fuel rounds : Nat) (rc : RateConvert) (c : Component) (el : FlowElement K) :
    Exec (Component × FlowElement K × PortEvent) := do
  let (c, el) := el.waveParms c
  let w ← ({ el, size := el.minibufChunk } : WaveLoop K).rounds rc fuel c rounds
  -- did we run out of data?
  if w.el.countSamples ∧ w.el.numBytes = 0 then do
    let bytesOut ← Exec.deref w.bytesOut
    let samples ← divide bytesOut c.bytesPerSample
    .ok (c, { w.el with minibufSamples := samples }, .change auStateStop auReasonEOF)
  else .ok (c, w.el, .none)

/-! ### Calls of the converters -/

/-- A routine of the data path, and what it is called with. -/
inductive Routine (K : Type) where
  | readClient (rc : RateConvert) (c : Component) (el : FlowElement K)
  | writeClient (rc : RateConvert) (c : Component) (el : FlowElement K)
  | readBucket (rc : RateConvert) (c : Component) (el : FlowElement K)
  | writeBucket (rc : RateConvert) (c : Component) (el : FlowElement K)
  | readWaveForm (rc : RateConvert) (c : Component) (el : FlowElement K)

/-- `k` is this call. -/
structure Call.Is (k : Call) (rc : RateConvert) (bps : Nat) (el : FlowElement K) (src : List UInt8) (want avail : Nat) :
    Prop where
  rc : k.rc = rc
  bps : k.bps = bps
  currentSample : k.currentSample = el.currentSample
  nextSample : k.nextSample = el.nextSample
  src : k.src = src
  want : k.want = want
  avail : k.avail = avail

/-- Where the loops come. -/
inductive WaveLoop.Comes (rc : RateConvert) (c : Component) (w₀ : WaveLoop K) : WaveLoop K → Prop
  | start : Comes rc c w₀ w₀
  | round {fuel : Nat} {w w' : WaveLoop K} : Comes rc c w₀ w → w.more → w.round rc fuel c = .ok w' → Comes rc c w₀ w'

/-- The calls a routine makes. A later one is made when those in front of it have come to an end. -/
inductive Routine.Makes : Routine K → Call → Prop
  | readClient {rc : RateConvert} {c : Component} {el : FlowElement K} {k : Call}
      (h : alignDown c.currentSize c.bytesPerSample ≠ 0)
      (hk : k.Is rc c.bytesPerSample el (c.data.drop c.read) el.minibufChunk
        (min (c.dataSize - c.read) (alignDown c.currentSize c.bytesPerSample))) :
      Makes (.readClient rc c el) k
  | readClient_wrap {rc : RateConvert} {c : Component} {el : FlowElement K} {k : Call} {fuel s : Nat} {o : Converted}
      (h : alignDown c.currentSize c.bytesPerSample ≠ 0)
      (ho : rateConvert rc fuel c.bytesPerSample el (c.data.drop c.read) el.minibufChunk
        (min (c.dataSize - c.read) (alignDown c.currentSize c.bytesPerSample)) = .ok o)
      (hs : s = if c.read + o.used = c.dataSize then 0 else c.read + o.used)
      (hmore : o.bytes.length < min (alignDown c.currentSize c.bytesPerSample) el.minibufChunk ∧
        min (c.dataSize - c.read) (alignDown c.currentSize c.bytesPerSample) < alignDown c.currentSize c.bytesPerSample)
      (hk : k.Is rc c.bytesPerSample { el with currentSample := o.currentSample } (c.data.drop s)
        (sub32 el.minibufChunk o.bytes.length)
        (min (c.dataSize - s) (sub32 (alignDown c.currentSize c.bytesPerSample) o.used))) :
      Makes (.readClient rc c el) k
  | writeClient {rc : RateConvert} {c : Component} {el : FlowElement K} {k : Call}
      (hk : k.Is rc c.bytesPerSample el el.minibuf (min (c.dataSize - c.write) (sub32 c.dataSize c.currentSize))
        el.minibufBytes) :
      Makes (.writeClient rc c el) k
  | writeClient_wrap {rc : RateConvert} {c : Component} {el : FlowElement K} {k : Call} {fuel d : Nat} {o : Converted}
      {data : List UInt8}
      (ho : rateConvert rc fuel c.bytesPerSample el el.minibuf
        (min (c.dataSize - c.write) (sub32 c.dataSize c.currentSize)) el.minibufBytes = .ok o)
      (hstore : store c.data c.write o.bytes = .ok data)
      (hd : d = if c.write + o.bytes.length = c.dataSize then 0 else c.write + o.bytes.length)
      (hmore : min (c.dataSize - c.write) (sub32 c.dataSize c.currentSize) < el.minibufBytes)
      (hk : k.Is rc c.bytesPerSample { el with currentSample := o.currentSample } (el.minibuf.drop o.used)
        (min (el.minibufBytes - min (c.dataSize - c.write) (sub32 c.dataSize c.currentSize)) (c.dataSize - d))
        (sub32 el.minibufBytes o.used)) :
      Makes (.writeClient rc c el) k
  | readBucket {rc : RateConvert} {c : Component} {el : FlowElement K} {k : Call}
      (hk : k.Is rc c.bytesPerSample (el.bucketParms c) (c.data.drop (el.bucketParms c).read)
        (el.bucketParms c).minibufChunk ((el.bucketParms c).available c)) :
      Makes (.readBucket rc c el) k
  | writeBucket {rc : RateConvert} {c : Component} {el : FlowElement K} {k : Call}
      (hk : k.Is rc c.bytesPerSample (el.bucketParms c) (el.bucketParms c).minibuf (c.left (el.bucketParms c).write)
        (el.bucketParms c).offered) :
      Makes (.writeBucket rc c el) k
  | readWaveForm {rc : RateConvert} {c : Component} {el : FlowElement K} {w : WaveLoop K} {k : Call}
      (hw : WaveLoop.Comes rc (el.waveParms c).1 { el := (el.waveParms c).2, size := (el.waveParms c).2.minibufChunk } w)
      (hmore : w.more)
      (hk : k.Is rc (el.waveParms c).1.bytesPerSample w.el ((el.waveParms c).1.data.drop w.el.read) w.size
        ((el.waveParms c).1.left w.el.read)) :
      Makes (.readWaveForm rc c el) k

/-- The routine, with this much fuel for each loop. -/
def Routine.run (fuel : Nat) : Routine K → Exec Unit
  | .readClient rc c el => (fun _ => ()) <$> Nas.readClient fuel rc c el
  | .writeClient rc c el => (fun _ => ()) <$> Nas.writeClient fuel rc c el
  | .readBucket rc c el => (fun _ => ()) <$> Nas.readBucket fuel rc c el
  | .writeBucket rc c el => (fun _ => ()) <$> Nas.writeBucket fuel rc c el
  | .readWaveForm rc c el => (fun _ => ()) <$> Nas.readWaveForm fuel fuel rc c el

/-! ### Bounds -/

section
variable {k : Call} {rc : RateConvert} {bps want avail fuel : Nat} {el : FlowElement K} {src : List UInt8}

theorem Call.Is.run (h : k.Is rc bps el src want avail) (fuel : Nat) :
    k.run fuel = rateConvert rc fuel bps el src want avail := by
  obtain ⟨hrc, hbps, hc, hn, hsrc, hwant, havail⟩ := h
  unfold Call.run rateConvert
  rcases rc with - | -
  · simp only [hrc, hc, hsrc, hwant, havail]
  · simp only [hrc, hbps, hc, hn, hsrc, hwant, havail]

theorem exists_call (rc : RateConvert) (bps : Nat) (el : FlowElement K) (src : List UInt8) (hwant : want < 2 ^ 32)
    (havail : avail < 2 ^ 32) : ∃ k : Call, k.Is rc bps el src want avail :=
  ⟨⟨rc, bps, el.currentSample, el.nextSample, src, want, avail, hwant, havail⟩, ⟨rfl, rfl, rfl, rfl, rfl, rfl, rfl⟩⟩

/-- A call for whole frames of whole frames. -/
theorem Call.ok_of_dvd (hwant : k.bps ∣ k.want) (havail : k.bps ∣ k.avail)
    (hnull : k.rc = .null → k.want < 2 ^ 31 ∧ k.avail < 2 ^ 31) : k.Ok := by
  unfold Call.Ok
  rcases hrc : k.rc with - | -
  · obtain ⟨hw, ha⟩ := hnull hrc
    refine ⟨hw, ha, ?_⟩
    rcases Nat.le_total k.want k.avail with hle | hle
    · rwa [Nat.min_eq_left hle]
    · rwa [Nat.min_eq_right hle]
  · dsimp only
    split
    · exact havail
    · exact hwant

namespace Routine
variable (r : Routine K)

/-- The numbers are those of `AuUint32`. -/
def Sized : Routine K → Prop
  | .readClient _ c el | .writeClient _ c el | .readBucket _ c el | .writeBucket _ c el | .readWaveForm _ c el =>
    c.dataSize < 2 ^ 32 ∧ c.currentSize < 2 ^ 32 ∧ el.minibufChunk < 2 ^ 32 ∧ el.minibufBytes < 2 ^ 32 ∧ el.numBytes < 2 ^ 32

/-- A routine keeps its converter to their bounds just when every call it makes is in order. -/
theorem respects_iff : (∀ k, r.Makes k → k.Respects) ↔ ∀ k, r.Makes k → k.Ok :=
  forall₂_congr fun k _ => k.respects_iff_ok

theorem left_lt (c : Component) (p : Nat) : c.left p < 2 ^ 32 := by
  unfold Component.left
  omega

theorem bucketParms_sized (c : Component) (hnum : el.numBytes < 2 ^ 32) :
    (el.bucketParms c).numBytes < 2 ^ 32 ∧ (el.bucketParms c).minibufChunk = el.minibufChunk ∧
      (el.bucketParms c).minibufBytes = el.minibufBytes := by
  unfold FlowElement.bucketParms
  split
  · split
    · refine ⟨?_, rfl, rfl⟩
      dsimp only
      split
      · exact Nat.mod_lt _ (by decide)
      · exact hnum
    · exact ⟨hnum, rfl, rfl⟩
  · split
    · refine ⟨?_, rfl, rfl⟩
      dsimp only
      split
      · exact Nat.mod_lt _ (by decide)
      · exact hnum
    · exact ⟨hnum, rfl, rfl⟩
  · exact ⟨hnum, rfl, rfl⟩

theorem bind_ne_fuel {α β : Type} {x : Exec α} {f : α → Exec β} (h : x >>= f = .error .fuel) :
    x = .error .fuel ∨ ∃ a, f a = .error .fuel := by
  rcases x with stop | a
  · rw [Exec.error_bind] at h
    cases h
    exact .inl rfl
  · exact .inr ⟨a, h⟩

theorem store_ne_fuel {data bytes : List UInt8} {d : Nat} : store data d bytes ≠ .error .fuel := by
  unfold store
  split
  · exact fun h => nomatch h
  · exact fun h => nomatch h

/-- A routine whose converters respect their bounds comes to an end, but for the loops of a wave form. -/
theorem returns (hsized : r.Sized) (h : ∀ k, r.Makes k → k.Respects) (hwave : ∀ rc c el, r ≠ .readWaveForm rc c el) :
    ∃ fuel, r.run fuel ≠ .error .fuel := by
  rcases r with ⟨rc, c, el⟩ | ⟨rc, c, el⟩ | ⟨rc, c, el⟩ | ⟨rc, c, el⟩ | ⟨rc, c, el⟩
  · obtain ⟨hdata, hsize, hchunk, -, -⟩ := hsized
    by_cases hcur : alignDown c.currentSize c.bytesPerSample = 0
    · refine ⟨0, fun he => ?_⟩
      replace he := (if_pos hcur).symm.trans (Exec.map_eq_error.1 he)
      cases he
    · have hle : alignDown c.currentSize c.bytesPerSample ≤ c.currentSize := PortInv.alignDown_le ..
      obtain ⟨k, hk⟩ := exists_call rc c.bytesPerSample el (c.data.drop c.read) hchunk
        (show min (c.dataSize - c.read) (alignDown c.currentSize c.bytesPerSample) < 2 ^ 32 by omega)
      obtain ⟨fuel, o, ho, -⟩ := h k (.readClient hcur hk)
      rw [hk.run] at ho
      by_cases hmore : o.bytes.length < min (alignDown c.currentSize c.bytesPerSample) el.minibufChunk ∧
          min (c.dataSize - c.read) (alignDown c.currentSize c.bytesPerSample) < alignDown c.currentSize c.bytesPerSample
      · obtain ⟨k', hk'⟩ := exists_call rc c.bytesPerSample { el with currentSample := o.currentSample }
          (c.data.drop (if c.read + o.used = c.dataSize then 0 else c.read + o.used))
          (sub32_lt el.minibufChunk o.bytes.length)
          (show min (c.dataSize - if c.read + o.used = c.dataSize then 0 else c.read + o.used)
            (sub32 (alignDown c.currentSize c.bytesPerSample) o.used) < 2 ^ 32 by omega)
        obtain ⟨fuel', o', ho', -⟩ := h k' (.readClient_wrap hcur ho rfl hmore hk')
        rw [hk'.run] at ho'
        refine ⟨max fuel fuel', fun he => ?_⟩
        replace he := (if_neg hcur).symm.trans (Exec.map_eq_error.1 he)
        dsimp only at he
        rw [rateConvert_fuel (Nat.le_max_left ..) ho, Exec.ok_bind, if_pos hmore,
          rateConvert_fuel (Nat.le_max_right ..) ho'] at he
        cases he
      · refine ⟨fuel, fun he => ?_⟩
        replace he := (if_neg hcur).symm.trans (Exec.map_eq_error.1 he)
        dsimp only at he
        rw [ho, Exec.ok_bind, if_neg hmore] at he
        cases he
  · obtain ⟨hdata, hsize, -, hbytes, -⟩ := hsized
    have hpass : min (c.dataSize - c.write) (sub32 c.dataSize c.currentSize) < 2 ^ 32 := by omega
    obtain ⟨k, hk⟩ := exists_call rc c.bytesPerSample el el.minibuf hpass hbytes
    obtain ⟨fuel, o, ho, -⟩ := h k (.writeClient hk)
    rw [hk.run] at ho
    rcases hstore : store c.data c.write o.bytes with stop | data
    · refine ⟨fuel, fun he => ?_⟩
      replace he := Exec.map_eq_error.1 he
      unfold Nas.writeClient at he
      dsimp only at he
      rw [ho, Exec.ok_bind, hstore, Exec.error_bind] at he
      cases he
      exact store_ne_fuel hstore
    · by_cases hmore : min (c.dataSize - c.write) (sub32 c.dataSize c.currentSize) < el.minibufBytes
      · obtain ⟨k', hk'⟩ := exists_call rc c.bytesPerSample { el with currentSample := o.currentSample }
          (el.minibuf.drop o.used)
          (show min (el.minibufBytes - min (c.dataSize - c.write) (sub32 c.dataSize c.currentSize))
            (c.dataSize - if c.write + o.bytes.length = c.dataSize then 0 else c.write + o.bytes.length) < 2 ^ 32 by omega)
          (sub32_lt el.minibufBytes o.used)
        obtain ⟨fuel', o', ho', -⟩ := h k' (.writeClient_wrap ho hstore rfl hmore hk')
        rw [hk'.run] at ho'
        refine ⟨max fuel fuel', fun he => ?_⟩
        replace he := Exec.map_eq_error.1 he
        unfold Nas.writeClient at he
        dsimp only at he
        rw [rateConvert_fuel (Nat.le_max_left ..) ho, Exec.ok_bind, hstore, Exec.ok_bind, if_pos hmore,
          rateConvert_fuel (Nat.le_max_right ..) ho', Exec.ok_bind] at he
        rcases bind_ne_fuel he with he | ⟨data', he⟩
        · exact store_ne_fuel he
        · cases he
      · refine ⟨fuel, fun he => ?_⟩
        replace he := Exec.map_eq_error.1 he
        unfold Nas.writeClient at he
        dsimp only at he
        rw [ho, Exec.ok_bind, hstore, Exec.ok_bind, if_neg hmore, Exec.ok_bind] at he
        rcases bind_ne_fuel he with he | ⟨data', he⟩
        · exact store_ne_fuel he
        · cases he
  · obtain ⟨hdata, -, hchunk, -, hnum⟩ := hsized
    obtain ⟨hnum, hsame, -⟩ := bucketParms_sized c hnum
    have hleft := left_lt c (el.bucketParms c).read
    have havail : (el.bucketParms c).available c < 2 ^ 32 := by
      unfold FlowElement.available
      split
      · omega
      · exact hleft
    obtain ⟨k, hk⟩ := exists_call rc c.bytesPerSample (el.bucketParms c) (c.data.drop (el.bucketParms c).read)
      (hsame ▸ hchunk : (el.bucketParms c).minibufChunk < 2 ^ 32) havail
    obtain ⟨fuel, o, ho, -⟩ := h k (.readBucket hk)
    rw [hk.run] at ho
    refine ⟨fuel, fun he => ?_⟩
    replace he := Exec.map_eq_error.1 he
    rcases bind_ne_fuel he with he | ⟨o', he⟩
    · unfold convertFrom at he
      rw [ho, Exec.ok_bind] at he
      split at he
      · cases he
      · cases he
    · dsimp only at he
      split at he
      · rcases bind_ne_fuel he with he | ⟨samples, he⟩
        · unfold divide at he
          split at he
          · cases he
          · cases he
        · cases he
      · cases he
  · obtain ⟨hdata, -, -, hbytes, hnum⟩ := hsized
    obtain ⟨hnum, -, hsame⟩ := bucketParms_sized c hnum
    have hoffered : (el.bucketParms c).offered < 2 ^ 32 := by
      unfold FlowElement.offered
      split
      · omega
      · omega
    obtain ⟨k, hk⟩ := exists_call rc c.bytesPerSample (el.bucketParms c) (el.bucketParms c).minibuf
      (left_lt c (el.bucketParms c).write) hoffered
    obtain ⟨fuel, o, ho, -⟩ := h k (.writeBucket hk)
    rw [hk.run] at ho
    refine ⟨fuel, fun he => ?_⟩
    replace he := Exec.map_eq_error.1 he
    unfold Nas.writeBucket at he
    dsimp only at he
    rw [ho, Exec.ok_bind] at he
    rcases bind_ne_fuel he with he | ⟨data, he⟩
    · split at he
      · cases he
      · exact store_ne_fuel he
    · cases he
  · exact absurd rfl (hwave rc c el)

end Routine

end

/-- `sixBytes`, played at the rate of the server by the converters of another rate. -/
def sixFrames : FlowElement AuFixedPoint := { sixBytes with nextSample := 2 ^ 16 }

/-- A port of eight bytes with two in a frame. -/
def framesPort (read write currentSize outgoing : Nat) (data : List UInt8) : Component :=
  { numSamples := 4, format := 6, numTracks := 1, dataSize := 8, minibufSize := 12, bytesPerSample := 2,
    data, read, write, currentSize, outgoing }

/-- It was written six bytes twice and read six and one. There are three bytes left, and two frames are stored. -/
theorem sixFrames_not_respects : ¬ ∀ c₀ c, createPort 6 6 1 4 0 0 false = some c₀ →
    Reach (portStep (K := AuFixedPoint)) (fun _ _ => True) c₀ c →
      ∀ rc el k, (Routine.writeClient rc c el : Routine AuFixedPoint).Makes k → k.Respects := by
  intro h
  have h₁ : portStep (framesPort 0 0 0 0 [0, 0, 0, 0, 0, 0, 0, 0]) (.writeClient 0 .null sixBytes) =
      .ok (framesPort 0 6 6 0 [1, 2, 3, 4, 5, 6, 0, 0]) := by decide
  have h₂ : portStep (K := AuFixedPoint) (framesPort 0 6 6 0 [1, 2, 3, 4, 5, 6, 0, 0]) (.readElement 6) =
      .ok (framesPort 6 6 0 (2 ^ 32 - 6) [1, 2, 3, 4, 5, 6, 0, 0]) := by decide
  have h₃ : portStep (framesPort 6 6 0 (2 ^ 32 - 6) [1, 2, 3, 4, 5, 6, 0, 0]) (.writeClient 0 .null sixBytes) =
      .ok (framesPort 6 4 6 (2 ^ 32 - 6) [3, 4, 5, 6, 5, 6, 1, 2]) := by decide
  have h₄ : portStep (K := AuFixedPoint) (framesPort 6 4 6 (2 ^ 32 - 6) [3, 4, 5, 6, 5, 6, 1, 2]) (.readElement 1) =
      .ok (framesPort 7 4 5 (2 ^ 32 - 7) [3, 4, 5, 6, 5, 6, 1, 2]) := by decide
  have hrespects := h _ _ rfl
    (.step _ (.step _ (.step _ (.step _ .init trivial h₁) trivial h₂) trivial h₃) trivial h₄) .frames sixFrames
    ⟨.frames, 2, 0, 2 ^ 16, [1, 2, 3, 4, 5, 6], 3, 6, by decide, by decide⟩ (.writeClient ⟨rfl, rfl, rfl, rfl, rfl, rfl, rfl⟩)
  rw [Call.respects_iff_ok] at hrespects
  revert hrespects
  decide

end Nas
