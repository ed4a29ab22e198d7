import Nas.CompileTotal
import Nas.Convert
import Nas.Limits
import Nas.Mix

/-!
# What the loops of ULAW are called with

`AuULAW8ToNative` and `AuNativeToULAW8` count the samples of a chunk with an `AuInt16`. A chunk has `auMinibufSamples`
frames at most, and a monitor two for each of them; how many samples a frame has is checked against nothing, and is 32
where the server says `auMaxTracks`. With the 1024 frames of the server's widest chunk these are 2^15 samples, one more
than the counter can reach.
-/

namespace Nas.UlawLoops
open Nas.Convert InPlace
variable {K : Type}

def auFormatULAW8 : Nat := 1

/-! ### The data path -/

/-- `readDevice` -/
def readDevice (el : FlowElement K) : FlowElement K × PortEvent :=
  if el.countSamples then
    if el.numBytes < el.minibufChunk then (el, .change auStateStop auReasonEOF)
    else ({ el with numBytes := el.numBytes - el.minibufChunk }, .none)
  else (el, .none)

/-- `readInputTable` -/
def readInputTable (fuel : Nat) (rc : RateConvert) (c : Component) (el : FlowElement K) :
    Exec (Component × FlowElement K × PortEvent) :=
  match el.raw with
  | .importClient _ => readClient fuel rc c el
  | .importDevice _ => .ok (c, readDevice el)
  | .importBucket _ => do
    let r ← readBucket fuel rc c el
    .ok (c, r)
  | .importWaveForm _ => readWaveForm fuel fuel rc c el
  | _ => .error .fault

/-- `readInput` of an element whose format is ULAW. -/
def readInput (o : ByteOrder) (auMinibufSamples fuel : Nat) (rc : RateConvert) (c : Component) (el : FlowElement K) :
    Exec (Component × FlowElement K × PortEvent) := do
  let (c', el, event) ← readInputTable fuel rc c { el with minibufSamples := auMinibufSamples }
  let minibuf ← toNative o .ulaw8 c.numTracks el.minibufSamples el.minibuf
  .ok (c', { el with minibuf }, event)

/-- The conversion in `writeOutput`, where the tick has as many samples as the longest of the inputs. -/
def fromNativeFormat (o : ByteOrder) (c : Component) (inputs : List Mix.Input) (m : List UInt8) : Exec (List UInt8) :=
  fromNative o .ulaw8 c.numTracks (Mix.maxSamples inputs) m

/-- The code behind `NEXT:` in `rcm_x`, less the comparisons of the samples: the phase, what is left of the chunk and the
number of pairs. -/
def rcmNext (c avail count : Nat) : Nat × Nat × Nat :=
  let inc := c / 2 ^ 16
  if inc = 0 then (c, avail, count)
  else if inc > avail then (c % 2 ^ 16 + (inc - avail) * 2 ^ 16, 0, count)
  else (c % 2 ^ 16, avail - inc, count + 1)

def rcmLoop (n : Nat) : Nat → (c avail count : Nat) → Exec Nat
  | fuel, c, avail, count =>
    if avail = 0 then .ok count
    else
      match fuel with
      | 0 => .error .fuel
      | fuel + 1 =>
        let next := rcmNext ((c + n) % 2 ^ 32) avail count
        rcmLoop n fuel next.1 next.2.1 next.2.2

/-- `rcm_1`, `rcm_2` and `rcm_n`: how many pairs of a smallest and a largest sample they complete. -/
def rcm (fuel c n avail : Nat) : Exec Nat :=
  let first := if c / 2 ^ 16 ≠ 0 then rcmNext c avail 0 else (c, avail, 0)
  rcmLoop n fuel first.1 first.2.1 first.2.2

/-- The conversion in `writeMonitor`, which is left out when no pair is complete. -/
def monitorFormat (o : ByteOrder) (c : Component) (n : Nat) (m : List UInt8) : Exec (List UInt8) :=
  if n = 0 then .ok m else fromNative o .ulaw8 c.numTracks (2 * n) m

/-! ### Components of ULAW -/

/-- What `createPort`, `createMonitor` and `ProcAuCreateBucket` put in a component of ULAW, and leave there. -/
structure UlawComponent where
  auMinibufSamples : Nat
  component : Component
  minibufSize : component.minibufSize = auNativeBytesPerSample * auMinibufSamples * component.numTracks % 2 ^ 32
  bytesPerSample : component.bytesPerSample = component.numTracks * sizeofFormat auFormatULAW8
  format : component.format = auFormatULAW8

/-- The buffer a tick has its samples in has the bytes that were allocated for it. -/
def HasRoom (samples : Nat) (c : Component) (m : List UInt8) : Prop := samples * c.numTracks * 2 ≤ m.length

/-- The component of `ProcAuCreateBucket`, less the allocation and the attributes that no tick looks at. -/
def createBucket (auMinibufSamples numTracks numSamples : Nat) : Component where
  kind := auComponentKindBucket
  format := auFormatULAW8
  numTracks
  numSamples
  dataSize := numSamples * sizeofFormat auFormatULAW8 * numTracks % 2 ^ 32
  data := List.replicate (numSamples * sizeofFormat auFormatULAW8 * numTracks % 2 ^ 32) 0
  minibufSize := auNativeBytesPerSample * auMinibufSamples * numTracks % 2 ^ 32
  bytesPerSample := numTracks * sizeofFormat auFormatULAW8

theorem createPort_ulaw {auMinibufSamples numTracks numSamples lowWater highWater : Nat} {discard : Bool} {c : Component}
    (h : createPort auMinibufSamples auFormatULAW8 numTracks numSamples lowWater highWater discard = some c) :
    c.minibufSize = auNativeBytesPerSample * auMinibufSamples * c.numTracks % 2 ^ 32 ∧
      c.bytesPerSample = c.numTracks * sizeofFormat auFormatULAW8 ∧ c.format = auFormatULAW8 := by
  unfold createPort at h
  dsimp only at h
  split at h
  · cases h
  · cases h
    exact ⟨rfl, rfl, rfl⟩

namespace UlawComponent

def ofPort {auMinibufSamples numTracks numSamples lowWater highWater : Nat} {discard : Bool} {c : Component}
    (h : createPort auMinibufSamples auFormatULAW8 numTracks numSamples lowWater highWater discard = some c) :
    UlawComponent where
  auMinibufSamples
  component := c
  minibufSize := (createPort_ulaw h).1
  bytesPerSample := (createPort_ulaw h).2.1
  format := (createPort_ulaw h).2.2

def ofMonitor (auMinibufSamples numTracks : Nat) : UlawComponent where
  auMinibufSamples
  component := createMonitor auMinibufSamples auFormatULAW8 numTracks
  minibufSize := rfl
  bytesPerSample := rfl
  format := rfl

def ofBucket (auMinibufSamples numTracks numSamples : Nat) : UlawComponent where
  auMinibufSamples
  component := createBucket auMinibufSamples numTracks numSamples
  minibufSize := rfl
  bytesPerSample := rfl
  format := rfl

variable (o : ByteOrder) (p : UlawComponent)

/-- Whatever a tick finds and reads, all its samples become native ones. -/
def Reads (K : Type) : Prop :=
  ∀ (fuel : Nat) (rc : RateConvert) (c c' : Component) (el el' : FlowElement K) (event : PortEvent),
    c.numTracks = p.component.numTracks → c.bytesPerSample = p.component.bytesPerSample →
    el.minibufChunk = minibufChunkOf p.component → (∀ w, el.raw ≠ .importWaveForm w) →
    HasRoom p.auMinibufSamples p.component el.minibuf →
    readInputTable fuel rc c { el with minibufSamples := p.auMinibufSamples } = .ok (c', el', event) →
    readInput o p.auMinibufSamples fuel rc c el = .ok (c', { el' with
      minibuf := convertAll (toNativeSample o .ulaw8) 1 2 (el'.minibufSamples * p.component.numTracks) el'.minibuf }, event)

/-- Whatever a tick has mixed, all its samples become samples of ULAW. -/
def Writes : Prop :=
  ∀ (inputs : List Mix.Input) (m : List UInt8), (∀ x ∈ inputs, x.flowEl.minibufSamples ≤ p.auMinibufSamples) →
    HasRoom p.auMinibufSamples p.component m →
    fromNativeFormat o p.component inputs m =
      .ok (convertAll (fromNativeSample o .ulaw8) 2 1 (Mix.maxSamples inputs * p.component.numTracks) m)

/-- So do all pairs of a monitor. -/
def Monitors : Prop :=
  ∀ (fuel currentSample nextSample minibufSamples n : Nat) (m : List UInt8), minibufSamples ≤ p.auMinibufSamples →
    rcm fuel currentSample nextSample minibufSamples = .ok n → HasRoom (2 * p.auMinibufSamples) p.component m →
    monitorFormat o p.component n m =
      .ok (convertAll (fromNativeSample o .ulaw8) 2 1 (2 * n * p.component.numTracks) m)

end UlawComponent

/-! ### The loops -/

section
variable {o : ByteOrder} {tracks numSamples : Nat} {m m' : List UInt8}

/-- The loops convert all samples of a buffer just when their counters get to the last of them. -/
theorem toNative_iff (hroom : numSamples * tracks * 2 ≤ m.length) :
    toNative o .ulaw8 tracks numSamples m = .ok (convertAll (toNativeSample o .ulaw8) 1 2 (numSamples * tracks) m) ↔
      tracks * numSamples < 2 ^ 15 := by
  rw [Nat.mul_comm tracks]
  have hf : InPlace.Converts (toNativeSample o .ulaw8) 1 2 := (length_converted .ulaw8).1
  rw [toNative]
  constructor
  · intro h
    by_contra hge
    exact ulawDown_ne (Nat.le_of_not_lt hge) _ h
  · intro h
    exact (ulawDown_eq h le_rfl).trans (backward_eq hf (by decide) hroom)

theorem fromNative_iff (hroom : numSamples * tracks * 2 ≤ m.length) :
    fromNative o .ulaw8 tracks numSamples m = .ok (convertAll (fromNativeSample o .ulaw8) 2 1 (numSamples * tracks) m) ↔
      tracks * numSamples < 2 ^ 15 := by
  rw [Nat.mul_comm tracks]
  have hf : InPlace.Converts (fromNativeSample o .ulaw8) 2 1 := (length_converted .ulaw8).2.1
  rw [fromNative]
  constructor
  · intro h
    by_contra hge
    exact ulawUp_ne (Nat.le_of_not_lt hge) _ h
  · intro h
    exact (ulawUp_eq h (Nat.zero_le _) (by omega)).trans (forward_eq hf (by decide) hroom)

end

/-! ### How many samples a tick has -/

section
variable {rc : RateConvert} {fuel bps want avail samples : Nat} {src : List UInt8} {c c' : Component} {el el' : FlowElement K}
  {event : PortEvent}

/-- A conversion of whole frames stays in its room. -/
theorem rateConvert_length {o : Converted} (hwant : want < 2 ^ 32) (hdvd : rc = .frames → bps ∣ want)
    (h : rateConvert rc fuel bps el src want avail = .ok o) :
    o.bytes.length ≤ want ∧ (rc = .frames → bps ∣ o.bytes.length) := by
  cases rc with
  | null =>
    refine ⟨?_, nofun⟩
    rw [rateConvert, rcNull] at h
    split at h
    · cases h
    · rename_i hsize
      cases h
      rw [List.length_map, List.length_range]
      have hle : asInt32 want ≤ want := by
        unfold asInt32
        split <;> omega
      omega
  | frames =>
    obtain ⟨k, -, hk⟩ := @exists_stopsAt el.currentSample el.nextSample _ _ avail (.inl (hdvd rfl))
    rw [rcX_unique hwant hk h]
    exact ⟨(length_frames ..).trans_le hk.room, fun _ => ⟨k, (length_frames ..).trans (Nat.mul_comm ..)⟩⟩

/-- A tick has no more samples than a chunk has frames, and leaves the minibuffer as large as it is. -/
structure Reading (chunk bps : Nat) (el el' : FlowElement K) : Prop where
  samples : el'.minibufSamples = el.minibufSamples ∨ el'.minibufSamples ≤ chunk / bps
  room : el.minibuf.length ≤ el'.minibuf.length

theorem readClient_reading (hchunk : el.minibufChunk < 2 ^ 32) (hdvd : c.bytesPerSample ∣ el.minibufChunk)
    (h : readClient fuel rc c el = .ok (c', el', event)) : Reading el.minibufChunk c.bytesPerSample el el' := by
  unfold readClient at h
  dsimp only at h
  split at h
  · cases h
    exact ⟨.inl rfl, le_rfl⟩
  · obtain ⟨o₁, ho₁, h⟩ := Exec.bind_eq_ok.1 h
    obtain ⟨hlen₁, hframes₁⟩ := rateConvert_length hchunk (fun _ => hdvd) ho₁
    obtain ⟨o₂, ho₂, h⟩ := Exec.bind_eq_ok.1 h
    have hlen₂ : o₁.bytes.length + o₂.bytes.length ≤ el.minibufChunk := by
      split at ho₂
      · rw [sub32_eq hchunk hlen₁] at ho₂
        have := (rateConvert_length (by omega) (fun hrc => Nat.dvd_sub hdvd (hframes₁ hrc)) ho₂).1
        omega
      · cases ho₂
        exact hlen₁
    cases h
    refine ⟨?_, ?_⟩
    · dsimp only
      split
      · refine .inr (Nat.div_le_div_right ?_)
        rw [List.length_append]
        exact hlen₂
      · exact .inl rfl
    · dsimp only
      rw [List.length_append, List.length_drop]
      omega

theorem bucketParms_frame (c : Component) (el : FlowElement K) : (el.bucketParms c).minibufChunk = el.minibufChunk ∧
    (el.bucketParms c).minibuf = el.minibuf ∧ (el.bucketParms c).minibufSamples = el.minibufSamples := by
  unfold FlowElement.bucketParms
  split
  · split <;> exact ⟨rfl, rfl, rfl⟩
  · split <;> exact ⟨rfl, rfl, rfl⟩
  · exact ⟨rfl, rfl, rfl⟩

theorem taken_minibufSamples (el : FlowElement K) (o : Converted) (samples : Nat) :
    (el.taken o samples).minibufSamples = samples := rfl

theorem readBucket_reading (hchunk : el.minibufChunk < 2 ^ 32) (hdvd : c.bytesPerSample ∣ el.minibufChunk)
    (h : readBucket fuel rc c el = .ok (el', event)) : Reading el.minibufChunk c.bytesPerSample el el' := by
  obtain ⟨hchunk', hminibuf, hsamples⟩ := bucketParms_frame c el
  obtain ⟨o, ho, hcases⟩ := readBucket_ok.1 h
  unfold convertFrom at ho
  obtain ⟨o', ho', hend⟩ := Exec.bind_eq_ok.1 ho
  obtain rfl : o' = o := by
    split at hend
    · exact Except.ok.inj hend
    · cases hend
  rw [hchunk'] at ho'
  have hlen := (rateConvert_length hchunk (fun _ => hdvd) ho').1
  have hroom : el.minibuf.length ≤ (copyTo (el.bucketParms c).minibuf 0 o'.bytes).length := by
    rw [hminibuf, copyTo, List.length_append, List.length_append, List.length_drop]
    omega
  rcases hcases with ⟨-, -, rfl, -⟩ | ⟨-, rfl, -⟩
  · exact ⟨.inr (Nat.div_le_div_right hlen), hroom⟩
  · exact ⟨.inl ((taken_minibufSamples ..).trans hsamples), hroom⟩

theorem readDevice_reading (chunk bps : Nat) (el : FlowElement K) : Reading chunk bps el (readDevice el).1 := by
  unfold readDevice
  split
  · split <;> exact ⟨.inl rfl, le_rfl⟩
  · exact ⟨.inl rfl, le_rfl⟩

theorem readInputTable_reading (el : FlowElement K) (hraw : ∀ w, el.raw ≠ .importWaveForm w) (hchunk : el.minibufChunk < 2 ^ 32)
    (hdvd : c.bytesPerSample ∣ el.minibufChunk) (h : readInputTable fuel rc c el = .ok (c', el', event)) :
    Reading el.minibufChunk c.bytesPerSample el el' := by
  unfold readInputTable at h
  split at h
  · exact readClient_reading hchunk hdvd h
  · rw [Except.ok.injEq, Prod.mk.injEq] at h
    have hdevice := readDevice_reading el.minibufChunk c.bytesPerSample el
    rw [h.2] at hdevice
    exact hdevice
  · obtain ⟨r, hr, h⟩ := Exec.bind_eq_ok.1 h
    cases h
    exact readBucket_reading hchunk hdvd hr
  · exact absurd ‹_› (hraw _)
  · cases h

theorem maxSamples_le {inputs : List Mix.Input} (h : ∀ x ∈ inputs, x.flowEl.minibufSamples ≤ samples) :
    Mix.maxSamples inputs ≤ samples := by
  unfold Mix.maxSamples
  have hmax : ∀ l : List Mix.Input, (∀ x ∈ l, x.flowEl.minibufSamples ≤ samples) →
      (l.map fun x => x.flowEl.minibufSamples).foldr max 0 ≤ samples := by
    intro l hl
    induction l with
    | nil => exact Nat.zero_le _
    | cons x l ih => exact max_le (hl x (by simp)) (ih fun y hy => hl y (by simp [hy]))
  exact hmax _ fun x hx => h x (List.mem_filter.1 hx).1

end

section
variable {fuel c n avail count count' : Nat}

/-- A pair takes at least one sample. -/
theorem rcmNext_le : (rcmNext c avail count).2.1 + (rcmNext c avail count).2.2 ≤ avail + count := by
  unfold rcmNext
  dsimp only
  split
  · exact le_rfl
  · split
    · dsimp only
      omega
    · dsimp only
      omega

theorem rcmLoop_le (h : rcmLoop n fuel c avail count = .ok count') : count' ≤ avail + count := by
  induction fuel generalizing c avail count with
  | zero =>
    rw [rcmLoop] at h
    split at h
    · cases h
      exact Nat.le_add_left ..
    · cases h
  | succ fuel ih =>
    rw [rcmLoop] at h
    split at h
    · cases h
      exact Nat.le_add_left ..
    · exact (ih h).trans rcmNext_le

theorem rcm_le (h : rcm fuel c n avail = .ok count) : count ≤ avail := by
  unfold rcm at h
  dsimp only at h
  split at h
  · exact (rcmLoop_le h).trans rcmNext_le
  · exact rcmLoop_le h

/-- At the rate of the server it takes just one. -/
theorem rcm_same_rate (avail : Nat) : rcm avail 0 (2 ^ 16) avail = .ok avail := by
  have hloop : ∀ avail count, rcmLoop (2 ^ 16) avail 0 avail count = .ok (avail + count) := by
    intro avail
    induction avail with
    | zero =>
      intro count
      rw [rcmLoop, if_pos rfl, Nat.zero_add]
    | succ avail ih =>
      intro count
      rw [rcmLoop, if_neg (Nat.succ_ne_zero avail)]
      have hnext : rcmNext ((0 + 2 ^ 16) % 2 ^ 32) (avail + 1) count = (0, avail, count + 1) := by
        unfold rcmNext
        simp
      dsimp only
      rw [hnext, ih, Nat.add_right_comm, Nat.add_assoc]
  exact hloop avail 0

end

/-! ### All ticks -/

namespace UlawComponent
variable {o : ByteOrder} {p : UlawComponent}

/-- A chunk of samples that are counted. -/
theorem minibufChunk_eq (h : p.component.numTracks * p.auMinibufSamples < 2 ^ 15) :
    minibufChunkOf p.component = p.component.numTracks * p.auMinibufSamples ∧
      p.component.bytesPerSample = p.component.numTracks := by
  have hsize : sizeofFormat auFormatULAW8 = 1 := rfl
  have hnative : auNativeBytesPerSample = 2 := rfl
  refine ⟨?_, by rw [p.bytesPerSample, hsize, Nat.mul_one]⟩
  rw [minibufChunkOf, p.format, if_pos hsize, p.minibufSize, hnative, Nat.mul_assoc, Nat.mul_comm p.auMinibufSamples]
  omega

/-- An import from a client who has sent nothing. -/
def waiting (K : Type) (p : UlawComponent) : FlowElement K where
  client := 0
  raw := .importClient ⟨8000, auFormatULAW8, p.component.numTracks, false, p.component.numSamples, 0, []⟩
  elementNum := 0
  isComponent := true
  minibufChunk := minibufChunkOf p.component
  minibuf := List.replicate (p.auMinibufSamples * p.component.numTracks * 2) 0

theorem reads_iff : p.Reads o K ↔ p.component.numTracks * p.auMinibufSamples < 2 ^ 15 := by
  constructor
  · intro h
    have hroom : HasRoom p.auMinibufSamples p.component (waiting K p).minibuf := by
      rw [HasRoom, waiting, List.length_replicate]
    have hread : readInputTable 0 .null { p.component with currentSize := 0 }
        { waiting K p with minibufSamples := p.auMinibufSamples } =
          .ok ({ p.component with currentSize := 0 }, { waiting K p with minibufSamples := p.auMinibufSamples }, .none) :=
      if_pos (Nat.zero_and _)
    have hconverted := h 0 .null { p.component with currentSize := 0 } _ (waiting K p) _ _ rfl rfl rfl nofun hroom hread
    unfold readInput at hconverted
    rw [hread, Exec.ok_bind] at hconverted
    obtain ⟨m, hm, hconverted⟩ := Exec.bind_eq_ok.1 hconverted
    have hbytes : m = _ := congrArg (fun r => r.2.1.minibuf) (Except.ok.inj hconverted)
    rw [hbytes] at hm
    exact (toNative_iff hroom).1 hm
  · intro h fuel rc c c' el el' event htracks hbps hchunk hraw hroom hread
    obtain ⟨hsize, hframe⟩ := minibufChunk_eq h
    rw [hsize] at hchunk
    rw [hframe] at hbps
    obtain ⟨hsamples, hlen⟩ := readInputTable_reading { el with minibufSamples := p.auMinibufSamples } hraw
      (by dsimp only; omega) ⟨p.auMinibufSamples, by rw [hbps]; exact hchunk⟩ hread
    have hle : el'.minibufSamples ≤ p.auMinibufSamples := by
      dsimp only at hsamples
      rcases hsamples with heq | hle
      · exact heq.le
      · rw [hchunk, hbps] at hle
        rcases Nat.eq_zero_or_pos p.component.numTracks with hzero | hpos
        · rw [hzero, Nat.div_zero] at hle
          omega
        · rwa [Nat.mul_div_cancel_left _ hpos] at hle
    have hfits : el'.minibufSamples * p.component.numTracks * 2 ≤ el'.minibuf.length :=
      calc el'.minibufSamples * p.component.numTracks * 2
          ≤ p.auMinibufSamples * p.component.numTracks * 2 := Nat.mul_le_mul_right 2 (Nat.mul_le_mul_right _ hle)
        _ ≤ el.minibuf.length := hroom
        _ ≤ el'.minibuf.length := hlen
    unfold readInput
    rw [hread, Exec.ok_bind]
    dsimp only
    rw [htracks, (toNative_iff hfits).2 ((Nat.mul_le_mul_left _ hle).trans_lt h), Exec.ok_bind]

/-- An input with as many samples as a chunk can have. -/
def fullInput (p : UlawComponent) : Mix.Input where
  input := ⟨0, ⟨0, 0, 0⟩, 0, 0, 0, [], []⟩
  component := p.component
  flowEl := { waiting AuFixedPoint p with state := auStateStart, minibufSamples := p.auMinibufSamples }

theorem writes_iff : p.Writes o ↔ p.component.numTracks * p.auMinibufSamples < 2 ^ 15 := by
  constructor
  · intro h
    have hroom : HasRoom p.auMinibufSamples p.component (waiting AuFixedPoint p).minibuf := by
      rw [HasRoom, waiting, List.length_replicate]
    have hmax : Mix.maxSamples [p.fullInput] = p.auMinibufSamples := Nat.max_zero _
    have hconverted := h [p.fullInput] _ (by simp [fullInput]) hroom
    rw [fromNativeFormat, hmax] at hconverted
    exact (fromNative_iff hroom).1 hconverted
  · intro h inputs m hinputs hroom
    have hle := maxSamples_le hinputs
    have hfits : Mix.maxSamples inputs * p.component.numTracks * 2 ≤ m.length :=
      (Nat.mul_le_mul_right 2 (Nat.mul_le_mul_right _ hle)).trans hroom
    exact (fromNative_iff hfits).2 ((Nat.mul_le_mul_left _ hle).trans_lt h)

/-- A pair is two samples of each track. -/
theorem monitors_iff : p.Monitors o ↔ p.component.numTracks * (2 * p.auMinibufSamples) < 2 ^ 15 := by
  constructor
  · intro h
    rcases Nat.eq_zero_or_pos p.auMinibufSamples with hzero | hpos
    · rw [hzero]
      omega
    · have hroom : HasRoom (2 * p.auMinibufSamples) p.component
          (List.replicate (2 * p.auMinibufSamples * p.component.numTracks * 2) 0) := by
        rw [HasRoom, List.length_replicate]
      have hconverted := h p.auMinibufSamples 0 (2 ^ 16) p.auMinibufSamples _ _ le_rfl (rcm_same_rate _) hroom
      rw [monitorFormat, if_neg hpos.ne'] at hconverted
      exact (fromNative_iff hroom).1 hconverted
  · intro h fuel currentSample nextSample minibufSamples n m hsamples hrcm hroom
    have hle : 2 * n ≤ 2 * p.auMinibufSamples := Nat.mul_le_mul_left 2 ((rcm_le hrcm).trans hsamples)
    have hfits : 2 * n * p.component.numTracks * 2 ≤ m.length :=
      (Nat.mul_le_mul_right 2 (Nat.mul_le_mul_right _ hle)).trans hroom
    have hconverted := (fromNative_iff (o := o) hfits).2 ((Nat.mul_le_mul_left _ hle).trans_lt h)
    unfold monitorFormat
    split
    · rename_i hn
      rw [hn]
      simp [convertAll]
    · exact hconverted

end UlawComponent

/-- The loops convert the samples they are told to, and no others, just when these are fewer than 2^15. Whatever a tick
finds in a port or a bucket, that is so if and only if the tracks times the frames of a chunk are; and for a monitor if
twice as many are. -/
theorem ulawLoops_iff (o : ByteOrder) :
    (∀ (tracks numSamples : Nat) (m : List UInt8), numSamples * tracks * 2 ≤ m.length →
      (toNative o .ulaw8 tracks numSamples m = .ok (convertAll (toNativeSample o .ulaw8) 1 2 (numSamples * tracks) m) ∧
        fromNative o .ulaw8 tracks numSamples m =
          .ok (convertAll (fromNativeSample o .ulaw8) 2 1 (numSamples * tracks) m) ↔ tracks * numSamples < 2 ^ 15)) ∧
    ∀ p : UlawComponent,
      (p.Reads o AuFixedPoint ∧ p.Writes o ↔ p.component.numTracks * p.auMinibufSamples < 2 ^ 15) ∧
      (p.Monitors o ↔ p.component.numTracks * (2 * p.auMinibufSamples) < 2 ^ 15) := by
  refine ⟨fun tracks numSamples m hroom => ?_, fun p => ⟨?_, UlawComponent.monitors_iff⟩⟩
  · rw [toNative_iff hroom, fromNative_iff hroom, and_self]
  · rw [UlawComponent.reads_iff, UlawComponent.writes_iff, and_self]

/-- From a client to a client, with as many tracks as the server says there can be. -/
def widestFlow : List (AuElement AuFixedPoint) :=
  [.importClient ⟨8000, auFormatULAW8, auMaxTracks, false, 1, 0, []⟩,
    .exportClient ⟨8000, 0, auFormatULAW8, auMaxTracks, false, 1, 1, []⟩]

/-- It is compiled, also by a server with 1024 samples in a chunk; the loops do not end with the chunk. -/
theorem widestFlow_not_converted : ¬ ∀ (o : ByteOrder) (p : UlawComponent) (st : Compiling AuFixedPoint),
    auCompileFlow (friendlyEnv p.auMinibufSamples) 2 (freshElements widestFlow) = .ok (.auSuccess, st) →
    st.comps 2 = some p.component → p.component.numTracks ≤ auMaxTracks → p.Reads o AuFixedPoint := by
  intro h
  obtain ⟨st, c, hst, hc, hmade⟩ : ∃ st c, auCompileFlow (friendlyEnv 1024) 2 (freshElements widestFlow) =
      .ok (.auSuccess, st) ∧ st.comps 2 = some c ∧
      c.minibufSize = auNativeBytesPerSample * 1024 * c.numTracks % 2 ^ 32 ∧
      c.bytesPerSample = c.numTracks * sizeofFormat auFormatULAW8 ∧ c.format = auFormatULAW8 ∧ c.numTracks = auMaxTracks :=
    ⟨_, _, rfl, rfl, rfl, rfl, rfl, rfl⟩
  obtain ⟨hsize, hbps, hformat, htracks⟩ := hmade
  have hreads := h .little ⟨1024, c, hsize, hbps, hformat⟩ st hst hc htracks.le
  rw [UlawComponent.reads_iff] at hreads
  dsimp only at hreads
  rw [htracks] at hreads
  revert hreads
  decide

end Nas.UlawLoops
