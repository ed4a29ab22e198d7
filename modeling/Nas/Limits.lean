import Nas.DataPath
import Nas.Server

/-!
# Limits

An element with `num_samples` set counts down `numBytes` (`countSamples`). `readBucket` counts what it takes from the
bucket and stops at the end of the bucket, not when the count is zero; `writeBucket` counts what it stores and stops when
a tick has more than there is room for; `readWaveForm` stops when the count is zero, and reports the samples of its last
call.

The last section says for which imports from a bucket this moves as many samples as the limit and the data allow, stops
in the tick in which they are reached and reports what that tick has made.
-/

namespace Nas
variable {K : Type}

/-! ### Conversions of whole frames -/

/-- The step of a converter. -/
def RateConvert.step (rc : RateConvert) (n : Nat) : Nat :=
  match rc with
  | .null => 2 ^ 16
  | .frames => n

section
variable {rc : RateConvert} {c : Component} {el : FlowElement K} {s want avail k fuel fuel' : Nat} {o o' : Converted}

theorem convertFrom_fuel (hle : fuel ≤ fuel') (h : convertFrom rc fuel c el s want avail = .ok o) :
    convertFrom rc fuel' c el s want avail = .ok o := by
  obtain ⟨o', ho, h⟩ := Exec.bind_eq_ok.1 h
  exact Exec.bind_eq_ok.2 ⟨o', rateConvert_fuel hle ho, h⟩

theorem convertFrom_ok (h : convertFrom rc fuel c el s want avail = .ok o) :
    rateConvert rc fuel c.bytesPerSample el (c.data.drop s) want avail = .ok o ∧
      (o.bytes ≠ [] → s + extent rc c.bytesPerSample el o ≤ c.dataSize) := by
  obtain ⟨o', ho, h⟩ := Exec.bind_eq_ok.1 h
  split at h
  · rename_i hin
    cases h
    exact ⟨ho, fun hne => hin.resolve_left hne⟩
  · cases h

/-- A conversion of `k` frames. -/
structure ConvertsFrames (rc : RateConvert) (bps : Nat) (el : FlowElement K) (want avail k : Nat) (o : Converted) : Prop where
  stops : StopsAt bps el.currentSample (rc.step el.nextSample) want avail k
  length : o.bytes.length = k * bps
  used : o.used = min (position el.currentSample (rc.step el.nextSample) k * bps) avail
  currentSample : o.currentSample = fraction el.currentSample (rc.step el.nextSample) k +
    (position el.currentSample (rc.step el.nextSample) k * bps - avail) / bps * 2 ^ 16

theorem position_one {c' : Nat} (h : c' < 2 ^ 16) (i : Nat) :
    position c' (2 ^ 16) i = i ∧ fraction c' (2 ^ 16) i = c' := by
  obtain ⟨hposition, hfraction⟩ := @phaseAt_eq c' (2 ^ 16) (by decide) i
  omega

/-- A converter with whole frames on both sides. Without rate conversion, the counts are no negative numbers, and no
skip is pending. -/
theorem exists_convertsFrames {bps : Nat} (src : List UInt8) (hpos : 0 < bps) (hwant : bps ∣ want) (havail : bps ∣ avail)
    (hlt : want < 2 ^ 32) (hnull : rc = .null → want < 2 ^ 31 ∧ avail < 2 ^ 31 ∧ el.currentSample < 2 ^ 16) :
    ∃ fuel k o, rateConvert rc fuel bps el src want avail = .ok o ∧ ConvertsFrames rc bps el want avail k o ∧
      (o.bytes ≠ [] → extent rc bps el o ≤ avail) := by
  rcases rc with - | -
  · obtain ⟨hw, ha, hphase⟩ := hnull rfl
    obtain ⟨k, hk⟩ : bps ∣ min want avail := by
      rcases Nat.le_total want avail with h | h
      · rwa [Nat.min_eq_left h]
      · rwa [Nat.min_eq_right h]
    rw [Nat.mul_comm] at hk
    have hone := position_one hphase
    refine ⟨0, k, _, rcNull_eq hw ha, ⟨⟨fun i hi => ?_, ?_, ?_⟩, ?_, ?_, ?_⟩, fun _ => ?_⟩
    · have := Nat.mul_lt_mul_of_pos_right hi hpos
      rw [RateConvert.step, (hone i).1]
      omega
    · omega
    · rw [RateConvert.step, (hone k).1]
      omega
    · rw [List.length_map, List.length_range, hk]
    · rw [RateConvert.step, (hone k).1]
      dsimp only
      omega
    · rw [RateConvert.step, (hone k).1, (hone k).2, Nat.sub_eq_zero_of_le (by omega), Nat.zero_div, Nat.zero_mul,
        Nat.add_zero]
    · unfold extent
      dsimp only
      rw [List.length_map, List.length_range]
      omega
  · obtain ⟨k, -, hk⟩ := @exists_stopsAt el.currentSample el.nextSample bps want avail (.inl hwant)
    refine ⟨k, k, _, rcX_eq hlt hk (Nat.le_refl k), ⟨hk, length_frames .., rfl, rfl⟩, fun hne => ?_⟩
    have hk0 : k ≠ 0 := by
      rintro rfl
      exact hne rfl
    have hlast := (hk.before (k - 1) (by omega)).2
    unfold extent
    dsimp only [converted]
    rw [length_frames, Nat.mul_div_cancel k hpos]
    obtain ⟨m, rfl⟩ := havail
    rw [Nat.mul_comm bps m] at hlast ⊢
    exact Nat.mul_le_mul_right _ (Nat.lt_of_mul_lt_mul_right hlast)

/-- Without rate conversion there is nothing to skip. -/
theorem ConvertsFrames.null {bps : Nat} (h : ConvertsFrames .null bps el want avail k o) (hphase : el.currentSample < 2 ^ 16)
    (havail : bps ∣ avail) : o.currentSample = el.currentSample := by
  have hone := position_one hphase
  have hskip : k * bps - avail = 0 := by
    rcases Nat.eq_zero_or_pos k with rfl | hk
    · omega
    have hlast := (h.stops.before (k - 1) (by omega)).2
    rw [RateConvert.step, (hone _).1] at hlast
    obtain ⟨m, rfl⟩ := havail
    rw [Nat.mul_comm bps m] at hlast ⊢
    have := Nat.mul_le_mul_right bps (show k ≤ m from by have := Nat.lt_of_mul_lt_mul_right hlast; omega)
    omega
  rw [h.currentSample, RateConvert.step, (hone k).1, (hone k).2, hskip, Nat.zero_div, Nat.zero_mul, Nat.add_zero]

end

/-! ### From a bucket -/

/-- A compiled import from a bucket with a limit. `parmsChanged` may still be set when it is started. -/
structure BucketImport (K : Type) where
  c : Component
  el : FlowElement K
  parms : AuElementImportBucket
  rc : RateConvert
  auMinibufSamples : Nat
  raw : el.raw = .importBucket parms
  samples_pos : 0 < parms.numSamples
  data_length : c.data.length = c.dataSize
  dataSize_lt : c.dataSize < 2 ^ 32
  minibufChunk : el.minibufChunk = auMinibufSamples * c.bytesPerSample
  minibuf_pos : 0 < auMinibufSamples
  chunk_lt : el.minibufChunk < 2 ^ 32
  nextSample_lt : el.nextSample < 2 ^ 32

/-- The element behind a conversion from a bucket. -/
def FlowElement.taken (el : FlowElement K) (o : Converted) (samples : Nat) : FlowElement K :=
  { el with
    currentSample := o.currentSample
    minibuf := copyTo el.minibuf 0 o.bytes
    read := el.read + o.used
    numBytes := sub32 el.numBytes o.used
    minibufSamples := samples }

@[simp] theorem FlowElement.taken_numBytes (el : FlowElement K) (o : Converted) (samples : Nat) :
    (el.taken o samples).numBytes = sub32 el.numBytes o.used := rfl

@[simp] theorem FlowElement.taken_read (el : FlowElement K) (o : Converted) (samples : Nat) :
    (el.taken o samples).read = el.read + o.used := rfl

/-- What stays as it was, and the phase. The count is a variable here: the kernel would unfold `sub32`. -/
theorem FlowElement.transfer_frame (el : FlowElement K) (phase read num samples : Nat) (minibuf : List UInt8) :
    let el' : FlowElement K := { el with
      currentSample := phase, minibuf := minibuf, read := read, numBytes := num, minibufSamples := samples }
    el'.raw = el.raw ∧ el'.parmsChanged = el.parmsChanged ∧ el'.countSamples = el.countSamples ∧
      el'.minibufChunk = el.minibufChunk ∧ el'.nextSample = el.nextSample ∧ el'.currentSample = phase :=
  ⟨rfl, rfl, rfl, rfl, rfl, rfl⟩

theorem FlowElement.taken_frame (el : FlowElement K) (o : Converted) (samples : Nat) :
    (el.taken o samples).raw = el.raw ∧ (el.taken o samples).parmsChanged = el.parmsChanged ∧
      (el.taken o samples).countSamples = el.countSamples ∧ (el.taken o samples).minibufChunk = el.minibufChunk ∧
      (el.taken o samples).nextSample = el.nextSample ∧ (el.taken o samples).currentSample = o.currentSample := by
  unfold taken
  exact el.transfer_frame ..

theorem readBucket_ok {fuel : Nat} {rc : RateConvert} {c : Component} {el el' : FlowElement K} {event : PortEvent} :
    readBucket fuel rc c el = .ok (el', event) ↔ ∃ o,
      convertFrom rc fuel c (el.bucketParms c) (el.bucketParms c).read (el.bucketParms c).minibufChunk
        ((el.bucketParms c).available c) = .ok o ∧
      ((el.bucketParms c).read + o.used = c.dataSize ∧ 0 < c.bytesPerSample ∧
          el' = (el.bucketParms c).taken o (o.bytes.length / c.bytesPerSample) ∧
          event = .change auStateStop auReasonEOF ∨
        (el.bucketParms c).read + o.used ≠ c.dataSize ∧
          el' = (el.bucketParms c).taken o (el.bucketParms c).minibufSamples ∧ event = .none) := by
  unfold readBucket
  constructor
  · intro he
    obtain ⟨o, ho, he⟩ := Exec.bind_eq_ok.1 he
    refine ⟨o, ho, ?_⟩
    dsimp only at he
    split at he
    · rename_i hend
      obtain ⟨samples, hsamples, he⟩ := Exec.bind_eq_ok.1 he
      unfold divide at hsamples
      split at hsamples
      · cases hsamples
      · rename_i hne
        cases hsamples
        cases he
        exact .inl ⟨hend, Nat.pos_of_ne_zero hne, rfl, rfl⟩
    · rename_i hend
      cases he
      exact .inr ⟨hend, rfl, rfl⟩
  · rintro ⟨o, ho, ⟨hend, hbps, rfl, rfl⟩ | ⟨hend, rfl, rfl⟩⟩
    · refine Exec.bind_eq_ok.2 ⟨o, ho, (if_pos hend).trans (Exec.bind_eq_ok.2 ⟨_, if_neg hbps.ne', rfl⟩)⟩
    · exact Exec.bind_eq_ok.2 ⟨o, ho, if_neg hend⟩

/-- An element in a run of ticks: whether it has stopped with `AuReasonEOF`. -/
structure Limited (K : Type) where
  el : FlowElement K
  stopped : Bool := false

/-- The states after so many ticks, of which each has its own fuel. -/
inductive AfterTicks {S : Type} (tick : Nat → Nat → S → Exec S) (start : S) : Nat → S → Prop
  | start : AfterTicks tick start 0 start
  | tick {t fuel : Nat} {s s' : S} : AfterTicks tick start t s → tick t fuel s = .ok s' → AfterTicks tick start (t + 1) s'

theorem AfterTicks.before {S : Type} {tick : Nat → Nat → S → Exec S} {start s' : S} {t : Nat}
    (h : AfterTicks tick start (t + 1) s') : ∃ s fuel, AfterTicks tick start t s ∧ tick t fuel s = .ok s' := by
  cases h with
  | tick hafter hstep => exact ⟨_, _, hafter, hstep⟩

/-- There was a first tick. -/
theorem AfterTicks.first {S : Type} {tick : Nat → Nat → S → Exec S} {start s' : S} {t : Nat}
    (h : AfterTicks tick start (t + 1) s') : ∃ fuel s, tick 0 fuel start = .ok s := by
  induction t generalizing s' with
  | zero =>
    obtain ⟨s, fuel, hafter, hstep⟩ := h.before
    cases hafter
    exact ⟨fuel, s', hstep⟩
  | succ t ih =>
    obtain ⟨s, -, hafter, -⟩ := h.before
    exact ih hafter

/-- Ticks that do not depend on the fuel have one result. -/
theorem AfterTicks.unique {S : Type} {tick : Nat → Nat → S → Exec S} {start s s' : S} {t : Nat}
    (h : AfterTicks tick start t s) (h' : AfterTicks tick start t s')
    (hfuel : ∀ t fuel fuel' s s', fuel ≤ fuel' → tick t fuel s = .ok s' → tick t fuel' s = .ok s') : s = s' := by
  induction h generalizing s' with
  | start =>
    cases h'
    rfl
  | @tick t fuel₁ s₁ s₂ _ hstep ih =>
    obtain ⟨s₃, fuel₂, h₃, hstep'⟩ := h'.before
    obtain rfl := ih h₃
    have heq := (hfuel _ _ _ _ _ (Nat.le_max_left fuel₁ fuel₂) hstep).symm.trans
      (hfuel _ _ _ _ _ (Nat.le_max_right fuel₁ fuel₂) hstep')
    cases heq
    rfl

namespace BucketImport
variable (p : BucketImport K)

/-- The element when it is started (`AuChangeElementState`). -/
def started : FlowElement K :=
  (p.el.rewind.count p.parms.numSamples p.c.bytesPerSample).readAt (p.parms.offset * p.c.bytesPerSample % 2 ^ 32)

/-- `readInput`, with an empty minibuffer: what is in it afterwards was made in the tick. -/
def tick (fuel : Nat) (s : Limited K) : Exec (Limited K) :=
  if s.stopped then .ok s
  else do
    let (el, event) ← readBucket fuel p.rc p.c { s.el with minibufSamples := p.auMinibufSamples, minibuf := [] }
    .ok ⟨el, event = .change auStateStop auReasonEOF⟩

/-- The states after so many ticks. -/
abbrev After : Nat → Limited K → Prop := AfterTicks (fun _ => p.tick) ⟨p.started, false⟩

/-- The samples that the bucket has from the offset on. -/
def samplesThere : Nat := (p.c.dataSize - p.parms.offset * p.c.bytesPerSample) / p.c.bytesPerSample

/-- The bytes to be moved. -/
def total : Nat := min p.parms.numSamples p.samplesThere * p.c.bytesPerSample

/-- The element stops in the first tick in which it has moved what is to be moved, and reports what that tick has made.
No tick has faulted. -/
def Exact : Prop :=
  ∃ t s, 0 < t ∧ p.After t s ∧ s.stopped ∧ s.el.read = p.started.read + p.total ∧
    s.el.minibufSamples * p.c.bytesPerSample = s.el.minibuf.length ∧
    ∀ i s', 0 < i → i < t → p.After i s' → ¬ s'.stopped ∧ s'.el.read < p.started.read + p.total

/-- The bucket ends with the last of these samples, and the element gets there. -/
def Ends : Prop :=
  0 < p.c.bytesPerSample ∧ p.started.read + p.total = p.c.dataSize ∧ p.total ≤ p.started.numBytes ∧
    match p.rc with
    | .null => p.el.minibufChunk < 2 ^ 31 ∧ p.total < 2 ^ 31
    | .frames => p.total = 0 ∨ 0 < p.el.nextSample

instance : Decidable p.Ends := by
  unfold Ends
  split <;> infer_instance

/-! ### One tick -/

section
variable {p} {s s' : Limited K} {moved t fuel fuel' : Nat}

/-- The element as `readBucket` has it behind its first branch. -/
def ready (p : BucketImport K) (s : Limited K) : FlowElement K :=
  ({ s.el with minibufSamples := p.auMinibufSamples, minibuf := [] } : FlowElement K).bucketParms p.c

/-- It has moved so much. -/
structure At (p : BucketImport K) (moved : Nat) (s : Limited K) : Prop where
  going : s.stopped = false
  position : s.el.read = p.started.read + moved
  read : (p.ready s).read = p.started.read + moved
  numBytes : (p.ready s).numBytes + moved = p.started.numBytes
  countSamples : (p.ready s).countSamples = true
  minibufChunk : (p.ready s).minibufChunk = p.el.minibufChunk
  nextSample : (p.ready s).nextSample = p.el.nextSample
  raw : (p.ready s).raw = .importBucket p.parms
  parmsChanged : (p.ready s).parmsChanged = false
  minibuf : (p.ready s).minibuf = []

theorem started_eq (p : BucketImport K) : p.started = { p.el with
    countSamples := true
    numBytes := p.parms.numSamples * p.c.bytesPerSample % 2 ^ 32
    currentSample := 0
    read := p.parms.offset * p.c.bytesPerSample % 2 ^ 32 } := by
  have hpos := p.samples_pos
  unfold started FlowElement.count
  rw [if_neg (by unfold auUnlimitedSamples; omega)]
  rfl

theorem started_numBytes_lt (p : BucketImport K) : p.started.numBytes < 2 ^ 32 := by
  have hnum := congrArg FlowElement.numBytes p.started_eq
  dsimp only at hnum
  omega

theorem at_start (p : BucketImport K) : p.At 0 ⟨p.started, false⟩ ∧ (p.ready ⟨p.started, false⟩).currentSample = 0 := by
  have heq := p.started_eq
  have hcount : p.started.countSamples = true := congrArg FlowElement.countSamples heq
  have hnum : p.started.numBytes = p.parms.numSamples * p.c.bytesPerSample % 2 ^ 32 := congrArg FlowElement.numBytes heq
  have hraw : p.started.raw = .importBucket p.parms := (congrArg FlowElement.raw heq).trans p.raw
  have hread : p.started.read = p.parms.offset * p.c.bytesPerSample % 2 ^ 32 := congrArg FlowElement.read heq
  have hfixed : p.started.minibufChunk = p.el.minibufChunk ∧ p.started.nextSample = p.el.nextSample ∧
      p.started.currentSample = 0 :=
    ⟨by rw [heq], by rw [heq], by rw [heq]⟩
  by_cases hparms : p.started.parmsChanged
  · have hready : p.ready ⟨p.started, false⟩ =
        { p.started with minibufSamples := p.auMinibufSamples, minibuf := [], parmsChanged := false } := by
      unfold ready FlowElement.bucketParms
      dsimp only
      rw [hraw]
      dsimp only
      rw [if_pos hparms, if_pos hcount, ← hread, ← hnum]
    refine ⟨⟨rfl, rfl, ?_, ?_, ?_, ?_, ?_, ?_, ?_, ?_⟩, ?_⟩ <;> rw [hready]
    · rfl
    · rfl
    · exact hcount
    · exact hfixed.1
    · exact hfixed.2.1
    · exact hraw
    · exact hfixed.2.2
  · have hready : p.ready ⟨p.started, false⟩ = { p.started with minibufSamples := p.auMinibufSamples, minibuf := [] } := by
      unfold ready FlowElement.bucketParms
      dsimp only
      rw [hraw]
      dsimp only
      rw [if_neg hparms]
    refine ⟨⟨rfl, rfl, ?_, ?_, ?_, ?_, ?_, ?_, ?_, ?_⟩, ?_⟩ <;> rw [hready]
    · rfl
    · rfl
    · exact hcount
    · exact hfixed.1
    · exact hfixed.2.1
    · exact hraw
    · exact Bool.eq_false_iff.2 hparms
    · exact hfixed.2.2

theorem ready_eq (hraw : s.el.raw = .importBucket p.parms) (hparms : s.el.parmsChanged = false) :
    p.ready s = { s.el with minibufSamples := p.auMinibufSamples, minibuf := [] } := by
  unfold ready FlowElement.bucketParms
  dsimp only
  rw [hraw]
  dsimp only
  rw [if_neg (by rw [hparms]; exact Bool.false_ne_true)]

/-- The element after a conversion. -/
def converts (p : BucketImport K) (s : Limited K) (o : Converted) : Limited K where
  el := (p.ready s).taken o (if (p.ready s).read + o.used = p.c.dataSize then o.bytes.length / p.c.bytesPerSample
    else (p.ready s).minibufSamples)
  stopped := (p.ready s).read + o.used = p.c.dataSize

/-- A tick is a conversion; where it ends with the bucket a frame has bytes. -/
theorem At.tick_iff (h : p.At moved s) : p.tick fuel s = .ok s' ↔ ∃ o,
    convertFrom p.rc fuel p.c (p.ready s) (p.ready s).read (p.ready s).minibufChunk ((p.ready s).available p.c) = .ok o ∧
      ((p.ready s).read + o.used = p.c.dataSize → 0 < p.c.bytesPerSample) ∧ s' = p.converts s o := by
  unfold tick
  rw [h.going, if_neg Bool.false_ne_true]
  constructor
  · intro he
    obtain ⟨⟨el, event⟩, he, hs'⟩ := Exec.bind_eq_ok.1 he
    obtain ⟨o, ho, ⟨hend, hbps, rfl, rfl⟩ | ⟨hend, rfl, rfl⟩⟩ := readBucket_ok.1 he
    · cases hs'
      refine ⟨o, ho, fun _ => hbps, ?_⟩
      unfold converts
      rw [if_pos (show (p.ready s).read + o.used = p.c.dataSize from hend),
        decide_eq_true (show (p.ready s).read + o.used = p.c.dataSize from hend)]
      rfl
    · cases hs'
      refine ⟨o, ho, fun h => absurd h hend, ?_⟩
      unfold converts
      rw [if_neg (show ¬ (p.ready s).read + o.used = p.c.dataSize from hend),
        decide_eq_false (show ¬ (p.ready s).read + o.used = p.c.dataSize from hend)]
      rfl
  · rintro ⟨o, ho, hbps, rfl⟩
    unfold converts
    by_cases hend : (p.ready s).read + o.used = p.c.dataSize
    · rw [if_pos hend, decide_eq_true hend]
      exact Exec.bind_eq_ok.2 ⟨_, readBucket_ok.2 ⟨o, ho, .inl ⟨hend, hbps hend, rfl, rfl⟩⟩, rfl⟩
    · rw [if_neg hend, decide_eq_false hend]
      exact Exec.bind_eq_ok.2 ⟨_, readBucket_ok.2 ⟨o, ho, .inr ⟨hend, rfl, rfl⟩⟩, rfl⟩

theorem at_of (hgoing : s.stopped = false) (hraw : s.el.raw = .importBucket p.parms)
    (hparms : s.el.parmsChanged = false) (hread : s.el.read = p.started.read + moved)
    (hnum : s.el.numBytes + moved = p.started.numBytes) (hcount : s.el.countSamples = true)
    (hchunk : s.el.minibufChunk = p.el.minibufChunk) (hnext : s.el.nextSample = p.el.nextSample) :
    p.At moved s ∧ (p.ready s).currentSample = s.el.currentSample := by
  have hready := ready_eq hraw hparms
  refine ⟨⟨hgoing, hread, ?_, ?_, ?_, ?_, ?_, ?_, ?_, ?_⟩, ?_⟩ <;> rw [hready]
  · exact hread
  · exact hnum
  · exact hcount
  · exact hchunk
  · exact hnext
  · exact hraw
  · exact hparms

theorem At.converts {o : Converted} (h : p.At moved s) (hused : o.used ≤ (p.ready s).numBytes)
    (hgoing : (p.ready s).read + o.used ≠ p.c.dataSize) :
    p.At (moved + o.used) (p.converts s o) ∧ (p.ready (p.converts s o)).currentSample = o.currentSample := by
  have hstart := p.started_numBytes_lt
  have hnumBytes := h.numBytes
  have hel : (p.converts s o).el = (p.ready s).taken o
      (if (p.ready s).read + o.used = p.c.dataSize then o.bytes.length / p.c.bytesPerSample
        else (p.ready s).minibufSamples) := rfl
  obtain ⟨hraw, hparms, hcount, hchunk, hnext, hphase⟩ := (p.ready s).taken_frame o
    (if (p.ready s).read + o.used = p.c.dataSize then o.bytes.length / p.c.bytesPerSample
      else (p.ready s).minibufSamples)
  rw [← hel] at hraw hparms hcount hchunk hnext hphase
  rw [← hphase]
  refine at_of (decide_eq_false hgoing) (hraw.trans h.raw) (hparms.trans h.parmsChanged) ?_ ?_
    (hcount.trans h.countSamples) (hchunk.trans h.minibufChunk) (hnext.trans h.nextSample)
  · rw [hel, FlowElement.taken_read, h.read, Nat.add_assoc]
  · rw [hel, FlowElement.taken_numBytes, sub32_eq (by omega) hused]
    omega

theorem At.available (h : p.At moved s) :
    (p.ready s).available p.c = min (p.c.left (p.started.read + moved)) (p.started.numBytes - moved) := by
  have hnumBytes := h.numBytes
  unfold FlowElement.available
  rw [if_pos h.countSamples, h.read]
  congr 1
  omega

theorem tick_fuel (hle : fuel ≤ fuel') (h : p.tick fuel s = .ok s') : p.tick fuel' s = .ok s' := by
  unfold tick at h ⊢
  split at h
  · exact (if_pos ‹_›).trans h
  · refine (if_neg ‹_›).trans ?_
    obtain ⟨⟨el, event⟩, he, hs'⟩ := Exec.bind_eq_ok.1 h
    obtain ⟨o, ho, hrest⟩ := readBucket_ok.1 he
    exact Exec.bind_eq_ok.2 ⟨_, readBucket_ok.2 ⟨o, convertFrom_fuel hle ho, hrest⟩, hs'⟩

theorem tick_stopped (h : s.stopped = true) (htick : p.tick fuel s = .ok s') : s' = s := by
  unfold tick at htick
  rw [if_pos h] at htick
  cases htick
  rfl

theorem After.unique (h : p.After t s) (h' : p.After t s') : s = s' :=
  AfterTicks.unique h h' fun _ _ _ _ _ hle => tick_fuel hle

/-- A tick from there uses no more than there is. -/
theorem At.tick_spec (h : p.At moved s) (htick : p.tick fuel s = .ok s') : ∃ o,
    rateConvert p.rc fuel p.c.bytesPerSample (p.ready s) (p.c.data.drop (p.ready s).read) p.el.minibufChunk
        ((p.ready s).available p.c) = .ok o ∧
      o.used ≤ (p.ready s).available p.c ∧ ((p.ready s).read + o.used = p.c.dataSize → 0 < p.c.bytesPerSample) ∧
      s' = p.converts s o := by
  obtain ⟨o, ho, hbps, rfl⟩ := h.tick_iff.1 htick
  have hconvert := (convertFrom_ok ho).1
  rw [h.minibufChunk] at hconvert
  have hlt : (p.ready s).available p.c < 2 ^ 32 := by
    have := Routine.left_lt p.c (p.started.read + moved)
    rw [h.available]
    omega
  exact ⟨o, hconvert, (rateConvert_spec p.chunk_lt hlt hconvert).used_le, hbps, rfl⟩

theorem available_le_numBytes (el : FlowElement K) (c : Component) (h : el.countSamples = true) :
    el.available c ≤ el.numBytes := by
  unfold FlowElement.available
  rw [if_pos h]
  exact Nat.min_le_right ..

/-- The states of a run: on the way, or stopped at the end of the bucket. -/
theorem After.cases (h : p.After t s) : (∃ moved, p.At moved s) ∨
    s.stopped ∧ 0 < p.c.bytesPerSample ∧ s.el.read = p.c.dataSize ∧ s.el.read ≤ p.started.read + p.started.numBytes := by
  induction h with
  | start => exact .inl ⟨0, p.at_start.1⟩
  | @tick t fuel s s' _ hstep ih =>
    rcases ih with ⟨moved, hat⟩ | ⟨hstopped, hend⟩
    · obtain ⟨o, ho, hused, hbps, rfl⟩ := hat.tick_spec hstep
      have hnum := available_le_numBytes (p.ready s) p.c hat.countSamples
      have hnumBytes := hat.numBytes
      by_cases hend : (p.ready s).read + o.used = p.c.dataSize
      · refine .inr ⟨decide_eq_true hend, hbps hend, hend, ?_⟩
        have hread := hat.read
        calc
          (p.converts s o).el.read = (p.ready s).read + o.used := rfl
          _ ≤ p.started.read + p.started.numBytes := by omega
      · exact .inl ⟨_, (hat.converts (hused.trans hnum) hend).1⟩
    · obtain rfl := tick_stopped hstopped hstep
      exact .inr ⟨hstopped, hend⟩

/-- A converter that takes no step stays where it is. -/
theorem After.stands (h : p.After t s) (hrc : p.rc = .frames) (hnext : p.el.nextSample = 0) :
    s.el.read = p.started.read ∧ (s.stopped = false → (p.ready s).currentSample = 0) := by
  induction h with
  | start => exact ⟨rfl, fun _ => p.at_start.2⟩
  | @tick t fuel s s' hafter hstep ih =>
    obtain ⟨hread, hphase⟩ := ih
    rcases After.cases hafter with ⟨moved, hat⟩ | ⟨hstopped, -⟩
    · obtain ⟨o, ho, hused, -, rfl⟩ := hat.tick_spec hstep
      rw [hrc] at ho
      have hzero : ∀ k, position 0 0 k = 0 ∧ fraction 0 0 k = 0 := fun k => by
        obtain ⟨hposition, hfraction⟩ := @phaseAt_eq 0 0 (by decide) k
        omega
      obtain ⟨k, -, hk⟩ := @exists_stopsAt (p.ready s).currentSample (p.ready s).nextSample p.c.bytesPerSample
        p.el.minibufChunk ((p.ready s).available p.c) (.inl ⟨p.auMinibufSamples, by rw [p.minibufChunk, Nat.mul_comm]⟩)
      obtain rfl := rcX_unique p.chunk_lt hk ho
      have hused : (Nas.converted (p.c.data.drop (p.ready s).read) p.c.bytesPerSample (p.ready s).currentSample
          (p.ready s).nextSample k ((p.ready s).available p.c)).used = 0 := by
        rw [converted, hphase hat.going, hat.nextSample, hnext, (hzero k).1, Nat.zero_mul, Nat.zero_min]
      have hcurrent : (Nas.converted (p.c.data.drop (p.ready s).read) p.c.bytesPerSample (p.ready s).currentSample
          (p.ready s).nextSample k ((p.ready s).available p.c)).currentSample = 0 := by
        rw [converted, hphase hat.going, hat.nextSample, hnext, (hzero k).1, (hzero k).2, Nat.zero_mul, Nat.zero_sub,
          Nat.zero_div, Nat.zero_mul]
      generalize Nas.converted _ _ _ _ _ _ = o at *
      refine ⟨?_, fun hgoing => ?_⟩
      · have hsame := hat.position.symm.trans hread
        calc
          (p.converts s o).el.read = (p.ready s).read + o.used := rfl
          _ = p.started.read := by rw [hat.read, hused]; omega
      · have hnum := available_le_numBytes (p.ready s) p.c hat.countSamples
        exact ((hat.converts (by omega) (of_decide_eq_false hgoing)).2).trans hcurrent
    · obtain rfl := tick_stopped hstopped hstep
      exact ⟨hread, hphase⟩

theorem total_lt (hstart : p.started.read + p.total = p.c.dataSize) : p.total < 2 ^ 32 := by
  have := p.dataSize_lt
  omega

/-- The end is reached only if the bucket ends there. -/
theorem Exact.ends (h : p.Exact) : p.Ends := by
  obtain ⟨t, s, hpos, hafter, hstopped, hread, -, hbefore⟩ := h
  obtain ⟨moved, hat⟩ | ⟨-, hbps, hend, hle⟩ := hafter.cases
  · rw [hat.going] at hstopped
    cases hstopped
  rw [hread] at hend hle
  refine ⟨hbps, hend, by omega, ?_⟩
  rcases hrc : p.rc with - | -
  · obtain ⟨t, rfl⟩ := Nat.exists_eq_succ_of_ne_zero hpos.ne'
    obtain ⟨fuel, s', htick⟩ := hafter.first
    obtain ⟨hat, -⟩ := p.at_start
    obtain ⟨o, ho, -, -, -⟩ := hat.tick_spec htick
    have hnum := hat.numBytes
    have hdata := p.dataSize_lt
    have havailable : (p.ready ⟨p.started, false⟩).available p.c = p.total := by
      rw [hat.available]
      unfold Component.left
      omega
    rw [hrc, havailable] at ho
    exact rcNull_ok p.chunk_lt (total_lt hend) ho
  · rcases Nat.eq_zero_or_pos p.el.nextSample with hnext | hnext
    · have := (hafter.stands hrc hnext).1
      exact .inl (by omega)
    · exact .inr hnext

/-- The samples after so many ticks. -/
def position (p : BucketImport K) (i : Nat) : Nat := Nas.position 0 (p.rc.step p.el.nextSample) (i * p.auMinibufSamples)

theorem Ends.bps_pos (h : p.Ends) : 0 < p.c.bytesPerSample := h.1

/-- What a tick has when the element has moved whole frames. -/
theorem Ends.available (h : p.Ends) (hat : p.At moved s) (hle : moved ≤ p.total) :
    (p.ready s).available p.c = p.total - moved := by
  obtain ⟨-, hend, hnum, -⟩ := h
  have hdata := p.dataSize_lt
  rw [hat.available]
  unfold Component.left
  omega

/-- A tick goes from one position to the next, or to the end. -/
theorem Ends.tick {i : Nat} (h : p.Ends) (hat : p.At (p.position i * p.c.bytesPerSample) s)
    (hle : p.position i * p.c.bytesPerSample ≤ p.total)
    (hphase : (p.ready s).currentSample = fraction 0 (p.rc.step p.el.nextSample) (i * p.auMinibufSamples)) :
    ∃ fuel o, p.tick fuel s = .ok (p.converts s o) ∧ p.c.bytesPerSample ∣ o.bytes.length ∧
      (p.position (i + 1) * p.c.bytesPerSample < p.total →
        p.position i * p.c.bytesPerSample + o.used = p.position (i + 1) * p.c.bytesPerSample ∧
          o.currentSample = fraction 0 (p.rc.step p.el.nextSample) ((i + 1) * p.auMinibufSamples)) ∧
      (p.total ≤ p.position (i + 1) * p.c.bytesPerSample → p.position i * p.c.bytesPerSample + o.used = p.total) := by
  have hbps := h.bps_pos
  have hend := h.2.1
  have havailable := h.available hat hle
  have hwant : p.c.bytesPerSample ∣ p.el.minibufChunk := ⟨p.auMinibufSamples, by rw [p.minibufChunk, Nat.mul_comm]⟩
  have hdvd : p.c.bytesPerSample ∣ (p.ready s).available p.c := by
    rw [havailable]
    exact Nat.dvd_sub (Nat.dvd_mul_left ..) (Nat.dvd_mul_left ..)
  have hfraction := fraction_lt 0 (p.rc.step p.el.nextSample) (i * p.auMinibufSamples)
  have hnull : p.rc = .null → p.el.minibufChunk < 2 ^ 31 ∧ (p.ready s).available p.c < 2 ^ 31 ∧
      (p.ready s).currentSample < 2 ^ 16 := by
    intro hrc
    have hnull := h.2.2.2
    rw [hrc] at hnull
    exact ⟨hnull.1, by omega, by omega⟩
  obtain ⟨fuel, k, o, ho, hconverts, hextent⟩ := exists_convertsFrames (p.c.data.drop (p.ready s).read) hbps hwant hdvd
    p.chunk_lt hnull
  -- where the frames of this tick are among those of the run
  have hrun := phaseAt_add (p.position i)
    (show Nas.position 0 (p.rc.step p.el.nextSample) (i * p.auMinibufSamples) =
      p.position i + (p.ready s).currentSample / 2 ^ 16 by rw [hphase]; unfold BucketImport.position; omega) (by omega)
  have hnext : p.position (i + 1) = p.position i +
      Nas.position (p.ready s).currentSample (p.rc.step p.el.nextSample) p.auMinibufSamples := by
    rw [← (hrun p.auMinibufSamples).1, ← Nat.succ_mul]
    rfl
  have hstops := hconverts.stops
  have hused := hconverts.used
  rw [hat.nextSample, havailable] at hstops hused
  rw [p.minibufChunk] at hstops
  refine ⟨fuel, o, ?_, ⟨k, by rw [hconverts.length, Nat.mul_comm]⟩, fun hlt => ?_, fun hge => ?_⟩
  · refine hat.tick_iff.2 ⟨o, ?_, fun _ => hbps, rfl⟩
    rw [hat.minibufChunk]
    refine Exec.bind_eq_ok.2 ⟨o, ho, if_pos ?_⟩
    rcases Classical.em (o.bytes = []) with hnil | hne
    · exact .inl hnil
    · have := hextent hne
      have hread := hat.read
      exact .inr (by omega)
  · rw [hnext, Nat.add_mul] at hlt ⊢
    have hmax : StopsAt p.c.bytesPerSample (p.ready s).currentSample (p.rc.step p.el.nextSample)
        (p.auMinibufSamples * p.c.bytesPerSample) (p.total - p.position i * p.c.bytesPerSample) p.auMinibufSamples := by
      refine ⟨fun j hj => ⟨Nat.mul_lt_mul_of_pos_right hj hbps, ?_⟩, Nat.le_refl _, .inl rfl⟩
      have := Nat.mul_le_mul_right p.c.bytesPerSample
        (position_mono (c := (p.ready s).currentSample) (n := p.rc.step p.el.nextSample) hj.le)
      omega
    obtain rfl := hstops.unique hmax
    refine ⟨by omega, ?_⟩
    have hcurrent := hconverts.currentSample
    rw [hat.nextSample, havailable, Nat.sub_eq_zero_of_le (by omega), Nat.zero_div, Nat.zero_mul, Nat.add_zero] at hcurrent
    rw [hcurrent, Nat.succ_mul, (hrun _).2]
  · rw [hnext, Nat.add_mul] at hge
    have hall : p.total - p.position i * p.c.bytesPerSample ≤
        Nas.position (p.ready s).currentSample (p.rc.step p.el.nextSample) k * p.c.bytesPerSample := by
      rcases hstops.stop with hstop | hstop
      · obtain rfl := Nat.eq_of_mul_eq_mul_right hbps hstop
        omega
      · exact hstop
    omega

theorem position_le {i j : Nat} (h : i ≤ j) : p.position i ≤ p.position j :=
  position_mono (Nat.mul_le_mul_right _ h)

/-- Some tick reaches the end. -/
theorem Ends.exists_last (h : p.Ends) : ∃ t, p.total ≤ p.position (t + 1) * p.c.bytesPerSample := by
  rcases Nat.eq_zero_or_pos p.total with hzero | hpos
  · exact ⟨0, by omega⟩
  have hstep : 0 < p.rc.step p.el.nextSample ∧ p.rc.step p.el.nextSample < 2 ^ 32 := by
    have hnull := h.2.2.2
    rcases hrc : p.rc with - | -
    · exact ⟨Nat.two_pow_pos 16, Nat.pow_lt_pow_right (by decide) (by decide)⟩
    · rw [hrc] at hnull
      have := p.nextSample_lt
      refine ⟨hnull.resolve_left (by omega), this⟩
  obtain ⟨k, hk⟩ := exists_le_position (c := 0) hstep.1 hstep.2 (min p.parms.numSamples p.samplesThere)
  refine ⟨k, Nat.mul_le_mul_right _ (hk.trans (position_mono ?_))⟩
  have := Nat.le_mul_of_pos_right (k + 1) p.minibuf_pos
  omega

/-- The element on the way. -/
theorem Ends.reach (h : p.Ends) {t i : Nat}
    (hbefore : ∀ j < t, ¬ p.total ≤ p.position (j + 1) * p.c.bytesPerSample) (hi : i ≤ t) :
    ∃ s, p.After i s ∧ p.At (p.position i * p.c.bytesPerSample) s ∧ p.position i * p.c.bytesPerSample ≤ p.total ∧
      (p.ready s).currentSample = fraction 0 (p.rc.step p.el.nextSample) (i * p.auMinibufSamples) := by
  induction i with
  | zero =>
    have hzero : p.position 0 = 0 := by
      unfold BucketImport.position
      rw [Nat.zero_mul]
      rfl
    obtain ⟨hat, hphase⟩ := p.at_start
    rw [hzero, Nat.zero_mul]
    refine ⟨_, .start, hat, Nat.zero_le _, ?_⟩
    rw [hphase, Nat.zero_mul]
    rfl
  | succ i ih =>
    obtain ⟨s, hafter, hat, hle, hphase⟩ := ih (Nat.le_of_succ_le hi)
    obtain ⟨fuel, o, htick, -, hgoes, -⟩ := h.tick hat hle hphase
    have hlt := Nat.lt_of_not_le (hbefore i hi)
    obtain ⟨hmoved, hcurrent⟩ := hgoes hlt
    have hnum := hat.numBytes
    have hread := hat.read
    have htotal := h.2.2.1
    have hend := h.2.1
    obtain ⟨hat', hphase'⟩ := hat.converts (o := o) (by omega) (by omega)
    rw [hmoved] at hat'
    exact ⟨_, hafter.tick htick, hat', hlt.le, hphase'.trans hcurrent⟩

/-- A bucket that ends there is read to the end. -/
theorem Ends.exact (h : p.Ends) : p.Exact := by
  have hend := h.2.1
  have hex := h.exists_last
  have hlast := Nat.find_spec hex
  have hbefore : ∀ j < Nat.find hex, ¬ p.total ≤ p.position (j + 1) * p.c.bytesPerSample := fun j => Nat.find_min hex
  generalize Nat.find hex = t at hlast hbefore
  obtain ⟨s, hafter, hat, hle, hphase⟩ := h.reach hbefore (Nat.le_refl t)
  obtain ⟨fuel, o, htick, hdvd, -, hall⟩ := h.tick hat hle hphase
  have hread := hat.read
  have hused := hall hlast
  have hstop : (p.ready s).read + o.used = p.c.dataSize := by omega
  refine ⟨t + 1, _, Nat.succ_pos t, hafter.tick htick, decide_eq_true hstop, ?_, ?_, fun i s' hpos hi hafter' => ?_⟩
  · calc
      (p.converts s o).el.read = (p.ready s).read + o.used := rfl
      _ = p.started.read + p.total := by omega
  · have hsamples : (p.converts s o).el.minibufSamples = o.bytes.length / p.c.bytesPerSample := if_pos hstop
    have hminibuf : (p.converts s o).el.minibuf = copyTo (p.ready s).minibuf 0 o.bytes := rfl
    rw [hsamples, hminibuf, hat.minibuf, Nat.div_mul_cancel hdvd]
    unfold copyTo
    rw [List.take_nil, List.drop_nil, List.nil_append, List.append_nil]
  · obtain ⟨s'', hafter'', hat'', -, -⟩ := h.reach hbefore (Nat.le_of_lt_succ hi)
    obtain rfl := hafter'.unique hafter''
    obtain ⟨j, rfl⟩ := Nat.exists_eq_succ_of_ne_zero hpos.ne'
    have hlt := hbefore j (by omega)
    refine ⟨by rw [hat''.going]; exact Bool.false_ne_true, ?_⟩
    rw [hat''.position]
    change _ + p.position (j + 1) * _ < _
    omega

end

end BucketImport

end Nas
