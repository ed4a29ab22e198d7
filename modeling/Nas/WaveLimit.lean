import Nas.Limits

/-!
# The limit of a wave form

`readWaveForm` counts down what it makes and stops with the last sample. It goes round the wave form as often as a tick
needs, and reports the samples of the last lap: the report is right when the tick that reaches the limit has them all in
one lap (`WaveImport.Laps`).
-/

namespace Nas
variable {K : Type}

/-- A compiled import of a wave form with a limit. `parmsChanged` may still be set when it is started. -/
structure WaveImport (K : Type) where
  c : Component
  el : FlowElement K
  parms : AuElementImportWaveForm
  rc : RateConvert
  auMinibufSamples : Nat
  raw : el.raw = .importWaveForm parms
  samples_pos : 0 < parms.numSamples
  bytesPerSample : c.bytesPerSample = auNativeBytesPerSample
  dataSize : c.dataSize = c.waveSamples * auNativeBytesPerSample
  waveSamples_pos : 0 < c.waveSamples
  dataSize_lt : c.dataSize < 2 ^ 31
  minibufChunk : el.minibufChunk = auMinibufSamples * auNativeBytesPerSample
  minibuf_pos : 0 < auMinibufSamples
  chunk_lt : el.minibufChunk < 2 ^ 32

namespace WaveImport
variable (p : WaveImport K)

/-- The element when it is started (`AuChangeElementState`). -/
def started : FlowElement K := (p.el.rewind.count p.parms.numSamples auNativeBytesPerSample).readAt 0

/-- `readInput`. The frequency that `readWaveForm` sets is for the next setup. -/
def tick (fuel : Nat) (s : Limited K) : Exec (Limited K) :=
  if s.stopped then .ok s
  else do
    let (_, el, event) ←
      readWaveForm fuel fuel p.rc p.c { s.el with minibufSamples := p.auMinibufSamples, minibuf := [] }
    .ok ⟨el, event = .change auStateStop auReasonEOF⟩

/-- The states after so many ticks. -/
abbrev After : Nat → Limited K → Prop := AfterTicks (fun _ => p.tick) ⟨p.started, false⟩

/-- The element stops in the first tick in which all samples are made, and reports those that this tick has made. No
tick has faulted. -/
def Exact : Prop :=
  ∃ t s s', p.After t s ∧ p.After (t + 1) s' ∧ s'.stopped ∧
    s'.el.numBytes + p.parms.numSamples * auNativeBytesPerSample = p.started.numBytes ∧
    s'.el.numBytes + s'.el.minibufSamples * auNativeBytesPerSample = s.el.numBytes ∧
    ∀ i s', i ≤ t → p.After i s' →
      ¬ s'.stopped ∧ p.started.numBytes < s'.el.numBytes + p.parms.numSamples * auNativeBytesPerSample

/-- The sample that a frame is made of, counted over all laps. -/
def place (f : Nat) : Nat := position 0 (p.rc.step p.el.nextSample) f

def lap (f : Nat) : Nat := p.place f / p.c.waveSamples

/-- The frames of the tick that makes the last one are in one lap, and the counts do not wrap. -/
def Laps : Prop :=
  p.parms.numSamples < 2 ^ 31 ∧ (p.rc = .null → p.el.minibufChunk < 2 ^ 31) ∧
    p.lap ((p.parms.numSamples - 1) / p.auMinibufSamples * p.auMinibufSamples) = p.lap (p.parms.numSamples - 1)

instance : Decidable p.Laps := inferInstanceAs (Decidable (_ ∧ _ ∧ _))

end WaveImport

/-! ### Rounds -/

section
variable {w w₁ w' : WaveLoop K} {rc : RateConvert} {c : Component} {o : Converted} {fuel fuel' n n' : Nat}

/-- The loop after a conversion, where samples are counted. -/
def WaveLoop.made (w : WaveLoop K) (c : Component) (o : Converted) : WaveLoop K where
  el := { w.el with
    currentSample := o.currentSample
    minibuf := copyTo w.el.minibuf w.d o.bytes
    read := if w.el.read + o.used = c.dataSize then 0 else w.el.read + o.used
    numBytes := w.el.numBytes - min o.bytes.length w.el.numBytes }
  size := sub32 w.size (min o.bytes.length w.el.numBytes)
  d := w.d + min o.bytes.length w.el.numBytes
  bytesOut := some (min o.bytes.length w.el.numBytes)

theorem WaveLoop.round_eq (hcount : w.el.countSamples = true)
    (h : convertFrom rc fuel c w.el w.el.read w.size (c.left w.el.read) = .ok o) :
    w.round rc fuel c = .ok (w.made c o) := by
  unfold WaveLoop.round
  refine Exec.bind_eq_ok.2 ⟨o, h, ?_⟩
  simp only [if_pos hcount]
  rfl

theorem WaveLoop.round_fuel (hle : fuel ≤ fuel') (h : w.round rc fuel c = .ok w') : w.round rc fuel' c = .ok w' := by
  obtain ⟨o, ho, hw'⟩ := Exec.bind_eq_ok.1 h
  exact Exec.bind_eq_ok.2 ⟨o, convertFrom_fuel hle ho, hw'⟩

theorem WaveLoop.rounds_fuel (hle : fuel ≤ fuel') (hn : n ≤ n') (h : w.rounds rc fuel c n = .ok w') :
    w.rounds rc fuel' c n' = .ok w' := by
  induction n generalizing w n' with
  | zero =>
    unfold WaveLoop.rounds at h ⊢
    split at h
    · cases h
    · rename_i hmore
      exact (if_neg hmore).trans h
  | succ n ih =>
    obtain ⟨m, rfl⟩ := Nat.exists_eq_add_of_le' hn
    unfold WaveLoop.rounds at h ⊢
    split at h
    · rename_i hmore
      obtain ⟨w₁, hround, hrest⟩ := Exec.bind_eq_ok.1 h
      exact (if_pos hmore).trans (Exec.bind_eq_ok.2 ⟨w₁, round_fuel hle hround, ih (Nat.le_add_left n m) hrest⟩)
    · rename_i hmore
      exact (if_neg hmore).trans h

theorem WaveLoop.rounds_stop (h : ¬ w.more) : w.rounds rc fuel c n = .ok w := by
  unfold WaveLoop.rounds
  exact if_neg h

theorem WaveLoop.rounds_succ (hmore : w.more) (hround : w.round rc fuel c = .ok w₁)
    (h : w₁.rounds rc fuel c n = .ok w') : w.rounds rc fuel c (n + 1) = .ok w' := by
  rw [WaveLoop.rounds, if_pos hmore]
  exact Exec.bind_eq_ok.2 ⟨w₁, hround, h⟩

end

namespace WaveImport
variable {p : WaveImport K} {w w' : WaveLoop K} {s s' : Limited K} {lap f F t fuel : Nat}

/-- What a round leaves alone. -/
structure Kept (p : WaveImport K) (el : FlowElement K) : Prop where
  raw : el.raw = .importWaveForm p.parms
  parmsChanged : el.parmsChanged = false
  countSamples : el.countSamples = true
  minibufChunk : el.minibufChunk = p.el.minibufChunk
  nextSample : el.nextSample = p.el.nextSample

/-- So many frames are made; the tick ends with frame `F`. -/
structure Loop (p : WaveImport K) (lap f F : Nat) (w : WaveLoop K) : Prop where
  kept : p.Kept w.el
  numBytes : w.el.numBytes + f * 2 = p.parms.numSamples * 2
  size : w.size + f * 2 = F * 2
  size_lt : w.size < 2 ^ 32
  place : ∃ r < p.c.waveSamples, w.el.read = r * 2 ∧ p.place f = lap * p.c.waveSamples + r + w.el.currentSample / 2 ^ 16
  fraction : fraction 0 (p.rc.step p.el.nextSample) f = w.el.currentSample % 2 ^ 16
  null : p.rc = .null → w.el.currentSample < 2 ^ 16 ∧ w.size < 2 ^ 31

/-- The component as a tick has it. -/
structure Table (p : WaveImport K) (c : Component) : Prop where
  bytesPerSample : c.bytesPerSample = 2
  dataSize : c.dataSize = p.c.waveSamples * 2

theorem Kept.made {c : Component} {o : Converted} (h : p.Kept w.el) : p.Kept (w.made c o).el :=
  ⟨h.raw, h.parmsChanged, h.countSamples, h.minibufChunk, h.nextSample⟩

theorem waveSamples_lt (p : WaveImport K) : p.c.waveSamples * 2 < 2 ^ 31 := by
  have hlt := p.dataSize_lt
  rw [p.dataSize] at hlt
  exact hlt

theorem Loop.more (h : p.Loop lap f F w) : w.more ↔ f < F ∧ f < p.parms.numSamples := by
  have hnum := h.numBytes
  have hsize := h.size
  have hcount := h.kept.countSamples
  constructor
  · rintro ⟨hne, hlimit⟩
    have := hlimit hcount
    omega
  · rintro ⟨hF, hN⟩
    exact ⟨by omega, fun _ => by omega⟩

/-- A round makes the frames of a lap. -/
theorem Loop.round {c : Component} (h : p.Loop lap f F w) (hc : p.Table c) (hF : f < F) (hN : f < p.parms.numSamples) :
    ∃ fuel g w', w.round p.rc fuel c = .ok w' ∧ f ≤ g ∧ g ≤ F ∧ (f < g → p.lap f = lap) ∧
      (p.parms.numSamples ≤ g ∧ w'.el.numBytes = 0 ∧ p.Kept w'.el ∧ w'.bytesOut = some ((p.parms.numSamples - f) * 2) ∧
          p.lap (p.parms.numSamples - 1) = lap ∨
        g < p.parms.numSamples ∧ ∃ lap', p.Loop lap' g F w' ∧ (g = F ∨ lap' = lap + 1)) := by
  obtain ⟨r, hr, hread, hplace⟩ := h.place
  have hwave := p.waveSamples_lt
  have hnum := h.numBytes
  have hsize := h.size
  have hleft : c.left w.el.read = (p.c.waveSamples - r) * 2 := by
    unfold Component.left
    rw [hread, hc.dataSize]
    omega
  obtain ⟨fuel, k, o, ho, hconverts, hextent⟩ := exists_convertsFrames (c.data.drop w.el.read)
    (show 0 < 2 by decide) (show 2 ∣ w.size from ⟨F - f, by omega⟩)
    (show 2 ∣ c.left w.el.read by rw [hleft]; exact Nat.dvd_mul_left ..) h.size_lt
    (show p.rc = .null → w.size < 2 ^ 31 ∧ c.left w.el.read < 2 ^ 31 ∧ w.el.currentSample < 2 ^ 16 from
      fun hrc => ⟨(h.null hrc).2, by omega, (h.null hrc).1⟩)
  have hconvert : convertFrom p.rc fuel c w.el w.el.read w.size (c.left w.el.read) = .ok o := by
    refine Exec.bind_eq_ok.2 ⟨o, by rw [hc.bytesPerSample]; exact ho, if_pos ?_⟩
    rcases Classical.em (o.bytes = []) with hnil | hne
    · exact .inl hnil
    · have hext := hextent hne
      rw [hc.bytesPerSample, hc.dataSize]
      exact .inr (by omega)
  have hnull : p.rc = .null → (w.made c o).el.currentSample < 2 ^ 16 := fun hrc => by
    rw [hrc] at hconverts
    have hphase := (h.null hrc).1
    rwa [← hconverts.null hphase (by rw [hleft]; exact Nat.dvd_mul_left ..)] at hphase
  have hround := WaveLoop.round_eq h.kept.countSamples hconvert
  obtain ⟨hstops, hlength, hused, hcurrent⟩ := hconverts
  rw [hleft, h.kept.nextSample] at hstops hused hcurrent
  have hroom := hstops.room
  -- the frames of this round among those of the run
  have hrun := phaseAt_add (lap * p.c.waveSamples + r)
    (show position 0 (p.rc.step p.el.nextSample) f = lap * p.c.waveSamples + r + w.el.currentSample / 2 ^ 16 from
      hplace) h.fraction
  have hlap : ∀ j < k, p.lap (f + j) = lap := by
    intro j hj
    have hbefore := (hstops.before j hj).2
    have hj := (hrun j).1
    unfold WaveImport.lap WaveImport.place
    rw [hj]
    refine Nat.div_eq_of_lt_le (by omega) ?_
    rw [Nat.succ_mul]
    omega
  have hfirst : f < f + k → p.lap f = lap := fun hlt => hlap 0 (by omega)
  refine ⟨fuel, f + k, w.made c o, hround, Nat.le_add_right f k, by omega, hfirst, ?_⟩
  have hout : min o.bytes.length w.el.numBytes = min k (p.parms.numSamples - f) * 2 := by omega
  have hmadeNum : (w.made c o).el.numBytes = w.el.numBytes - min k (p.parms.numSamples - f) * 2 := by
    rw [← hout]
    rfl
  have hmadeSize : (w.made c o).size = w.size - min k (p.parms.numSamples - f) * 2 := by
    rw [← hout, ← sub32_eq h.size_lt (by omega)]
    rfl
  by_cases hlimit : p.parms.numSamples ≤ f + k
  · refine .inl ⟨hlimit, by omega, h.kept.made, ?_, ?_⟩
    · have hmin : min k (p.parms.numSamples - f) = p.parms.numSamples - f := by omega
      rw [← hmin, ← hout]
      rfl
    · have hlast := hlap (p.parms.numSamples - 1 - f) (by omega)
      rwa [show f + (p.parms.numSamples - 1 - f) = p.parms.numSamples - 1 by omega] at hlast
  · have hnext := (hrun k).1
    have hphase := (hrun k).2
    have hmadeRead : (w.made c o).el.read = if r * 2 + o.used = p.c.waveSamples * 2 then 0 else r * 2 + o.used := by
      rw [← hread, ← hc.dataSize]
      rfl
    have hmadeCurrent : (w.made c o).el.currentSample = o.currentSample := rfl
    have hlt := fraction_lt w.el.currentSample (p.rc.step p.el.nextSample) k
    refine .inr ⟨by omega, ?_⟩
    by_cases hend : p.c.waveSamples - r ≤ position w.el.currentSample (p.rc.step p.el.nextSample) k
    · rw [Nat.min_eq_right (by omega)] at hused
      rw [← Nat.sub_mul, Nat.mul_div_cancel _ (by decide : 0 < 2)] at hcurrent
      refine ⟨lap + 1, ⟨h.kept.made, by omega, by omega, ?_, ⟨0, p.waveSamples_pos, ?_, ?_⟩, ?_, fun hrc => ?_⟩,
        .inr rfl⟩
      · have := h.size_lt
        omega
      · rw [hmadeRead, if_pos (by omega)]
      · unfold WaveImport.place
        rw [hnext, hmadeCurrent, hcurrent, Nat.succ_mul]
        omega
      · rw [hphase, hmadeCurrent, hcurrent]
        omega
      · have hcurrent := hnull hrc
        have := (h.null hrc).2
        exact ⟨by omega, by omega⟩
    · rw [Nat.min_eq_left (by omega)] at hused
      rw [Nat.sub_eq_zero_of_le (by omega), Nat.zero_div, Nat.zero_mul, Nat.add_zero] at hcurrent
      refine ⟨lap, ⟨h.kept.made, by omega, by omega, ?_,
        ⟨r + position w.el.currentSample (p.rc.step p.el.nextSample) k, by omega, ?_, ?_⟩, ?_, fun hrc => ?_⟩, .inl ?_⟩
      · have := h.size_lt
        omega
      · rw [hmadeRead, if_neg (by omega)]
        omega
      · unfold WaveImport.place
        rw [hnext, hmadeCurrent, hcurrent]
        omega
      · rw [hphase, hmadeCurrent, hcurrent]
        omega
      · have := (h.null hrc).2
        exact ⟨by omega, by omega⟩
      · have hstop := hstops.stop
        omega


theorem lap_mono (h : f ≤ F) : p.lap f ≤ p.lap F := Nat.div_le_div_right (position_mono h)

theorem Loop.lap_le (h : p.Loop lap f F w) : lap ≤ p.lap f := by
  obtain ⟨r, -, -, hplace⟩ := h.place
  refine (Nat.le_div_iff_mul_le p.waveSamples_pos).2 ?_
  omega

/-- The rounds of a tick make the frames up to `F`, or all that are left. What the last of them has made begins with the
frame `g`. -/
theorem Loop.rounds {c : Component} (h : p.Loop lap f F w) (hc : p.Table c) (hF : f ≤ F) (hN : f < p.parms.numSamples) :
    ∃ fuel w', w.rounds p.rc fuel c fuel = .ok w' ∧
      (p.parms.numSamples ≤ F ∧ w'.el.numBytes = 0 ∧ p.Kept w'.el ∧
          (∃ g, g < p.parms.numSamples ∧ w'.bytesOut = some ((p.parms.numSamples - g) * 2) ∧
            p.lap g = p.lap (p.parms.numSamples - 1) ∧ (g = f ∨ p.lap f < p.lap (p.parms.numSamples - 1))) ∨
        F < p.parms.numSamples ∧ ∃ lap', p.Loop lap' F F w') := by
  -- a round that is not the last takes the wave form to its next lap, and `F` is in one of them
  induction hd : p.lap F + 1 - lap generalizing lap f w with
  | zero =>
    have hlap := h.lap_le
    have := lap_mono (p := p) hF
    omega
  | succ d ih =>
    rcases hF.eq_or_lt with rfl | hlt
    · exact ⟨0, w, WaveLoop.rounds_stop fun hmore => Nat.lt_irrefl f (h.more.1 hmore).1, .inr ⟨hN, lap, h⟩⟩
    have hmore := h.more.2 ⟨hlt, hN⟩
    obtain ⟨fuel, g, w₁, hround, hfg, hgF, hfirst, hlast⟩ := h.round hc hlt hN
    rcases hlast with ⟨hend, hnum, hkept, hout, hlap⟩ | ⟨hgN, lap', hloop, hnext⟩
    · have hstop : w₁.rounds p.rc (fuel + 1) c fuel = .ok w₁ :=
        WaveLoop.rounds_stop fun hmore => hmore.2 hkept.countSamples hnum
      refine ⟨fuel + 1, w₁, WaveLoop.rounds_succ hmore (WaveLoop.round_fuel (Nat.le_succ fuel) hround) hstop, .inl ?_⟩
      exact ⟨hend.trans hgF, hnum, hkept, f, hN, hout, (hfirst (by omega)).trans hlap.symm, .inl rfl⟩
    · rcases hgF.eq_or_lt with rfl | hgF'
      · have hstop : w₁.rounds p.rc (fuel + 1) c fuel = .ok w₁ :=
          WaveLoop.rounds_stop fun hmore => Nat.lt_irrefl g (hloop.more.1 hmore).1
        exact ⟨fuel + 1, w₁, WaveLoop.rounds_succ hmore (WaveLoop.round_fuel (Nat.le_succ fuel) hround) hstop,
          .inr ⟨hgN, lap', hloop⟩⟩
      obtain rfl := hnext.resolve_left hgF'.ne
      obtain ⟨fuel', w', hrounds, hw'⟩ := ih hloop hgF hgN (by omega)
      have hround' : w.round p.rc (max fuel fuel' + 1) c = .ok w₁ := WaveLoop.round_fuel (by omega) hround
      have hrounds' : w₁.rounds p.rc (max fuel fuel' + 1) c (max fuel fuel') = .ok w' :=
        WaveLoop.rounds_fuel (by omega) (by omega) hrounds
      refine ⟨max fuel fuel' + 1, w', WaveLoop.rounds_succ hmore hround' hrounds', hw'.imp_left ?_⟩
      rintro ⟨hF', hnum, hkept, i, hi, hout, hlap, hfrom⟩
      refine ⟨hF', hnum, hkept, i, hi, hout, hlap, ?_⟩
      rcases hfg.eq_or_lt with rfl | hfg'
      · exact hfrom
      · -- the frames of the first round are in a lap of their own
        have hle := hloop.lap_le
        have hmono := lap_mono (p := p) (show g ≤ p.parms.numSamples - 1 by omega)
        rw [hfirst hfg']
        exact .inr (by omega)


/-! ### Ticks -/

/-- The element behind the first branch of `readWaveForm`, with its component. -/
def ready (p : WaveImport K) (s : Limited K) : Component × FlowElement K :=
  ({ s.el with minibufSamples := p.auMinibufSamples, minibuf := [] } : FlowElement K).waveParms p.c

/-- So many frames are made. -/
structure At (p : WaveImport K) (f : Nat) (s : Limited K) : Prop where
  going : s.stopped = false
  numBytes : s.el.numBytes + f * 2 = p.parms.numSamples * 2
  table : p.Table (p.ready s).1
  loop : ∃ lap, p.Loop lap f (f + p.auMinibufSamples) { el := (p.ready s).2, size := (p.ready s).2.minibufChunk }

/-- The counts do not wrap. -/
structure Counts (p : WaveImport K) : Prop where
  numSamples : p.parms.numSamples < 2 ^ 31
  chunk : p.rc = .null → p.el.minibufChunk < 2 ^ 31

theorem table_self (p : WaveImport K) : p.Table p.c := ⟨p.bytesPerSample, p.dataSize⟩

theorem ready_eq (hraw : s.el.raw = .importWaveForm p.parms) (hparms : s.el.parmsChanged = false) :
    p.ready s = (p.c, { s.el with minibufSamples := p.auMinibufSamples, minibuf := [] }) := by
  unfold ready FlowElement.waveParms
  dsimp only
  rw [hraw]
  dsimp only
  rw [if_neg (by rw [hparms]; exact Bool.false_ne_true)]

theorem started_eq (p : WaveImport K) : p.started = { p.el with
    countSamples := true
    numBytes := p.parms.numSamples * 2 % 2 ^ 32
    currentSample := 0
    read := 0 } := by
  have hpos := p.samples_pos
  unfold started FlowElement.count
  rw [if_neg (by unfold auUnlimitedSamples; omega)]
  rfl

/-- An element that is ready has the samples and the limit it was started with. -/
theorem ready_started (p : WaveImport K) : p.Table (p.ready ⟨p.started, false⟩).1 ∧
    p.Kept (p.ready ⟨p.started, false⟩).2 ∧ (p.ready ⟨p.started, false⟩).2.numBytes = p.parms.numSamples * 2 % 2 ^ 32 ∧
    (p.ready ⟨p.started, false⟩).2.read = 0 ∧ (p.ready ⟨p.started, false⟩).2.currentSample = 0 := by
  have heq := p.started_eq
  have hraw : p.started.raw = .importWaveForm p.parms := (congrArg FlowElement.raw heq).trans p.raw
  have hpos := p.samples_pos
  have hlimit : p.parms.numSamples ≠ auUnlimitedSamples := hpos.ne'
  by_cases hparms : p.started.parmsChanged
  · have hready : p.ready ⟨p.started, false⟩ =
        ({ p.c with frequency := p.parms.frequency * p.c.waveSamples % 2 ^ 32 },
          { p.started with
            minibufSamples := p.auMinibufSamples, minibuf := [], parmsChanged := false, countSamples := true
            numBytes := p.parms.numSamples * 2 % 2 ^ 32 }) := by
      unfold ready FlowElement.waveParms
      dsimp only
      rw [hraw]
      dsimp only
      rw [if_pos hparms, if_pos hlimit, decide_eq_true hlimit]
      rfl
    rw [hready, heq]
    exact ⟨⟨p.bytesPerSample, p.dataSize⟩, ⟨p.raw, rfl, rfl, rfl, rfl⟩, rfl, rfl, rfl⟩
  · rw [Bool.not_eq_true] at hparms
    rw [ready_eq hraw hparms]
    rw [heq] at hparms ⊢
    exact ⟨p.table_self, ⟨p.raw, hparms, rfl, rfl, rfl⟩, rfl, rfl, rfl⟩


theorem at_start (hcounts : p.Counts) : p.At 0 ⟨p.started, false⟩ := by
  obtain ⟨htable, hkept, hnum, hread, hcurrent⟩ := p.ready_started
  have hlt := hcounts.numSamples
  have hchunk := p.minibufChunk
  unfold auNativeBytesPerSample at hchunk
  have hmod : p.parms.numSamples * 2 % 2 ^ 32 = p.parms.numSamples * 2 := Nat.mod_eq_of_lt (by omega)
  have hstart : p.started.numBytes = p.parms.numSamples * 2 := (congrArg FlowElement.numBytes p.started_eq).trans hmod
  refine ⟨rfl, by rw [hstart]; rfl, htable, 0, ⟨hkept, ?_, ?_, ?_, ⟨0, p.waveSamples_pos, ?_, ?_⟩, ?_, fun hrc => ?_⟩⟩
  · dsimp only
    omega
  · dsimp only
    rw [hkept.minibufChunk]
    omega
  · dsimp only
    rw [hkept.minibufChunk]
    exact p.chunk_lt
  · dsimp only
    rw [hread]
  · have hzero : position 0 (p.rc.step p.el.nextSample) 0 = 0 := rfl
    dsimp only
    rw [hcurrent]
    unfold place
    omega
  · dsimp only
    rw [hcurrent]
    rfl
  · dsimp only
    rw [hcurrent, hkept.minibufChunk]
    exact ⟨by decide, hcounts.chunk hrc⟩

/-- The element as the next tick has it. -/
theorem Loop.at_next (hcounts : p.Counts) (h : p.Loop lap F F w) : p.At F ⟨w.el, false⟩ := by
  have hchunk := p.minibufChunk
  unfold auNativeBytesPerSample at hchunk
  have hready := ready_eq (s := ⟨w.el, false⟩) h.kept.raw h.kept.parmsChanged
  obtain ⟨hkept, hnum, -, -, hplace, hfraction, hnull⟩ := h
  refine ⟨rfl, hnum, ?_, lap, ?_⟩
  · rw [hready]
    exact p.table_self
  · rw [hready]
    refine ⟨⟨hkept.raw, hkept.parmsChanged, hkept.countSamples, hkept.minibufChunk, hkept.nextSample⟩, hnum, ?_, ?_,
      hplace, hfraction, fun hrc => ⟨(hnull hrc).1, ?_⟩⟩
    · dsimp only
      rw [hkept.minibufChunk]
      omega
    · dsimp only
      rw [hkept.minibufChunk]
      exact p.chunk_lt
    · dsimp only
      rw [hkept.minibufChunk]
      exact hcounts.chunk hrc

/-- A tick makes a chunk, or all that is left. -/
theorem At.tick (hcounts : p.Counts) (h : p.At f s) (hN : f < p.parms.numSamples) :
    ∃ fuel s', p.tick fuel s = .ok s' ∧
      (p.parms.numSamples ≤ f + p.auMinibufSamples ∧ s'.stopped = true ∧ s'.el.numBytes = 0 ∧
          (∃ g, g < p.parms.numSamples ∧ s'.el.minibufSamples = p.parms.numSamples - g ∧
            p.lap g = p.lap (p.parms.numSamples - 1) ∧ (g = f ∨ p.lap f < p.lap (p.parms.numSamples - 1))) ∨
        f + p.auMinibufSamples < p.parms.numSamples ∧ p.At (f + p.auMinibufSamples) s') := by
  obtain ⟨lap, hloop⟩ := h.loop
  obtain ⟨fuel, w', hrounds, hw'⟩ := hloop.rounds h.table (Nat.le_add_right f _) hN
  -- what follows the loops
  have htick : p.tick fuel s = (if w'.el.countSamples ∧ w'.el.numBytes = 0 then do
      let bytesOut ← Exec.deref w'.bytesOut
      let samples ← divide bytesOut (p.ready s).1.bytesPerSample
      .ok ⟨{ w'.el with minibufSamples := samples }, true⟩
    else .ok ⟨w'.el, false⟩) := by
    have hready : ({ s.el with minibufSamples := p.auMinibufSamples, minibuf := [] } : FlowElement K).waveParms p.c =
        p.ready s := rfl
    unfold WaveImport.tick readWaveForm
    rw [h.going, if_neg Bool.false_ne_true, hready]
    generalize p.ready s = r at hrounds ⊢
    obtain ⟨c, el⟩ := r
    dsimp only at hrounds ⊢
    rw [hrounds, Exec.ok_bind]
    split
    · rcases w'.bytesOut with - | bytesOut
      · rfl
      · rw [Exec.deref_some, Exec.ok_bind, Exec.ok_bind]
        unfold divide
        split
        · rfl
        · rfl
    · rfl
  rcases hw' with ⟨hF, hnum, hkept, g, hg, hout, hlap, hfrom⟩ | ⟨hF, lap', hloop'⟩
  · refine ⟨fuel, ⟨{ w'.el with minibufSamples := p.parms.numSamples - g }, true⟩, ?_, .inl
      ⟨hF, rfl, hnum, g, hg, rfl, hlap, hfrom⟩⟩
    rw [htick, if_pos ⟨hkept.countSamples, hnum⟩, hout, Exec.deref_some, Exec.ok_bind, h.table.bytesPerSample]
    unfold divide
    rw [if_neg (by decide), Exec.ok_bind, Nat.mul_div_cancel _ (by decide)]
  · refine ⟨fuel, ⟨w'.el, false⟩, ?_, .inr ⟨hF, hloop'.at_next hcounts⟩⟩
    have hnum := hloop'.numBytes
    rw [htick, if_neg fun hstop => by omega]

theorem tick_fuel (hle : fuel ≤ fuel') (h : p.tick fuel s = .ok s') : p.tick fuel' s = .ok s' := by
  unfold WaveImport.tick at h ⊢
  split at h
  · exact (if_pos ‹_›).trans h
  · refine (if_neg ‹_›).trans ?_
    obtain ⟨r, hread, hs'⟩ := Exec.bind_eq_ok.1 h
    refine Exec.bind_eq_ok.2 ⟨r, ?_, hs'⟩
    obtain ⟨w, hrounds, hrest⟩ := Exec.bind_eq_ok.1 hread
    exact Exec.bind_eq_ok.2 ⟨w, WaveLoop.rounds_fuel hle hle hrounds, hrest⟩

theorem After.unique (h : p.After t s) (h' : p.After t s') : s = s' :=
  AfterTicks.unique h h' fun _ _ _ _ _ hle => tick_fuel hle

/-- The element while there is something left to make. -/
theorem Counts.reach (h : p.Counts) {i : Nat} (hi : i * p.auMinibufSamples < p.parms.numSamples) :
    ∃ s, p.After i s ∧ p.At (i * p.auMinibufSamples) s := by
  induction i with
  | zero => exact ⟨_, .start, by rw [Nat.zero_mul]; exact p.at_start h⟩
  | succ i ih =>
    rw [Nat.succ_mul] at hi ⊢
    obtain ⟨s, hafter, hat⟩ := ih (by omega)
    obtain ⟨fuel, s', htick, hend | ⟨-, hat'⟩⟩ := hat.tick h (by omega)
    · omega
    · exact ⟨s', hafter.tick htick, hat'⟩

/-- The tick that makes the last sample. -/
def lastTick (p : WaveImport K) : Nat := (p.parms.numSamples - 1) / p.auMinibufSamples

theorem lastTick_spec (p : WaveImport K) : p.lastTick * p.auMinibufSamples < p.parms.numSamples ∧
    p.parms.numSamples ≤ p.lastTick * p.auMinibufSamples + p.auMinibufSamples := by
  have hpos := p.samples_pos
  have hle := Nat.div_mul_le_self (p.parms.numSamples - 1) p.auMinibufSamples
  have hlt := Nat.lt_div_mul_add (a := p.parms.numSamples - 1) p.minibuf_pos
  unfold lastTick
  omega

/-- The run up to the last tick. -/
theorem Counts.run (h : p.Counts) : ∃ s s' g, p.After p.lastTick s ∧ p.After (p.lastTick + 1) s' ∧ s'.stopped = true ∧
    s'.el.numBytes = 0 ∧ s.el.numBytes + p.lastTick * p.auMinibufSamples * 2 = p.parms.numSamples * 2 ∧
    g < p.parms.numSamples ∧ s'.el.minibufSamples = p.parms.numSamples - g ∧ p.lap g = p.lap (p.parms.numSamples - 1) ∧
    (g = p.lastTick * p.auMinibufSamples ∨
      p.lap (p.lastTick * p.auMinibufSamples) < p.lap (p.parms.numSamples - 1)) := by
  obtain ⟨hlt, hle⟩ := p.lastTick_spec
  obtain ⟨s, hafter, hat⟩ := h.reach hlt
  obtain ⟨fuel, s', htick, ⟨-, hstopped, hnum, g, hg, hsamples, hlap, hfrom⟩ | ⟨hgoes, -⟩⟩ := hat.tick h hlt
  · exact ⟨s, s', g, hafter, hafter.tick htick, hstopped, hnum, hat.numBytes, hg, hsamples, hlap, hfrom⟩
  · omega

theorem started_numBytes (h : p.Counts) : p.started.numBytes = p.parms.numSamples * 2 := by
  have hlt := h.numSamples
  have hmod : p.parms.numSamples * 2 % 2 ^ 32 = p.parms.numSamples * 2 := Nat.mod_eq_of_lt (by omega)
  exact (congrArg FlowElement.numBytes p.started_eq).trans hmod

theorem Laps.exact (h : p.Laps) : p.Exact := by
  obtain ⟨hnum, hchunk, hlaps⟩ := h
  have hcounts : p.Counts := ⟨hnum, hchunk⟩
  have hstart := started_numBytes hcounts
  obtain ⟨s, s', g, hafter, hafter', hstopped, hzero, hleft, hg, hsamples, -, hfrom⟩ := hcounts.run
  obtain ⟨hlast, -⟩ := p.lastTick_spec
  obtain rfl : g = p.lastTick * p.auMinibufSamples := by
    refine hfrom.resolve_right fun hlt => ?_
    exact absurd hlaps hlt.ne
  have hbytes : auNativeBytesPerSample = 2 := rfl
  refine ⟨p.lastTick, s, s', hafter, hafter', hstopped, ?_, ?_, fun i t hi ht => ?_⟩
  · rw [hzero, hstart, hbytes, Nat.zero_add]
  · rw [hzero, hsamples, hbytes]
    omega
  · have hmul := Nat.mul_le_mul_right p.auMinibufSamples hi
    obtain ⟨t', ht', hat⟩ := hcounts.reach (show i * p.auMinibufSamples < p.parms.numSamples by omega)
    obtain rfl := ht.unique ht'
    have hat' := hat.numBytes
    refine ⟨by rw [hat.going]; exact Bool.false_ne_true, ?_⟩
    rw [hstart, hbytes]
    omega

/-- What an exact element has done in its first tick, and what it has counted. -/
theorem Exact.counts (h : p.Exact) : p.Counts := by
  obtain ⟨t, s, s', -, hafter', -, hnum, -, -⟩ := h
  have hpos := p.samples_pos
  have hstart : p.started.numBytes = p.parms.numSamples * 2 % 2 ^ 32 := congrArg FlowElement.numBytes p.started_eq
  have hbytes : auNativeBytesPerSample = 2 := rfl
  have hlt : p.parms.numSamples < 2 ^ 31 := by
    rw [hstart, hbytes] at hnum
    omega
  refine ⟨hlt, fun hrc => ?_⟩
  obtain ⟨fuel, s₁, htick⟩ := hafter'.first
  obtain ⟨htable, hkept, hready, -, -⟩ := p.ready_started
  have hchunk := p.minibufChunk
  rw [hbytes] at hchunk
  have hminibuf := p.minibuf_pos
  unfold WaveImport.tick at htick
  rw [if_neg Bool.false_ne_true] at htick
  obtain ⟨r, hread, -⟩ := Exec.bind_eq_ok.1 htick
  obtain ⟨w, hrounds, -⟩ := Exec.bind_eq_ok.1 hread
  replace hrounds : ({ el := (p.ready ⟨p.started, false⟩).2, size := (p.ready ⟨p.started, false⟩).2.minibufChunk }
      : WaveLoop K).rounds p.rc fuel (p.ready ⟨p.started, false⟩).1 fuel = .ok w := hrounds
  -- there is something to make, so that the converter is called
  have hmore : ({ el := (p.ready ⟨p.started, false⟩).2, size := (p.ready ⟨p.started, false⟩).2.minibufChunk }
      : WaveLoop K).more := by
    refine ⟨?_, fun _ => ?_⟩
    · dsimp only
      rw [hkept.minibufChunk]
      omega
    · dsimp only
      omega
  rcases fuel with - | fuel
  · unfold WaveLoop.rounds at hrounds
    rw [if_pos hmore] at hrounds
    cases hrounds
  unfold WaveLoop.rounds at hrounds
  rw [if_pos hmore] at hrounds
  obtain ⟨w₁, hround, -⟩ := Exec.bind_eq_ok.1 hrounds
  obtain ⟨o, ho, -⟩ := Exec.bind_eq_ok.1 hround
  have hconvert := (convertFrom_ok ho).1
  dsimp only at hconvert
  rw [hrc, hkept.minibufChunk] at hconvert
  exact (rcNull_ok p.chunk_lt (Routine.left_lt _ _) hconvert).1

theorem Exact.laps (h : p.Exact) : p.Laps := by
  have hcounts := h.counts
  obtain ⟨t, s, s', hafter, hafter', hstopped, -, hreport, hbefore⟩ := h
  obtain ⟨u, u', g, hu, hu', hstop, hzero, hleft, hg, hsamples, hlap, -⟩ := hcounts.run
  obtain ⟨hlast, -⟩ := p.lastTick_spec
  have hbytes : auNativeBytesPerSample = 2 := rfl
  -- both stop in the same tick
  obtain rfl : t = p.lastTick := by
    rcases Nat.lt_trichotomy t p.lastTick with hlt | heq | hgt
    · have hmul := Nat.mul_le_mul_right p.auMinibufSamples (show t + 1 ≤ p.lastTick from hlt)
      obtain ⟨v, hv, hat⟩ := hcounts.reach (show (t + 1) * p.auMinibufSamples < p.parms.numSamples by omega)
      obtain rfl := hafter'.unique hv
      rw [hat.going] at hstopped
      cases hstopped
    · exact heq
    · exact absurd hstop (hbefore _ _ hgt hu').1
  obtain rfl := hafter.unique hu
  obtain rfl := hafter'.unique hu'
  rw [hzero, hsamples, hbytes] at hreport
  obtain rfl : g = p.lastTick * p.auMinibufSamples := by omega
  exact ⟨hcounts.numSamples, hcounts.chunk, hlap⟩

end WaveImport

end Nas
