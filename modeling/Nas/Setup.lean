import Nas.Mix
import Nas.DataPath

/-!
# Setup of the running flow

`AuSetupCompiledFlow` (`auprocess.c`) takes the rate of the device from the largest rate of the elements, and has
`doSetup` compute how far each element goes in its data for a sample of the flow: the step, in 16.16 fixed point of
32 bits. It also picks the routine that mixes. `setup_exact_iff` says when all steps are what they should be, and
`simple_mixers_iff` when the two routines for simple flows do what `accumulateOutput` does.
-/

namespace Nas
open Mix

/-! ### The source -/

/-- The rates of the server, with `AuSetSampleRateCB` when there is one. -/
structure RateEnv where
  minSampleRate : Nat
  maxSampleRate : Nat
  auCurrentSampleRate : Nat
  setSampleRate : Option (Nat → Nat)

/-- The rate that `AuSetupCompiledFlow` sets for one that is asked for. -/
def RateEnv.globalRate (env : RateEnv) (rate : Nat) : Nat :=
  let rate := if rate > env.maxSampleRate then env.maxSampleRate else rate
  let rate := if rate < env.minSampleRate then env.minSampleRate else rate
  if env.auCurrentSampleRate ≠ rate then
    match env.setSampleRate with
    | some set => set rate % 2 ^ 32
    | none => rate
  else rate

/-- The rate converters by name. -/
inductive RateConverter where
  | rcm1
  | rcm2
  | rcmN
  | rcNull
  | rc1
  | rc2
  | rc4
  | rcN
deriving DecidableEq, Repr

/-- An element that is set up, with its component. -/
structure SetupCall (K : Type) where
  flowEl : FlowElement K
  component : Component
  isInput : Bool

namespace SetupCall
variable {K : Type} (k : SetupCall K)

/-- The rate of the element for `AuProcessFlows`. -/
def rate : Nat :=
  match k.flowEl.raw with
  | .importBucket _ | .exportDevice _ => k.flowEl.sampleRate
  | _ => k.component.sampleRate

/-- `elementRate` -/
def elementRate : Nat :=
  match k.flowEl.raw with
  | .importBucket _ | .exportDevice _ => k.flowEl.sampleRate
  | .importWaveForm _ => k.component.frequency
  | _ => k.component.sampleRate

/-- `elementRate` behind the sanity check. -/
def forcedRate (env : RateEnv) : Nat := if k.elementRate = 0 then env.minSampleRate else k.elementRate

/-- `nextSample` -/
def nextSample (env : RateEnv) (globalRate : Nat) : Exec Nat :=
  match k.flowEl.raw with
  | .importWaveForm _ => do
    let integ ← divide k.elementRate globalRate
    let fract ← divide ((k.elementRate - integ * globalRate) * 2 ^ 16 % 2 ^ 32) globalRate
    .ok (integ * 2 ^ 16 % 2 ^ 32 ||| fract)
  | _ =>
    if k.isInput then divide (k.forcedRate env * 2 ^ 16 % 2 ^ 32) globalRate
    else divide (globalRate * 2 ^ 16 % 2 ^ 32) (k.forcedRate env)

def rateConverter (env : RateEnv) (globalRate : Nat) : RateConverter :=
  match k.flowEl.raw with
  | .exportMonitor _ =>
    if k.component.numTracks = 1 then .rcm1 else if k.component.numTracks = 2 then .rcm2 else .rcmN
  | _ =>
    if k.forcedRate env = globalRate then .rcNull
    else if k.component.bytesPerSample = 1 then .rc1
    else if k.component.bytesPerSample = 2 then .rc2
    else if k.component.bytesPerSample = 4 then .rc4
    else .rcN

end SetupCall

/-- `doSetup`, less what it does once for an element. -/
def doSetup {K : Type} (env : RateEnv) (globalRate : Nat) (k : SetupCall K) : Exec (FlowElement K × RateConverter) := do
  let nextSample ← k.nextSample env globalRate
  .ok ({ k.flowEl with nextSample }, k.rateConverter env globalRate)

/-- An output of the compiled flow, with what its pointers lead to. -/
structure SetupOutput where
  component : Component
  flowEl : FlowElement AuFixedPoint
  inputs : List Mix.Input

/-- `accumulateOutput` of the compiled flow. -/
inductive Mixer where
  | accumulateOutput
  | accumulateOutputSimpleMono
  | accumulateOutputSimpleStereo
deriving DecidableEq, Repr

section
variable (env : RateEnv) (outputs : List SetupOutput)

/-- The calls of `doSetup`, in their order. -/
def setupCalls : List (SetupCall AuFixedPoint) :=
  outputs.flatMap fun output =>
    (output.inputs.map fun input => ⟨input.flowEl, input.component, true⟩) ++ [⟨output.flowEl, output.component, false⟩]

/-- `!input->addConstant && !input->numTracks` of all inputs. -/
def simpleInputs : Prop := ∀ output ∈ outputs, ∀ x ∈ output.inputs, x.input.addConstant = 0 ∧ x.input.numTracks = 0

instance : Decidable (simpleInputs outputs) := inferInstanceAs (Decidable (∀ output ∈ outputs, _))

/-- The routine that mixes. -/
def mixerOf : Mixer :=
  if simpleInputs outputs ∧ ∀ output ∈ outputs, output.component.numTracks ≤ 1 then .accumulateOutputSimpleMono
  else if simpleInputs outputs ∧ ∀ output ∈ outputs, output.component.numTracks = 2 then .accumulateOutputSimpleStereo
  else .accumulateOutput

/-- `AuSetupCompiledFlow` -/
def auSetupCompiledFlow (rate : Nat) : Exec (Mixer × List (FlowElement AuFixedPoint × RateConverter)) := do
  let set ← (setupCalls outputs).mapM (doSetup env (env.globalRate rate))
  .ok (mixerOf outputs, set)

/-- `maxRate` of `AuProcessFlows`, which it has the flow set up with. -/
def maxRate : Nat := (setupCalls outputs).foldl (fun maxRate k => if k.rate > maxRate then k.rate else maxRate) 0

end

/-! ### Steps -/

/-- A flow that is set up. A wave form has its frequency from the client, times the samples of its table. -/
structure SetupFlow where
  env : RateEnv
  rate : Nat
  outputs : List SetupOutput
  frequency : SetupCall AuFixedPoint → Nat
  frequency_eq : ∀ k ∈ setupCalls outputs, ∀ p, k.flowEl.raw = .importWaveForm p →
    k.component.frequency = frequency k * k.component.waveSamples % 2 ^ 32
  minSampleRate_lt : env.minSampleRate < 2 ^ 32
  maxSampleRate_lt : env.maxSampleRate < 2 ^ 32
  sampleRate_lt : ∀ k ∈ setupCalls outputs, k.flowEl.sampleRate < 2 ^ 32 ∧ k.component.sampleRate < 2 ^ 32

namespace SetupFlow
variable (p : SetupFlow) (k : SetupCall AuFixedPoint)

def globalRate : Nat := p.env.globalRate p.rate

/-- The rate that the element is to have. -/
def wantedRate : Nat :=
  match k.flowEl.raw with
  | .importWaveForm _ => p.frequency k * k.component.waveSamples
  | _ => k.forcedRate p.env

/-- The step that the element is to have. -/
def step : Nat :=
  match k.flowEl.raw with
  | .importWaveForm _ => p.wantedRate k * 2 ^ 16 / p.globalRate
  | _ => if k.isInput then p.wantedRate k * 2 ^ 16 / p.globalRate else p.globalRate * 2 ^ 16 / p.wantedRate k

/-- Nothing is shifted out of 32 bits, and the frequency is no more than 32 bits. -/
def Fits : Prop :=
  match k.flowEl.raw with
  | .importWaveForm _ => p.globalRate ≠ 0 ∧ p.wantedRate k < 2 ^ 32 ∧ p.wantedRate k / p.globalRate < 2 ^ 16 ∧
      p.wantedRate k % p.globalRate < 2 ^ 16
  | _ => if k.isInput then p.globalRate ≠ 0 ∧ p.wantedRate k < 2 ^ 16 else p.wantedRate k ≠ 0 ∧ p.globalRate < 2 ^ 16

instance : Decidable (p.Fits k) := by
  unfold Fits
  split <;> infer_instance

/-- The setup comes to an end, and every element has the step it is to have. -/
def Exact : Prop :=
  ∃ mixer set, auSetupCompiledFlow p.env p.outputs p.rate = .ok (mixer, set) ∧
    set.map (fun e => e.1.nextSample) = (setupCalls p.outputs).map p.step

end SetupFlow

section
variable {x y z g : Nat}

theorem divide_ok : divide x y = .ok z ↔ y ≠ 0 ∧ x / y = z := by
  unfold divide
  split
  · rename_i h
    exact ⟨fun h' => (nomatch h'), fun h' => absurd h h'.1⟩
  · rename_i h
    rw [Except.ok.injEq]
    exact ⟨fun h' => ⟨h, h'⟩, fun h' => h'.2⟩

/-- A shift by 16 bits in 32. -/
theorem shift_div (hg : 0 < g) (hlt : g < 2 ^ 32) : x * 2 ^ 16 % 2 ^ 32 / g = x * 2 ^ 16 / g ↔ x < 2 ^ 16 := by
  constructor
  · intro h
    by_contra hx
    have hge : x * 2 ^ 16 % 2 ^ 32 + g ≤ x * 2 ^ 16 := by omega
    have hnext := Nat.div_le_div_right (c := g) hge
    rw [Nat.add_div_right _ hg] at hnext
    omega
  · intro h
    rw [Nat.mod_eq_of_lt (by omega)]

/-- The two halves of a step together. -/
theorem or_fraction {a b : Nat} (hb : b < 2 ^ 16) : a * 2 ^ 16 % 2 ^ 32 ||| b = a % 2 ^ 16 * 2 ^ 16 + b := by
  have hmod : a * 2 ^ 16 % 2 ^ 32 = 2 ^ 16 * (a % 2 ^ 16) := by omega
  rw [hmod, Nat.mul_comm (a % 2 ^ 16), Nat.two_pow_add_eq_or_of_lt hb]

theorem fraction_div_lt {r : Nat} (hr : r < g) : r * 2 ^ 16 / g < 2 ^ 16 := by
  rw [Nat.div_lt_iff_lt_mul (by omega), Nat.mul_comm (2 ^ 16)]
  exact Nat.mul_lt_mul_of_pos_right hr (Nat.two_pow_pos 16)

theorem split_div (hg : 0 < g) : x * 2 ^ 16 / g = x / g * 2 ^ 16 + x % g * 2 ^ 16 / g := by
  have hx : x * 2 ^ 16 = x % g * 2 ^ 16 + g * (x / g * 2 ^ 16) := by
    calc
      x * 2 ^ 16 = (g * (x / g) + x % g) * 2 ^ 16 := by rw [Nat.div_add_mod]
      _ = x % g * 2 ^ 16 + g * (x / g * 2 ^ 16) := by ring
  rw [hx, Nat.add_mul_div_left _ _ hg, Nat.add_comm]

/-- The step of a wave form, from its integral and its fractional part. -/
theorem wave_step (hg : 0 < g) (hlt : g < 2 ^ 32) (c : Nat) (hc : c = x % 2 ^ 32) :
    (c / g * 2 ^ 16 % 2 ^ 32 ||| (c - c / g * g) * 2 ^ 16 % 2 ^ 32 / g) = x * 2 ^ 16 / g ↔
      x < 2 ^ 32 ∧ x / g < 2 ^ 16 ∧ x % g < 2 ^ 16 := by
  have hrest : c - c / g * g = c % g := by
    have := Nat.div_add_mod' c g
    omega
  have hr := Nat.mod_lt c hg
  have hexact := fraction_div_lt hr
  have hle : c % g * 2 ^ 16 % 2 ^ 32 / g ≤ c % g * 2 ^ 16 / g := Nat.div_le_div_right (Nat.mod_le ..)
  rw [hrest, or_fraction (lt_of_le_of_lt hle hexact)]
  by_cases hx : x < 2 ^ 32
  · obtain rfl : c = x := hc.trans (Nat.mod_eq_of_lt hx)
    have hshift := shift_div (x := c % g) hg hlt
    rw [split_div hg, ← hshift]
    constructor
    · intro h
      exact ⟨hx, by omega, by omega⟩
    · rintro ⟨-, hinteg, hfract⟩
      rw [Nat.mod_eq_of_lt hinteg, hfract]
  · refine ⟨fun h => ?_, fun h => absurd h.1 hx⟩
    have hge : c * 2 ^ 16 + g ≤ x * 2 ^ 16 := by omega
    have hnext := Nat.div_le_div_right (c := g) hge
    rw [Nat.add_div_right _ hg, split_div hg] at hnext
    have := Nat.mod_le (c / g) (2 ^ 16)
    omega

end

namespace SetupFlow
variable {p : SetupFlow} {k : SetupCall AuFixedPoint}

theorem globalRate_lt (p : SetupFlow) : p.globalRate < 2 ^ 32 := by
  have hmin := p.minSampleRate_lt
  have hmax := p.maxSampleRate_lt
  unfold globalRate RateEnv.globalRate
  dsimp only
  rcases p.env.setSampleRate with - | set
  · dsimp only
    split_ifs <;> omega
  · dsimp only
    split_ifs <;> omega

theorem wantedRate_eq (hraw : ∀ w, k.flowEl.raw ≠ .importWaveForm w) : p.wantedRate k = k.forcedRate p.env := by
  unfold wantedRate
  split
  · exact absurd ‹_› (hraw _)
  · rfl

theorem forcedRate_lt (hk : k ∈ setupCalls p.outputs) (hraw : ∀ w, k.flowEl.raw ≠ .importWaveForm w) :
    k.forcedRate p.env < 2 ^ 32 := by
  obtain ⟨hel, hcomponent⟩ := p.sampleRate_lt k hk
  have hmin := p.minSampleRate_lt
  have hrate : k.elementRate < 2 ^ 32 := by
    unfold SetupCall.elementRate
    split
    · exact hel
    · exact hel
    · exact absurd ‹_› (hraw _)
    · exact hcomponent
  unfold SetupCall.forcedRate
  split_ifs
  · exact hmin
  · exact hrate

/-- A step is right just when it fits. -/
theorem nextSample_iff (hk : k ∈ setupCalls p.outputs) : k.nextSample p.env p.globalRate = .ok (p.step k) ↔ p.Fits k := by
  have hlt := p.globalRate_lt
  by_cases hwave : ∃ w, k.flowEl.raw = .importWaveForm w
  · obtain ⟨w, hw⟩ := hwave
    have hfrequency : k.elementRate = p.wantedRate k % 2 ^ 32 := by
      unfold SetupCall.elementRate wantedRate
      rw [hw]
      exact p.frequency_eq k hk w hw
    unfold SetupCall.nextSample step Fits
    rw [hw]
    dsimp only
    rcases Nat.eq_zero_or_pos p.globalRate with hzero | hpos
    · refine ⟨fun h => ?_, fun h => absurd hzero h.1⟩
      obtain ⟨integ, hinteg, -⟩ := Exec.bind_eq_ok.1 h
      exact absurd hzero (divide_ok.1 hinteg).1
    · have hstep := wave_step (x := p.wantedRate k) hpos hlt k.elementRate hfrequency
      constructor
      · intro h
        obtain ⟨integ, hinteg, h⟩ := Exec.bind_eq_ok.1 h
        obtain ⟨fract, hfract, h⟩ := Exec.bind_eq_ok.1 h
        obtain ⟨-, rfl⟩ := divide_ok.1 hinteg
        obtain ⟨-, rfl⟩ := divide_ok.1 hfract
        exact ⟨hpos.ne', hstep.1 (Except.ok.inj h)⟩
      · rintro ⟨-, hfits⟩
        exact Exec.bind_eq_ok.2 ⟨_, divide_ok.2 ⟨hpos.ne', rfl⟩,
          Exec.bind_eq_ok.2 ⟨_, divide_ok.2 ⟨hpos.ne', rfl⟩, congrArg Except.ok (hstep.2 hfits)⟩⟩
  · have hraw : ∀ w, k.flowEl.raw ≠ .importWaveForm w := fun w hw => hwave ⟨w, hw⟩
    have hwanted := wantedRate_eq (p := p) hraw
    have hrate := forcedRate_lt hk hraw
    have hnext : k.nextSample p.env p.globalRate =
        if k.isInput then divide (p.wantedRate k * 2 ^ 16 % 2 ^ 32) p.globalRate
        else divide (p.globalRate * 2 ^ 16 % 2 ^ 32) (p.wantedRate k) := by
      rw [hwanted]
      unfold SetupCall.nextSample
      split
      · exact absurd ‹_› (hraw _)
      · rfl
    have hstep : p.step k = if k.isInput then p.wantedRate k * 2 ^ 16 / p.globalRate
        else p.globalRate * 2 ^ 16 / p.wantedRate k := by
      unfold step
      split
      · exact absurd ‹_› (hraw _)
      · rfl
    have hfits : p.Fits k ↔ if k.isInput then p.globalRate ≠ 0 ∧ p.wantedRate k < 2 ^ 16
        else p.wantedRate k ≠ 0 ∧ p.globalRate < 2 ^ 16 := by
      unfold Fits
      split
      · exact absurd ‹_› (hraw _)
      · rfl
    rw [hnext, hstep, hfits]
    rw [← hwanted] at hrate
    split_ifs
    · rw [divide_ok]
      exact and_congr_right fun hpos => shift_div (Nat.pos_of_ne_zero hpos) hlt
    · rw [divide_ok]
      exact and_congr_right fun hpos => shift_div (Nat.pos_of_ne_zero hpos) hrate

theorem mapM_doSetup (env : RateEnv) (g : Nat) (step : SetupCall AuFixedPoint → Nat) (calls : List (SetupCall AuFixedPoint)) :
    (∃ set, calls.mapM (doSetup env g) = .ok set ∧ set.map (fun e => e.1.nextSample) = calls.map step) ↔
      ∀ k ∈ calls, k.nextSample env g = .ok (step k) := by
  induction calls with
  | nil =>
    exact ⟨fun _ k hk => absurd hk List.not_mem_nil, fun _ => ⟨[], rfl, rfl⟩⟩
  | cons k calls ih =>
    rw [List.forall_mem_cons, ← ih]
    constructor
    · rintro ⟨set, hset, hsteps⟩
      rw [List.mapM_cons] at hset
      obtain ⟨r, hr, hset⟩ := Exec.bind_eq_ok.1 hset
      obtain ⟨rest, hrest, hset⟩ := Exec.bind_eq_ok.1 hset
      cases hset
      obtain ⟨next, hnext, hr⟩ := Exec.bind_eq_ok.1 hr
      cases hr
      rw [List.map_cons, List.map_cons, List.cons.injEq] at hsteps
      exact ⟨hnext.trans (congrArg Except.ok hsteps.1), rest, hrest, hsteps.2⟩
    · rintro ⟨hnext, rest, hrest, hsteps⟩
      refine ⟨({ k.flowEl with nextSample := step k }, k.rateConverter env g) :: rest, ?_, ?_⟩
      · rw [List.mapM_cons]
        exact Exec.bind_eq_ok.2 ⟨_, Exec.bind_eq_ok.2 ⟨_, hnext, rfl⟩, Exec.bind_eq_ok.2 ⟨rest, hrest, rfl⟩⟩
      · rw [List.map_cons, List.map_cons, hsteps]

/-- A bucket that is to be played at 65536 samples a second. -/
def fastBucket : SetupFlow where
  env := ⟨4000, 48000, 8000, none⟩
  rate := 65536
  outputs := [⟨{ format := 6, numTracks := 1, minibufSize := 512, bytesPerSample := 2, sampleRate := 48000 },
    { client := 1, raw := .exportDevice ⟨48000, 0, 0, 1, []⟩, elementNum := 1, isComponent := true, sampleRate := 48000 },
    [⟨{ component := 1, flowEl := ⟨0, 0, 0⟩, multiplyConstant := 2 ^ 16, addConstant := 0, numTracks := 0, inTrack := [],
        outTrack := [] },
      { format := 6, numTracks := 1, minibufSize := 512, bytesPerSample := 2 },
      { client := 1, raw := .importBucket ⟨65536, 0, 2, 0, []⟩, elementNum := 0, isComponent := true, sampleRate := 65536 }⟩]⟩]
  frequency _ := 0
  frequency_eq := by
    intro k hk w hw
    rcases List.mem_cons.1 hk with rfl | hk
    · cases hw
    · rw [List.mem_singleton.1 hk] at hw
      cases hw
  minSampleRate_lt := by decide
  maxSampleRate_lt := by decide
  sampleRate_lt := by decide

end SetupFlow

/-! ### Mixers -/

namespace Mix
open Memory Nas.Convert

section
variable (o : ByteOrder)

/-- `(v * multiplyConstantInteger) + ((v * multiplyConstantFraction) >> 16)` -/
def scaleSimple (v multiplyConstant : AuFixedPoint) : Exec Int := do
  let x ← int32 (v * (multiplyConstant / 2 ^ 16))
  let y ← int32 (v * (multiplyConstant % 2 ^ 16))
  int32 (x + y / 2 ^ 16)

/-- The loop of the mixers for simple flows. -/
def accumulateSimple (x : Mix.Input) (n : Nat) (out : List UInt8) : Exec (List UInt8) :=
  (List.range n).foldlM (fun out i => do
    let v ← load x.flowEl.minibuf (i * 2) 2
    let t ← scaleSimple (asInt16 (o.decode v)) x.input.multiplyConstant
    addTo o out i t) out

def accumulateOutputSimpleMono (x : Mix.Input) (out : List UInt8) : Exec (List UInt8) :=
  accumulateSimple o x x.flowEl.minibufSamples out

def accumulateOutputSimpleStereo (x : Mix.Input) (out : List UInt8) : Exec (List UInt8) :=
  accumulateSimple o x (x.flowEl.minibufSamples * 2) out

end
end Mix

/-- A call of `fl->accumulateOutput`. -/
def Mixer.run (mixer : Mixer) (o : ByteOrder) (x : Mix.Input) (numTracks : Nat) (out : List UInt8) : Exec (List UInt8) :=
  match mixer with
  | .accumulateOutput => Mix.accumulateOutput o x numTracks out
  | .accumulateOutputSimpleMono => Mix.accumulateOutputSimpleMono o x out
  | .accumulateOutputSimpleStereo => Mix.accumulateOutputSimpleStereo o x out

/-- The input with other samples. -/
def Mix.Input.withMinibuf (x : Mix.Input) (minibuf : List UInt8) : Mix.Input := { x with flowEl := { x.flowEl with minibuf } }

/-- The outputs of a flow that is set up. A component without tracks has a minibuffer without bytes. -/
structure MixedFlow where
  outputs : List SetupOutput
  minibufSize_eq : ∀ output ∈ outputs, output.component.numTracks = 0 → output.component.minibufSize = 0

namespace MixedFlow
variable (p : MixedFlow)

/-- Whatever is in the minibuffers, the mixer that was chosen does to the output's what `accumulateOutput` does. -/
def MixesAlike : Prop :=
  ∀ output ∈ p.outputs, ∀ x ∈ output.inputs, ∀ (o : ByteOrder) (minibuf out : List UInt8),
    out.length = output.component.minibufSize * 2 →
    (mixerOf p.outputs).run o (x.withMinibuf minibuf) output.component.numTracks out =
      Mix.accumulateOutput o (x.withMinibuf minibuf) output.component.numTracks out

/-- Where there is at most one track everywhere and all inputs are simple, outputs without a track have nothing to mix. -/
def Tracked : Prop :=
  simpleInputs p.outputs → (∀ output ∈ p.outputs, output.component.numTracks ≤ 1) →
    ∀ output ∈ p.outputs, output.component.numTracks = 0 → ∀ x ∈ output.inputs, x.flowEl.minibufSamples = 0

end MixedFlow

namespace Mix
open Memory Nas.Convert

section
variable {o : ByteOrder} {x : Mix.Input} {out : List UInt8}

/-- Without an add constant the two scalings are the same. -/
theorem scale_zero (v m : Int) : scale v m 0 = scaleSimple v m := by
  have hagain : ∀ (z : Int) {f : Int → Exec Int}, (int32 z >>= fun y => int32 (y + 0) >>= f) = (int32 z >>= f) := by
    intro z f
    by_cases hz : Mix.Int32 z
    · rw [int32_ok hz, Exec.ok_bind, Exec.ok_bind, add_zero, int32_ok hz, Exec.ok_bind]
    · rw [show int32 z = .error .fault from if_neg hz, Exec.error_bind, Exec.error_bind]
  unfold scale scaleSimple
  rw [Int.zero_ediv, Int.zero_emod, hagain]
  refine bind_congr fun y => ?_
  exact hagain (v * (m % 2 ^ 16))

/-- Tracks that map directly are mixed like one track of so many samples. -/
theorem accumulateOutput_simple (hadd : x.input.addConstant = 0) (hmap : x.input.numTracks = 0) (numTracks : Nat) :
    Mix.accumulateOutput o x numTracks out = accumulateSimple o x (x.flowEl.minibufSamples * numTracks) out := by
  unfold Mix.accumulateOutput accumulateSimple
  rw [if_neg (by rw [hmap]; exact fun h => h rfl)]
  refine Exec.foldlM_congr (fun i _ out => ?_) out
  unfold accumulateSample
  refine bind_congr fun v => ?_
  rw [hadd, scale_zero]

/-- In a minibuffer without bytes nothing can be mixed. -/
theorem accumulateSimple_empty (n : Nat) : accumulateSimple o x n [] = .ok [] ↔ n = 0 := by
  constructor
  · intro h
    by_contra hn
    obtain ⟨m, rfl⟩ := Nat.exists_eq_succ_of_ne_zero hn
    unfold accumulateSimple at h
    rw [List.range_succ_eq_map, Exec.foldlM_cons_eq_ok] at h
    obtain ⟨out, hout, -⟩ := h
    obtain ⟨v, -, hout⟩ := Exec.bind_eq_ok.1 hout
    obtain ⟨t, -, hout⟩ := Exec.bind_eq_ok.1 hout
    obtain ⟨y, hy, -⟩ := Exec.bind_eq_ok.1 hout
    cases hy
  · rintro rfl
    rfl

end
end Mix

namespace MixedFlow
variable {p : MixedFlow}

theorem not_stereo {outputs : List SetupOutput} {output : SetupOutput} (hm : output ∈ outputs)
    (h : output.component.numTracks = 0) : mixerOf outputs ≠ .accumulateOutputSimpleStereo := by
  unfold mixerOf
  split_ifs with hmono hstereo
  · exact fun h => (nomatch h)
  · have := hstereo.2 output hm
    omega
  · exact fun h => (nomatch h)

/-- The mixers for simple flows do what `accumulateOutput` does, but where an output has no track. -/
theorem mixesAlike_iff (p : MixedFlow) : p.MixesAlike ↔ p.Tracked := by
  constructor
  · intro h hsimple hmono output hm htracks x hx
    have hmixer : mixerOf p.outputs = .accumulateOutputSimpleMono := if_pos ⟨hsimple, hmono⟩
    obtain ⟨hadd, hmap⟩ := hsimple output hm x hx
    have hsame := h output hm x hx .little [] [] (by rw [p.minibufSize_eq output hm htracks]; rfl)
    rw [hmixer, htracks, Mix.accumulateOutput_simple (x := x.withMinibuf []) hadd hmap, Nat.mul_zero] at hsame
    exact (accumulateSimple_empty _).1 hsame
  · intro h output hm x hx o minibuf out hlen
    by_cases hmono : simpleInputs p.outputs ∧ ∀ output ∈ p.outputs, output.component.numTracks ≤ 1
    · obtain ⟨hadd, hmap⟩ := hmono.1 output hm x hx
      rw [show mixerOf p.outputs = .accumulateOutputSimpleMono from if_pos hmono,
        Mix.accumulateOutput_simple (x := x.withMinibuf minibuf) hadd hmap]
      change accumulateSimple _ _ _ _ = _
      have hone := hmono.2 output hm
      congr 1
      rcases Nat.eq_zero_or_pos output.component.numTracks with hzero | hpos
      · rw [hzero, Nat.mul_zero]
        exact h hmono.1 hmono.2 output hm hzero x hx
      · rw [show output.component.numTracks = 1 by omega, Nat.mul_one]
    · by_cases hstereo : simpleInputs p.outputs ∧ ∀ output ∈ p.outputs, output.component.numTracks = 2
      · obtain ⟨hadd, hmap⟩ := hstereo.1 output hm x hx
        rw [show mixerOf p.outputs = .accumulateOutputSimpleStereo from (if_neg hmono).trans (if_pos hstereo),
          Mix.accumulateOutput_simple (x := x.withMinibuf minibuf) hadd hmap, hstereo.2 output hm]
        rfl
      · rw [show mixerOf p.outputs = .accumulateOutput from (if_neg hmono).trans (if_neg hstereo)]
        rfl

/-- A port without tracks gets the samples of a port with one. -/
def trackless : MixedFlow where
  outputs := [⟨{ format := 6, numTracks := 0, minibufSize := 0, bytesPerSample := 0 },
    { client := 1, raw := .exportClient ⟨8000, 0, 6, 0, false, 16, 8, []⟩, elementNum := 1, isComponent := true },
    [⟨{ component := 1, flowEl := ⟨0, 0, 0⟩, multiplyConstant := 2 ^ 16, addConstant := 0, numTracks := 0, inTrack := [],
        outTrack := [] },
      { format := 6, numTracks := 1, minibufSize := 512, bytesPerSample := 2 },
      { client := 1, raw := .importClient ⟨8000, 6, 1, false, 16, 8, []⟩, elementNum := 0, isComponent := true,
        minibufSamples := 4 }⟩]⟩]
  minibufSize_eq := by decide

/-- `accumulateOutputSimpleMono` goes out of its minibuffer. -/
theorem trackless_not_alike : ¬ ∀ p : MixedFlow, p.MixesAlike := by
  intro h
  have hsame := h trackless _ List.mem_cons_self _ List.mem_cons_self .little (List.replicate 8 0) [] rfl
  exact absurd hsame (by decide)

end MixedFlow

end Nas
