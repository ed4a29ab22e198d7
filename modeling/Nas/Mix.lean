import Nas.Convert
import Mathlib.Algebra.Order.Ring.Abs
import Mathlib.Tactic.Linarith
import Mathlib.Tactic.Ring

/-!
# Mixing

`accumulateOutput` adds the samples of an input to an output's minibuffer, each times the input's multiply constant
and with its add constant, and `writeOutput` clips the sums, in place from 32 bits to 16 (`auprocess.c`, with
`OUTPUT_RANGE_CHECK`). An operation on `AuInt32` values whose result is none is a fault.
-/

namespace Nas

namespace Mix
open InPlace Memory Nas.Convert

def Int32 (x : Int) : Prop := -2 ^ 31 ≤ x ∧ x < 2 ^ 31

instance (x : Int) : Decidable (Int32 x) := inferInstanceAs (Decidable (_ ∧ _))

/-- The result of an operation on `AuInt32` values. -/
def int32 (x : Int) : Exec Int := if Int32 x then .ok x else .error .fault

section
variable (o : ByteOrder)

/-- `((AuInt16 *) m)[k]` -/
def sample (m : List UInt8) (k : Nat) : Int := asInt16 (o.decode (item 2 m k))

/-- `((AuInt32 *) m)[k]` -/
def word (m : List UInt8) (k : Nat) : Int := asInt32 (o.decode (item 4 m k))

/-- `(v * multiplyConstantInteger + addConstantInteger) + ((v * multiplyConstantFraction + addConstantFraction) >> 16)` -/
def scale (v multiplyConstant addConstant : AuFixedPoint) : Exec Int := do
  let x ← int32 (v * (multiplyConstant / 2 ^ 16))
  let x ← int32 (x + addConstant / 2 ^ 16)
  let y ← int32 (v * (multiplyConstant % 2 ^ 16))
  let y ← int32 (y + addConstant % 2 ^ 16)
  int32 (x + y / 2 ^ 16)

/-- `out[k] += t` -/
def addTo (out : List UInt8) (k : Nat) (t : Int) : Exec (List UInt8) := do
  let x ← load out (k * 4) 4
  let s ← int32 (asInt32 (o.decode x) + t)
  Memory.store out (k * 4) (o.encode 4 (s % 2 ^ 32).toNat)

/-- An input with what its pointers lead to. -/
structure Input where
  input : CompiledInput AuFixedPoint
  component : Component
  flowEl : FlowElement AuFixedPoint

/-- The innermost statement, on sample `src` of the input and `dst` of the output. -/
def accumulateSample (x : Input) (out : List UInt8) (src dst : Nat) : Exec (List UInt8) := do
  let v ← load x.flowEl.minibuf (src * 2) 2
  let t ← scale (asInt16 (o.decode v)) x.input.multiplyConstant x.input.addConstant
  addTo o out dst t

def accumulateOutput (x : Input) (numTracks : Nat) (out : List UInt8) : Exec (List UInt8) :=
  if x.input.numTracks ≠ 0 then
    (List.range x.flowEl.minibufSamples).foldlM (fun out i =>
      (List.range x.input.numTracks).foldlM (fun out j => do
        let inTrack ← Exec.deref x.input.inTrack[j]?
        let outTrack ← Exec.deref x.input.outTrack[j]?
        accumulateSample o x out (i * x.component.numTracks + inTrack) (i * numTracks + outTrack)) out) out
  else
    -- all input tracks map directly to the output tracks
    (List.range (x.flowEl.minibufSamples * numTracks)).foldlM (fun out i => accumulateSample o x out i i) out

/-- The loop of `AuProcessFlow` over the inputs of an output that is started, with its `minibufSamples`. -/
def accumulateInputs (numTracks : Nat) (inputs : List Input) (minibufSamples : Nat) (out : List UInt8) :
    Exec (Nat × List UInt8) :=
  inputs.foldlM (fun (minibufSamples, out) x =>
    if x.flowEl.state = auStateStart then do
      let out ← accumulateOutput o x numTracks out
      .ok (max minibufSamples x.flowEl.minibufSamples, out)
    else .ok (minibufSamples, out)) (minibufSamples, out)

/-- `*s < -32768 ? -32768 : *s > 32767 ? 32767 : *s` -/
def clip (s : Int) : Int := if s < -32768 then -32768 else if s > 32767 then 32767 else s

def clipItem (x : List UInt8) : List UInt8 := o.encode 2 (clip (asInt32 (o.decode x)) % 2 ^ 16).toNat

/-- The clipping of `writeOutput`. -/
def clipOutput (numTracks minibufSamples : Nat) (m : List UInt8) : Exec (List UInt8) :=
  forward (clipItem o) 4 2 (minibufSamples * numTracks) 0 m

/-- What a tick makes of an output's minibuffer. It has as many bytes as the component's `minibufSize`, twice. -/
def mixOutput (component : Component) (inputs : List Input) : Exec (Nat × List UInt8) := do
  let (minibufSamples, out) ←
    accumulateInputs o component.numTracks inputs 0 (List.replicate (component.minibufSize * 2) 0)
  let m ← clipOutput o component.numTracks minibufSamples out
  .ok (minibufSamples, m)

end

/-! ### One sample -/

section
variable {v m a x t : Int} {o : ByteOrder} {out out' : List UInt8} {k p : Nat}

theorem int32_eq_ok {y : Int} : int32 x = .ok y ↔ Int32 x ∧ y = x := by
  unfold int32
  split
  · simp_all [eq_comm]
  · simp_all

theorem int32_ok (h : Int32 x) : int32 x = .ok x := if_pos h

/-- No product or sum of `scale` leaves the 32 bits. -/
theorem scale_eq (hv : -2 ^ 15 ≤ v ∧ v < 2 ^ 15) (hm : Int32 m) (ha : Int32 a) :
    scale v m a = .ok ((v * m + a) / 2 ^ 16) := by
  obtain ⟨hm₁, hm₂⟩ := hm
  obtain ⟨ha₁, ha₂⟩ := ha
  have habs : |v| ≤ 2 ^ 15 := abs_le.2 ⟨hv.1, hv.2.le⟩
  have hint : |v * (m / 2 ^ 16)| ≤ 2 ^ 15 * 2 ^ 15 := by
    rw [abs_mul]
    exact mul_le_mul habs (abs_le.2 ⟨by omega, by omega⟩) (abs_nonneg _) (by norm_num)
  have hfrac₁ : -2 ^ 15 * (2 ^ 16 - 1) ≤ v * (m % 2 ^ 16) := by
    have := abs_le.1 (show |v * (m % 2 ^ 16)| ≤ 2 ^ 15 * (2 ^ 16 - 1) by
      rw [abs_mul]
      exact mul_le_mul habs (abs_le.2 ⟨by omega, by omega⟩) (abs_nonneg _) (by norm_num))
    linarith [this.1]
  have hfrac₂ : v * (m % 2 ^ 16) ≤ (2 ^ 15 - 1) * (2 ^ 16 - 1) := by
    by_cases hneg : v < 0
    · have := mul_nonpos_of_nonpos_of_nonneg hneg.le (show 0 ≤ m % 2 ^ 16 by omega)
      linarith
    · exact mul_le_mul (by omega) (by omega) (by omega) (by norm_num)
  have hsplit : v * m = v * (m % 2 ^ 16) + 2 ^ 16 * (v * (m / 2 ^ 16)) := by
    conv_lhs => rw [← Int.emod_add_mul_ediv m (2 ^ 16)]
    ring
  obtain ⟨hint₁, hint₂⟩ := abs_le.1 hint
  have hvalue : (v * m + a) / 2 ^ 16 =
      v * (m / 2 ^ 16) + a / 2 ^ 16 + (v * (m % 2 ^ 16) + a % 2 ^ 16) / 2 ^ 16 := by
    rw [hsplit]
    generalize v * (m / 2 ^ 16) = q
    generalize v * (m % 2 ^ 16) = r
    omega
  rw [hvalue, scale]
  generalize v * (m / 2 ^ 16) = q at *
  generalize v * (m % 2 ^ 16) = r at *
  have h₁ : Int32 q := ⟨by omega, by omega⟩
  have h₂ : Int32 (q + a / 2 ^ 16) := ⟨by omega, by omega⟩
  have h₃ : Int32 r := ⟨by omega, by omega⟩
  have h₄ : Int32 (r + a % 2 ^ 16) := ⟨by omega, by omega⟩
  have h₅ : Int32 (q + a / 2 ^ 16 + (r + a % 2 ^ 16) / 2 ^ 16) := ⟨by omega, by omega⟩
  rw [int32_ok h₁, Exec.ok_bind, int32_ok h₂, Exec.ok_bind, int32_ok h₃, Exec.ok_bind, int32_ok h₄, Exec.ok_bind,
    int32_ok h₅]

theorem asInt32_decode_encode (h : Int32 x) : asInt32 (o.decode (o.encode 4 (x % 2 ^ 32).toNat)) = x := by
  obtain ⟨h₁, h₂⟩ := h
  rw [ByteOrder.decode_encode (by omega), asInt32]
  split <;> omega

theorem addTo_eq (hk : k * 4 + 4 ≤ out.length) :
    addTo o out k t = int32 (word o out k + t) >>= fun s => Memory.store out (k * 4) (o.encode 4 (s % 2 ^ 32).toNat) := by
  rw [addTo, load_ok hk]
  rfl

theorem addTo_ok (hk : k * 4 + 4 ≤ out.length) (h : Int32 (word o out k + t)) : ∃ out', addTo o out k t = .ok out' := by
  have hroom : k * 4 + (o.encode 4 ((word o out k + t) % 2 ^ 32).toNat).length ≤ out.length := by
    rw [ByteOrder.length_encode]
    exact hk
  obtain ⟨out', hout, -⟩ := Memory.store_ok hroom
  exact ⟨out', by rw [addTo_eq hk, int32_ok h, Exec.ok_bind, hout]⟩

/-- What an addition leaves. -/
structure Added (o : ByteOrder) (out out' : List UInt8) (k : Nat) (t : Int) : Prop where
  int32 : Int32 (word o out k + t)
  length : out'.length = out.length
  word : ∀ p, word o out' p = if p = k then word o out k + t else word o out p

theorem addTo_added (hk : k * 4 + 4 ≤ out.length) (h : addTo o out k t = .ok out') : Added o out out' k t := by
  rw [addTo_eq hk, Exec.bind_eq_ok] at h
  obtain ⟨s, hs, h⟩ := h
  obtain ⟨hint, rfl⟩ := int32_eq_ok.1 hs
  have hstored := store_eq_ok.1 h
  refine ⟨hint, hstored.length, fun p => ?_⟩
  rw [Mix.word, item_of_stored hstored ByteOrder.length_encode]
  split
  · exact asInt32_decode_encode hint
  · rfl

end

/-! ### Sums -/

/-- All the sums of a beginning of the list fit 32 bits, from `x` on. -/
def SumsFit : Int → List Int → Prop
  | _, [] => True
  | x, t :: ts => Int32 (x + t) ∧ SumsFit (x + t) ts

instance : (x : Int) → (ts : List Int) → Decidable (SumsFit x ts)
  | _, [] => .isTrue trivial
  | x, t :: ts =>
    have := instDecidableSumsFit (x + t) ts
    inferInstanceAs (Decidable (_ ∧ _))

/-- The terms that are added to `p`, in their order. -/
def terms (l : List (Nat × Int)) (p : Nat) : List Int := (l.filter fun e => e.1 = p).map (·.2)

section
variable {o : ByteOrder} {l : List (Nat × Int)} {out out' : List UInt8} {p : Nat}

theorem terms_cons (e : Nat × Int) (l : List (Nat × Int)) (p : Nat) :
    terms (e :: l) p = if p = e.1 then e.2 :: terms l p else terms l p := by
  unfold terms
  by_cases h : p = e.1
  · rw [if_pos h, List.filter_cons_of_pos (by simp [h]), List.map_cons]
  · rw [if_neg h, List.filter_cons_of_neg (by simpa using Ne.symm h)]

/-- The additions of a list. -/
def addAll (o : ByteOrder) (l : List (Nat × Int)) (out : List UInt8) : Exec (List UInt8) :=
  l.foldlM (fun out e => addTo o out e.1 e.2) out

theorem addAll_cons (e : Nat × Int) : addAll o (e :: l) out = addTo o out e.1 e.2 >>= addAll o l := List.foldlM_cons

/-- They all succeed if no sum leaves the 32 bits. -/
theorem addAll_ok (hl : ∀ e ∈ l, e.1 * 4 + 4 ≤ out.length) (h : ∀ p, SumsFit (word o out p) (terms l p)) :
    ∃ out', addAll o l out = .ok out' := by
  induction l generalizing out with
  | nil => exact ⟨out, rfl⟩
  | cons e l ih =>
    have he := hl e (by simp)
    have hfirst := h e.1
    rw [terms_cons, if_pos rfl] at hfirst
    obtain ⟨out₁, hout₁⟩ := addTo_ok he hfirst.1
    have hadded := addTo_added he hout₁
    rw [addAll_cons, hout₁, Exec.ok_bind]
    refine ih (fun e' he' => ?_) fun p => ?_
    · rw [hadded.length]
      exact hl e' (by simp [he'])
    · rw [hadded.word]
      split
      · rename_i hp
        rw [hp]
        exact hfirst.2
      · rename_i hp
        have := h p
        rwa [terms_cons, if_neg hp] at this

theorem addAll_sums (hl : ∀ e ∈ l, e.1 * 4 + 4 ≤ out.length) (h : addAll o l out = .ok out') :
    out'.length = out.length ∧
      ∀ p, SumsFit (word o out p) (terms l p) ∧ word o out' p = word o out p + (terms l p).sum := by
  induction l generalizing out with
  | nil =>
    cases h
    refine ⟨rfl, fun p => ⟨trivial, ?_⟩⟩
    simp [terms]
  | cons e l ih =>
    have he := hl e (by simp)
    rw [addAll_cons, Exec.bind_eq_ok] at h
    obtain ⟨out₁, hout₁, h⟩ := h
    have hadded := addTo_added he hout₁
    obtain ⟨hlen, hsums⟩ := ih (fun e' he' => by rw [hadded.length]; exact hl e' (by simp [he'])) h
    refine ⟨hlen.trans hadded.length, fun p => ?_⟩
    obtain ⟨hfit, hword⟩ := hsums p
    rw [terms_cons]
    rw [hadded.word] at hfit hword
    by_cases hp : p = e.1
    · rw [if_pos hp] at hfit hword ⊢
      rw [hp] at hword hfit ⊢
      refine ⟨⟨hadded.int32, hfit⟩, ?_⟩
      rw [hword, List.sum_cons]
      ring
    · rw [if_neg hp] at hfit hword ⊢
      exact ⟨hfit, hword⟩

end

/-! ### The accesses -/

namespace Input
variable (o : ByteOrder) (x : Input) (numTracks : Nat)

/-- The pairs of a sample of the input and one of the output, in the order of the loops. -/
def accesses : List (Nat × Nat) :=
  if x.input.numTracks ≠ 0 then
    (List.range x.flowEl.minibufSamples).flatMap fun i => (x.input.inTrack.zip x.input.outTrack).map fun t =>
      (i * x.component.numTracks + t.1, i * numTracks + t.2)
  else (List.range (x.flowEl.minibufSamples * numTracks)).map fun i => (i, i)

/-- What the input adds, and where. -/
def entries : List (Nat × Int) := (x.accesses numTracks).map fun a =>
  (a.2, (sample o x.flowEl.minibuf a.1 * x.input.multiplyConstant + x.input.addConstant) / 2 ^ 16)

/-- The constants are `AuInt32` values, there are as many tracks as the input says, and the accesses are inside the two
minibuffers, of which that of the output has that many bytes. -/
structure Valid (bytes : Nat) : Prop where
  multiplyConstant : Int32 x.input.multiplyConstant
  addConstant : Int32 x.input.addConstant
  inTrack : x.input.inTrack.length = x.input.numTracks
  outTrack : x.input.outTrack.length = x.input.numTracks
  accesses : ∀ a ∈ x.accesses numTracks, a.1 * 2 + 2 ≤ x.flowEl.minibuf.length ∧ a.2 * 4 + 4 ≤ bytes
  samples : x.flowEl.minibufSamples * numTracks * 4 ≤ bytes

variable {o x numTracks} {out out' : List UInt8} {n : Nat}

theorem accumulateSample_eq (h : x.Valid numTracks n) {a : Nat × Nat} (ha : a ∈ x.accesses numTracks) (out : List UInt8) :
    accumulateSample o x out a.1 a.2 = addTo o out a.2
      ((sample o x.flowEl.minibuf a.1 * x.input.multiplyConstant + x.input.addConstant) / 2 ^ 16) := by
  have hload := (h.accesses a ha).1
  have hv : (slice x.flowEl.minibuf (a.1 * 2) (a.1 * 2 + 2)).length = 2 := by
    rw [length_slice hload]
    omega
  have hrange := asInt16_range (decode_two_lt (o := o) hv)
  rw [accumulateSample, load_ok hload, Exec.ok_bind, scale_eq hrange h.multiplyConstant h.addConstant, Exec.ok_bind]
  rfl

/-- The loop over the tracks. -/
theorem foldlM_tracks {xs ys : List Nat} (hxs : xs.length = n) (hys : ys.length = n)
    (f : List UInt8 → Nat → Nat → Exec (List UInt8)) (out : List UInt8) :
    (List.range n).foldlM (fun out j => do
        let a ← Exec.deref xs[j]?
        let b ← Exec.deref ys[j]?
        f out a b) out = (xs.zip ys).foldlM (fun out t => f out t.1 t.2) out := by
  have hpairs : (List.range n).map (fun j => (xs[j]?, ys[j]?)) = (xs.zip ys).map fun t => (some t.1, some t.2) := by
    refine List.ext_getElem (by simp [hxs, hys]) fun j hj hj' => ?_
    have hjn : j < n := by simpa using hj
    simp [hxs, hys, hjn]
  have hloop : ((List.range n).map fun j => (xs[j]?, ys[j]?)).foldlM (fun out p => do
      let a ← Exec.deref p.1
      let b ← Exec.deref p.2
      f out a b) out = (xs.zip ys).foldlM (fun out t => f out t.1 t.2) out := by
    rw [hpairs, List.foldlM_map]
    rfl
  rw [← hloop, List.foldlM_map]

theorem accumulateOutput_eq_foldlM (h : x.Valid numTracks n) (out : List UInt8) :
    accumulateOutput o x numTracks out =
      (x.accesses numTracks).foldlM (fun out a => accumulateSample o x out a.1 a.2) out := by
  unfold accumulateOutput Input.accesses
  split
  · rw [Exec.foldlM_flatMap]
    refine Exec.foldlM_congr (fun i _ out => ?_) out
    rw [List.foldlM_map]
    exact foldlM_tracks h.inTrack h.outTrack
      (fun out a b => accumulateSample o x out (i * x.component.numTracks + a) (i * numTracks + b)) out
  · rw [List.foldlM_map]

theorem accumulateOutput_eq (h : x.Valid numTracks n) (out : List UInt8) :
    accumulateOutput o x numTracks out = addAll o (x.entries o numTracks) out := by
  rw [accumulateOutput_eq_foldlM h, addAll, entries, List.foldlM_map]
  exact Exec.foldlM_congr (fun a ha out => accumulateSample_eq h ha out) out

end Input

/-! ### A tick -/

section
variable {o : ByteOrder} {numTracks n samples samples' : Nat} {inputs : List Input} {out out' : List UInt8}

/-- The inputs that are started. -/
def started (inputs : List Input) : List Input := inputs.filter fun x => x.flowEl.state = auStateStart

/-- What they add. -/
def allEntries (o : ByteOrder) (numTracks : Nat) (inputs : List Input) : List (Nat × Int) :=
  (started inputs).flatMap fun x => x.entries o numTracks

/-- The `minibufSamples` of the output. -/
def maxSamples (inputs : List Input) : Nat := ((started inputs).map fun x => x.flowEl.minibufSamples).foldr max 0

theorem accumulateInputs_eq (h : ∀ x ∈ inputs, x.Valid numTracks n) (samples : Nat) (out : List UInt8) :
    accumulateInputs o numTracks inputs samples out =
      (fun out => (max samples (maxSamples inputs), out)) <$> addAll o (allEntries o numTracks inputs) out := by
  induction inputs generalizing samples out with
  | nil => simp [accumulateInputs, maxSamples, started, allEntries, addAll, pure, Except.pure]
  | cons x inputs ih =>
    have hx := h x (by simp)
    have ih := fun samples out => ih (fun y hy => h y (by simp [hy])) samples out
    unfold accumulateInputs at ih ⊢
    rw [List.foldlM_cons]
    dsimp only
    by_cases hstart : x.flowEl.state = auStateStart
    · have hstarted : started (x :: inputs) = x :: started inputs := List.filter_cons_of_pos (by simp [hstart])
      have hentries : allEntries o numTracks (x :: inputs) = x.entries o numTracks ++ allEntries o numTracks inputs := by
        rw [allEntries, hstarted, List.flatMap_cons, allEntries]
      have hmax : maxSamples (x :: inputs) = max x.flowEl.minibufSamples (maxSamples inputs) := by
        rw [maxSamples, hstarted, List.map_cons, List.foldr_cons, maxSamples]
      rw [if_pos hstart, Input.accumulateOutput_eq hx, hentries, hmax]
      have happend : addAll o (x.entries o numTracks ++ allEntries o numTracks inputs) out =
          addAll o (x.entries o numTracks) out >>= addAll o (allEntries o numTracks inputs) := List.foldlM_append
      rw [happend]
      rcases hadd : addAll o (x.entries o numTracks) out with e | out₁
      · rfl
      · rw [Exec.ok_bind, Exec.ok_bind, Exec.ok_bind, ih, max_assoc]
    · have hstarted : started (x :: inputs) = started inputs := List.filter_cons_of_neg (by simp [hstart])
      rw [if_neg hstart, Exec.ok_bind, ih, maxSamples, maxSamples, allEntries, allEntries, hstarted]

theorem maxSamples_le (h : ∀ x ∈ inputs, x.flowEl.minibufSamples * numTracks * 4 ≤ n) :
    maxSamples inputs * numTracks * 4 ≤ n := by
  have hmax : ∀ l : List Input, (∀ x ∈ l, x.flowEl.minibufSamples * numTracks * 4 ≤ n) →
      (l.map fun x => x.flowEl.minibufSamples).foldr max 0 * numTracks * 4 ≤ n := by
    intro l hl
    induction l with
    | nil => simp
    | cons x l ih =>
      rw [List.map_cons, List.foldr_cons]
      rcases Nat.le_total x.flowEl.minibufSamples ((l.map fun x => x.flowEl.minibufSamples).foldr max 0) with hle | hle
      · rw [max_eq_right hle]
        exact ih fun y hy => hl y (by simp [hy])
      · rw [max_eq_left hle]
        exact hl x (by simp)
  exact hmax _ fun x hx => h x (List.mem_filter.1 hx).1

/-! ### Clipping -/

theorem clip_eq (s : Int) : clip s = max (-2 ^ 15) (min (2 ^ 15 - 1) s) := by
  unfold clip
  split_ifs <;> omega

theorem clipItem_converts : InPlace.Converts (clipItem o) 4 2 := fun _ _ => ByteOrder.length_encode

theorem asInt16_clipItem (x : List UInt8) : asInt16 (o.decode (clipItem o x)) = clip (asInt32 (o.decode x)) := by
  generalize hs : asInt32 (o.decode x) = s
  rw [clipItem, hs, ByteOrder.decode_encode (by omega), asInt16, toInt16_eq _ (by omega), clip_eq]
  split <;> omega

theorem clipOutput_eq (h : samples * numTracks * 4 ≤ out.length) :
    ∃ m, clipOutput o numTracks samples out = .ok m ∧ ∀ p < samples * numTracks, sample o m p = clip (word o out p) := by
  refine ⟨_, forward_eq clipItem_converts (by decide) h, fun p hp => ?_⟩
  rw [sample, item_convertAll clipItem_converts h hp, asInt16_clipItem]
  rfl

theorem word_zero (p : Nat) : word o (List.replicate n 0) p = 0 := by
  have hvalue : ∀ k, valueOf (List.replicate k 0) = 0 := by
    intro k
    induction k with
    | zero => rfl
    | succ k ih => simp [List.replicate_succ, valueOf, ih]
  have hdecode : ∀ k, o.decode (List.replicate k 0) = 0 := by
    intro k
    cases o <;> simp [ByteOrder.decode, hvalue]
  rw [word, item, slice, List.take_replicate, List.drop_replicate, hdecode]
  rfl

end

/-! ### An output and its inputs -/

/-- The component of an output that is started, with its inputs. -/
structure Output where
  component : Component
  inputs : List Input
  valid : ∀ x ∈ inputs, x.Valid component.numTracks (component.minibufSize * 2)

namespace Output
variable (o : ByteOrder) (b : Output)

/-- `⌊(v * m + a) / 65536⌋` of the samples that are mixed to sample `p`, in the order of the inputs. -/
def terms (p : Nat) : List Int := Mix.terms (allEntries o b.component.numTracks b.inputs) p

/-- No value of the tick leaves its type, and the samples are the sums, clamped. -/
def Saturates : Prop := ∃ m, mixOutput o b.component b.inputs = .ok (maxSamples b.inputs, m) ∧
  ∀ p < maxSamples b.inputs * b.component.numTracks, sample o m p = max (-2 ^ 15) (min (2 ^ 15 - 1) (b.terms o p).sum)

variable {b}

theorem entries_inside {e : Nat × Int} (he : e ∈ allEntries o b.component.numTracks b.inputs) :
    e.1 * 4 + 4 ≤ b.component.minibufSize * 2 := by
  obtain ⟨x, hx, he⟩ := List.mem_flatMap.1 he
  obtain ⟨a, ha, rfl⟩ := List.mem_map.1 he
  exact ((b.valid x (List.mem_filter.1 hx).1).accesses a ha).2

/-- One sum of 16 bit samples times 32 bit constants can be as large as 2^30 in 32 bits, so that it takes only two inputs
to get out of them: mixing saturates if every sum on the way fits. -/
theorem saturates_iff (b : Output) : b.Saturates o ↔ ∀ p, SumsFit 0 (b.terms o p) := by
  have hinside : ∀ e ∈ allEntries o b.component.numTracks b.inputs,
      e.1 * 4 + 4 ≤ (List.replicate (b.component.minibufSize * 2) (0 : UInt8)).length := by
    intro e he
    rw [List.length_replicate]
    exact entries_inside o he
  have hmix : mixOutput o b.component b.inputs =
      addAll o (allEntries o b.component.numTracks b.inputs) (List.replicate (b.component.minibufSize * 2) 0) >>=
        fun out => clipOutput o b.component.numTracks (maxSamples b.inputs) out >>= fun m =>
          .ok (maxSamples b.inputs, m) := by
    rw [mixOutput, accumulateInputs_eq b.valid]
    rcases addAll o (allEntries o b.component.numTracks b.inputs)
      (List.replicate (b.component.minibufSize * 2) 0) with e | out
    · rfl
    · change clipOutput o b.component.numTracks (max 0 (maxSamples b.inputs)) out >>= _ = _
      rw [Nat.zero_max]
      rfl
  constructor
  · rintro ⟨m, hm, -⟩ p
    rw [hmix, Exec.bind_eq_ok] at hm
    obtain ⟨out, hout, -⟩ := hm
    have := ((addAll_sums hinside hout).2 p).1
    rwa [word_zero] at this
  · intro h
    have hfit : ∀ p, SumsFit (word o (List.replicate (b.component.minibufSize * 2) 0) p) (b.terms o p) := by
      intro p
      rw [word_zero]
      exact h p
    obtain ⟨out, hout⟩ := addAll_ok hinside hfit
    obtain ⟨hlen, hsums⟩ := addAll_sums hinside hout
    have hroom : maxSamples b.inputs * b.component.numTracks * 4 ≤ out.length := by
      rw [hlen, List.length_replicate]
      exact maxSamples_le fun x hx => (b.valid x hx).samples
    obtain ⟨m, hm, hclip⟩ := clipOutput_eq (o := o) hroom
    refine ⟨m, ?_, fun p hp => ?_⟩
    · rw [hmix, hout, Exec.ok_bind, hm, Exec.ok_bind]
    · rw [hclip p hp, clip_eq, (hsums p).2, word_zero, Int.zero_add]
      rfl

end Output

/-- A mono input of one sample, -32768, with the constant -32768. -/
def loudInput : Input where
  input :=
    { component := 0, flowEl := ⟨0, 0, 0⟩, multiplyConstant := -2 ^ 31, addConstant := 0, numTracks := 0, inTrack := []
      outTrack := [] }
  component := { format := auNativeFormat, numTracks := 1, minibufSize := 2, bytesPerSample := 2 }
  flowEl :=
    { client := 0, raw := .sum [], elementNum := 0, state := auStateStart, isComponent := true, minibuf := [0x00, 0x80]
      minibufSamples := 1 }

theorem loudInput_valid : loudInput.Valid 1 4 where
  multiplyConstant := by decide
  addConstant := by decide
  inTrack := rfl
  outTrack := rfl
  accesses := by decide
  samples := by decide

/-- Two of them: their sum is 2^31. -/
def loudOutput : Output where
  component := { format := auNativeFormat, numTracks := 1, minibufSize := 2, bytesPerSample := 2 }
  inputs := [loudInput, loudInput]
  valid := by
    intro x hx
    rcases List.mem_cons.1 hx with rfl | hx
    · exact loudInput_valid
    · obtain rfl := List.mem_singleton.1 hx
      exact loudInput_valid

theorem not_saturated : ¬ ∀ o (b : Output), b.Saturates o := by
  intro h
  have hfit := (Output.saturates_iff .little loudOutput).1 (h _ _) 0
  revert hfit
  decide +kernel

end Mix

end Nas
