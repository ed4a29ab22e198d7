import Nas.Mix

/-!
# The two physical outputs

What a tick of `AuProcessFlow` does last for the mono and the stereo output of the voxware driver: `writeOutput`
clips and converts the sums in the minibuffer of a device in place, `writePhysicalOutputsBoth` puts the average
of both devices into the stereo minibuffer. It takes as many samples from each as the longer one has. What is
left of the shorter one's minibuffer is then not silence, but the rest of its sums (`leftValue`), and `Quiet`
says when that makes no difference (`mixesBoth_iff`).
-/

namespace Nas.PhysicalOutputs
open Mix InPlace Memory Nas.Convert

/-- A physical output of the server. -/
structure OutputDevice where
  numTracks : Nat
  minibufSamples : Nat
  minibuf : List UInt8
deriving DecidableEq, Repr

/-- The element of a flow for it, with what accumulating its inputs made of `minibufSamples`. -/
structure OutputElement where
  state : Nat
  minibufSamples : Nat
deriving DecidableEq, Repr

section
variable (format : AuFormat)

/-- `writeOutput`, with `writeDevice` as far as it changes the device. -/
def writeOutput (el : OutputElement) (c : OutputDevice) : Exec OutputDevice := do
  let m ← clipOutput .little c.numTracks el.minibufSamples c.minibuf
  let m ← Convert.fromNative .little format c.numTracks el.minibufSamples m
  .ok { c with minibuf := m, minibufSamples := el.minibufSamples }

/-- An output that is not started is not written. -/
def processOutput (el : OutputElement) (c : OutputDevice) : Exec OutputDevice :=
  if el.state = auStateStart then writeOutput format el c else .ok c

/-- `(x + y) / 2` of two `AuInt16` values -/
def averageSigned16 (x y : List UInt8) : List UInt8 :=
  ByteOrder.little.encode 2
    ((asInt16 (ByteOrder.little.decode x) + asInt16 (ByteOrder.little.decode y)).tdiv 2 % 2 ^ 16).toNat

/-- `(x + y) / 2` of two `AuUint8` values -/
def averageUnsigned8 (x y : List UInt8) : List UInt8 :=
  ByteOrder.little.encode 1 ((ByteOrder.little.decode x + ByteOrder.little.decode y) / 2)

/-- One round of a loop of `writePhysicalOutputsBoth`, over items of `w` bytes. -/
def mixFrame (w : Nat) (average : List UInt8 → List UInt8 → List UInt8) (mono : List UInt8) (i : Nat)
    (stereo : List UInt8) : Exec (List UInt8) := do
  let m ← load mono (i * w) w
  let s ← load stereo (2 * i * w) w
  let stereo ← Memory.store stereo (2 * i * w) (average m s)
  let m ← load mono (i * w) w
  let s ← load stereo ((2 * i + 1) * w) w
  Memory.store stereo ((2 * i + 1) * w) (average m s)

def mixFrames (w : Nat) (average : List UInt8 → List UInt8 → List UInt8) (mono : List UInt8) (frames : Nat)
    (stereo : List UInt8) : Exec (List UInt8) :=
  (List.range frames).foldlM (fun stereo i => mixFrame w average mono i stereo) stereo

/-- `writePhysicalOutputsBoth`, up to `writePhysicalOutputsStereo`. -/
def writePhysicalOutputsBoth (mono stereo : OutputDevice) : Exec OutputDevice := do
  let frames := max mono.minibufSamples stereo.minibufSamples
  let m ← match format with
    | .linearSigned16LSB => mixFrames 2 averageSigned16 mono.minibuf frames stereo.minibuf
    | .linearUnsigned8 => mixFrames 1 averageUnsigned8 mono.minibuf frames stereo.minibuf
    | _ => .error .fault
  .ok { stereo with minibuf := m, minibufSamples := frames }

/-- A tick, from when the inputs are accumulated. -/
def writeOutputs (monoEl stereoEl : OutputElement) (mono stereo : OutputDevice) : Exec OutputDevice := do
  let mono ← processOutput format monoEl mono
  let stereo ← processOutput format stereoEl stereo
  writePhysicalOutputsBoth format mono stereo

/-! ### Values -/

/-- A device's sample as a number. -/
def value (m : List UInt8) (k : Nat) : Int :=
  match format with
  | .linearUnsigned8 => ByteOrder.little.decode (item 1 m k)
  | _ => sample .little m k

/-- A native sample in the format. -/
def ofNative (v : Int) : Int :=
  match format with
  | .linearUnsigned8 => (v + 2 ^ 15) / 2 ^ 8
  | _ => v

def silence : Int := ofNative format 0

/-- The sample that is made of a sum. -/
def made (m : List UInt8) (k : Nat) : Int := ofNative format (clip (word .little m k))

/-- What is found in place of sample `k` when there are only `n`. In the 16 bit format that is half of a sum,
in the 8 bit format half of a clipped sum or, behind these, a byte of a sum. -/
def leftValue (m : List UInt8) (n k : Nat) : Int :=
  match format with
  | .linearUnsigned8 =>
    if k < 2 * n then clip (word .little m (k / 2)) / 256 ^ (k % 2) % 256 else ByteOrder.little.decode (item 1 m k)
  | _ => sample .little m k

def average (x y : Int) : Int := (x + y).tdiv 2

end

/-- How many samples an element has made. -/
def OutputElement.samples (el : OutputElement) : Nat := if el.state = auStateStart then el.minibufSamples else 0

/-- Both outputs, before their elements are processed. What is in the minibuffers may be anything. -/
structure Outputs where
  format : AuFormat
  auMinibufSamples : Nat
  monoEl : OutputElement
  stereoEl : OutputElement
  mono : OutputDevice
  stereo : OutputDevice
  format_ok : format = .linearSigned16LSB ∨ format = .linearUnsigned8
  tracks : mono.numTracks = 1 ∧ stereo.numTracks = 2
  room : mono.minibuf.length = auMinibufSamples * 4 ∧ stereo.minibuf.length = auMinibufSamples * 8
  mono_le : monoEl.minibufSamples ≤ auMinibufSamples ∧ mono.minibufSamples ≤ auMinibufSamples
  stereo_le : stereoEl.minibufSamples ≤ auMinibufSamples ∧ stereo.minibufSamples ≤ auMinibufSamples

namespace Outputs
variable (b : Outputs)

/-- How many samples are to be heard. -/
def samples : Nat := max b.monoEl.samples b.stereoEl.samples

def monoSample (i : Nat) : Int :=
  if i < b.monoEl.samples then made b.format b.mono.minibuf i else silence b.format

/-- Of the left track `j` is 0, of the right one 1. -/
def stereoSample (i j : Nat) : Int :=
  if i < b.stereoEl.samples then made b.format b.stereo.minibuf (2 * i + j) else silence b.format

/-- Both tracks are the average with mono, where an output that has no sample is silent. -/
def MixesBoth : Prop := ∃ c, writeOutputs b.format b.monoEl b.stereoEl b.mono b.stereo = .ok c ∧
  ∀ i < b.samples, ∀ j < 2, value b.format c.minibuf (2 * i + j) = average (b.monoSample i) (b.stereoSample i j)

/-- Behind the samples of the output that has fewer, what is left sounds like silence beside the other one. -/
def Quiet : Prop := ∀ i < b.samples, ∀ j < 2,
  (b.monoEl.samples ≤ i →
    average (leftValue b.format b.mono.minibuf b.monoEl.samples i) (b.stereoSample i j) =
      average (silence b.format) (b.stereoSample i j)) ∧
  (b.stereoEl.samples ≤ i →
    average (b.monoSample i) (leftValue b.format b.stereo.minibuf (b.stereoEl.samples * 2) (2 * i + j)) =
      average (b.monoSample i) (silence b.format))

end Outputs

/-! ### One output -/

variable {format : AuFormat} {el : OutputElement} {c : OutputDevice} {mono stereo m : List UInt8} {i k n w : Nat}
  {f : List UInt8 → List UInt8 → List UInt8}

/-- A byte of a clipped sample. -/
theorem decode_clipItem_byte (x : List UInt8) {e : Nat} (he : e < 2) :
    (ByteOrder.little.decode (((clipItem .little x).drop e).take 1) : Int) =
      clip (asInt32 (ByteOrder.little.decode x)) / 256 ^ e % 256 := by
  have hclip := clip_eq (asInt32 (ByteOrder.little.decode x))
  rw [clipItem, encode_little]
  generalize clip (asInt32 (ByteOrder.little.decode x)) = v at hclip
  obtain rfl | rfl : e = 0 ∨ e = 1 := by omega
  · rw [List.drop_zero, List.take_cons Nat.one_pos, List.take_zero, decode_one, UInt8.toNat_ofNat']
    omega
  · rw [List.drop_one, List.tail_cons, List.take_cons Nat.one_pos, List.take_zero, decode_one, UInt8.toNat_ofNat']
    omega

/-- The 8 bit sample of a clipped one. -/
theorem decode_unsigned8 (x : List UInt8) :
    (ByteOrder.little.decode (fromNativeSample .little .linearUnsigned8 (clipItem .little x)) : Int) =
      (clip (asInt32 (ByteOrder.little.decode x)) + 2 ^ 15) / 2 ^ 8 := by
  have hclip := clip_eq (asInt32 (ByteOrder.little.decode x))
  rw [fromNativeSample, onValues, clipItem]
  generalize clip (asInt32 (ByteOrder.little.decode x)) = v at hclip
  have hinner : ByteOrder.little.decode (ByteOrder.little.encode 2 (v % 2 ^ 16).toNat) = (v % 2 ^ 16).toNat :=
    ByteOrder.decode_encode (by omega)
  rw [hinner, xor_sign (by omega), Nat.shiftRight_eq_div_pow, ByteOrder.decode_encode (by omega)]
  omega

/-- What `writeOutput` makes of a minibuffer. -/
theorem writeOutput_value (hf : format = .linearSigned16LSB ∨ format = .linearUnsigned8)
    (h : el.minibufSamples * c.numTracks * 4 ≤ c.minibuf.length) :
    ∃ m, writeOutput format el c = .ok { c with minibuf := m, minibufSamples := el.minibufSamples } ∧
      m.length = c.minibuf.length ∧ ∀ k, value format m k =
        if k < el.minibufSamples * c.numTracks then made format c.minibuf k
        else leftValue format c.minibuf (el.minibufSamples * c.numTracks) k := by
  generalize hn : el.minibufSamples * c.numTracks = n at h
  have hclip : clipOutput .little c.numTracks el.minibufSamples c.minibuf =
      .ok (convertAll (clipItem .little) 4 2 n c.minibuf) := by
    rw [clipOutput, hn]
    exact forward_eq clipItem_converts (by decide) h
  have hlen := length_convertAll (clipItem_converts (o := .little)) h (by omega)
  have hitem : ∀ k < n, item 2 (convertAll (clipItem .little) 4 2 n c.minibuf) k = clipItem .little (item 4 c.minibuf k) :=
    fun k hk => item_convertAll clipItem_converts h hk
  generalize hm : convertAll (clipItem .little) 4 2 n c.minibuf = m at hclip hlen hitem
  have hsecond : n * 2 ≤ m.length := by omega
  rcases hf with rfl | rfl
  · -- native already
    have hconv : InPlace.Converts (fromNativeSample .little .linearSigned16LSB) 2 2 := (length_converted .linearSigned16LSB).2.1
    refine ⟨convertAll (fromNativeSample .little .linearSigned16LSB) 2 2 n m, ?_, ?_, fun k => ?_⟩
    · rw [writeOutput, hclip, Exec.ok_bind]
      show forward _ 2 2 (el.minibufSamples * c.numTracks) 0 m >>= _ = _
      rw [hn, forward_eq hconv le_rfl hsecond]
      rfl
    · rw [length_convertAll hconv hsecond hsecond, hlen]
    · show sample .little _ k = _
      split
      · rename_i hk
        rw [sample, item_convertAll hconv hsecond hk, hitem k hk]
        exact asInt16_clipItem _
      · rename_i hk
        have hk' : n * 2 ≤ k * 2 := by omega
        rw [sample, item, slice_convertAll hconv hsecond hk', ← hm, slice_convertAll clipItem_converts h hk']
        rfl
  · have hconv : InPlace.Converts (fromNativeSample .little .linearUnsigned8) 2 1 := (length_converted .linearUnsigned8).2.1
    refine ⟨convertAll (fromNativeSample .little .linearUnsigned8) 2 1 n m, ?_, ?_, fun k => ?_⟩
    · rw [writeOutput, hclip, Exec.ok_bind]
      show forward _ 2 1 (el.minibufSamples * c.numTracks) 0 m >>= _ = _
      rw [hn, forward_eq hconv (by decide) hsecond]
      rfl
    · rw [length_convertAll hconv hsecond (by omega), hlen]
    · show (ByteOrder.little.decode (item 1 _ k) : Int) = _
      split
      · rename_i hk
        rw [item_convertAll hconv hsecond hk, hitem k hk]
        exact decode_unsigned8 _
      · rename_i hk
        rw [item, slice_convertAll hconv hsecond (by omega : n * 1 ≤ k * 1)]
        show (ByteOrder.little.decode (item 1 m k) : Int) = if k < 2 * n then _ else _
        split
        · rename_i hk2
          rw [item_one_of_two, hitem (k / 2) (by omega)]
          exact decode_clipItem_byte _ (Nat.mod_lt k (by decide))
        · rename_i hk2
          rw [item, ← hm, slice_convertAll clipItem_converts h (by omega)]
          rfl

/-- The same of an output that may be stopped. -/
theorem processOutput_value (hf : format = .linearSigned16LSB ∨ format = .linearUnsigned8)
    (h : el.minibufSamples * c.numTracks * 4 ≤ c.minibuf.length) :
    ∃ c', processOutput format el c = .ok c' ∧ c'.minibuf.length = c.minibuf.length ∧
      c'.minibufSamples = (if el.state = auStateStart then el.minibufSamples else c.minibufSamples) ∧
      ∀ k, value format c'.minibuf k =
        if k < el.samples * c.numTracks then made format c.minibuf k
        else leftValue format c.minibuf (el.samples * c.numTracks) k := by
  rw [processOutput, OutputElement.samples]
  split
  · obtain ⟨m, he, hlen, hvalue⟩ := writeOutput_value hf h
    exact ⟨_, he, hlen, rfl, hvalue⟩
  · refine ⟨c, rfl, rfl, rfl, fun k => ?_⟩
    rw [Nat.zero_mul, if_neg (Nat.not_lt_zero k)]
    rcases hf with rfl | rfl
    · rfl
    · unfold value leftValue
      dsimp only
      rw [if_neg (by omega)]

/-! ### Both outputs -/

/-- One round changes the two samples of its frame. -/
theorem mixFrame_items (hf : ∀ x y, (f x y).length = w) (hm : i * w + w ≤ mono.length)
    (hs : (2 * i + 2) * w ≤ stereo.length) :
    ∃ s, mixFrame w f mono i stereo = .ok s ∧ s.length = stereo.length ∧
      ∀ k, item w s k = if k / 2 = i then f (item w mono i) (item w stereo k) else item w stereo k := by
  have h₂ : (2 * i + 2) * w = 2 * i * w + w + w := by ring
  have h₁ : (2 * i + 1) * w = 2 * i * w + w := by ring
  have hload : load mono (i * w) w = .ok (item w mono i) := Memory.load_ok hm
  obtain ⟨s₁, he₁, hst₁⟩ : ∃ m, Memory.store stereo (2 * i * w) (f (item w mono i) (item w stereo (2 * i))) = .ok m ∧ _ :=
    Memory.store_ok (by rw [hf]; omega)
  obtain ⟨s₂, he₂, hst₂⟩ : ∃ m, Memory.store s₁ ((2 * i + 1) * w) (f (item w mono i) (item w s₁ (2 * i + 1))) = .ok m ∧ _ :=
    Memory.store_ok (by rw [hf, hst₁.length]; omega)
  refine ⟨s₂, ?_, hst₂.length.trans hst₁.length, fun k => ?_⟩
  · rw [mixFrame, hload, Exec.ok_bind, Memory.load_ok (by omega : 2 * i * w + w ≤ stereo.length), Exec.ok_bind]
    show Memory.store stereo (2 * i * w) (f (item w mono i) (item w stereo (2 * i))) >>= _ = _
    rw [he₁, Exec.ok_bind, Exec.ok_bind, Memory.load_ok (by rw [hst₁.length]; omega : (2 * i + 1) * w + w ≤ s₁.length), Exec.ok_bind]
    exact he₂
  · have hk₁ := item_of_stored hst₁ (hf _ _)
    rw [item_of_stored hst₂ (hf _ _), hk₁, hk₁]
    rcases Nat.mod_two_eq_zero_or_one k with hmod | hmod
    · by_cases hk : k / 2 = i
      · rw [if_neg (by omega), if_pos (by omega), if_pos hk, show k = 2 * i by omega]
      · rw [if_neg (by omega), if_neg (by omega), if_neg hk]
    · by_cases hk : k / 2 = i
      · rw [if_pos (by omega), if_neg (by omega), if_pos hk, show k = 2 * i + 1 by omega]
      · rw [if_neg (by omega), if_neg (by omega), if_neg hk]

theorem mixFrames_items (hf : ∀ x y, (f x y).length = w) (hm : n * w ≤ mono.length) (hs : 2 * n * w ≤ stereo.length) :
    ∃ s, mixFrames w f mono n stereo = .ok s ∧ s.length = stereo.length ∧
      ∀ k, item w s k = if k / 2 < n then f (item w mono (k / 2)) (item w stereo k) else item w stereo k := by
  induction n with
  | zero => exact ⟨stereo, rfl, rfl, fun k => by rw [if_neg (Nat.not_lt_zero _)]⟩
  | succ n ih =>
    have h₁ : (n + 1) * w = n * w + w := Nat.succ_mul n w
    have h₂ : 2 * (n + 1) * w = 2 * n * w + w + w := by ring
    have h₃ : (2 * n + 2) * w = 2 * n * w + w + w := by ring
    obtain ⟨s, he, hlen, hitems⟩ := ih (by omega) (by omega)
    obtain ⟨s', he', hlen', hitems'⟩ := mixFrame_items hf
      (show n * w + w ≤ mono.length by omega) (show (2 * n + 2) * w ≤ s.length by omega)
    refine ⟨s', ?_, hlen'.trans hlen, fun k => ?_⟩
    · unfold mixFrames at he ⊢
      rw [List.range_succ, List.foldlM_append, he, Exec.ok_bind, List.foldlM_cons, he', Exec.ok_bind]
      rfl
    · rw [hitems', hitems]
      rcases Nat.lt_trichotomy (k / 2) n with hlt | heq | hgt
      · rw [if_neg (by omega), if_pos hlt, if_pos (by omega)]
      · rw [if_pos heq, if_neg (by omega), if_pos (by omega), heq]
      · rw [if_neg (by omega), if_neg (by omega), if_neg (by omega)]

theorem tdiv_two (t : Int) : t.tdiv 2 = if 0 ≤ t then t / 2 else -(-t / 2) := by
  split
  · rename_i ht
    exact Int.tdiv_eq_ediv_of_nonneg ht
  · rename_i ht
    rw [← Int.tdiv_eq_ediv_of_nonneg (by omega), Int.neg_tdiv, Int.neg_neg]

theorem averageSigned16_value {x y : List UInt8} (hx : x.length = 2) (hy : y.length = 2) :
    asInt16 (ByteOrder.little.decode (averageSigned16 x y)) =
      average (asInt16 (ByteOrder.little.decode x)) (asInt16 (ByteOrder.little.decode y)) := by
  obtain ⟨hx₁, hx₂⟩ := asInt16_range (decode_two_lt hx (o := .little))
  obtain ⟨hy₁, hy₂⟩ := asInt16_range (decode_two_lt hy (o := .little))
  rw [averageSigned16, average]
  generalize asInt16 (ByteOrder.little.decode x) = a at hx₁ hx₂
  generalize asInt16 (ByteOrder.little.decode y) = b at hy₁ hy₂
  have hlow : -2 ^ 15 ≤ (a + b).tdiv 2 := by
    rw [tdiv_two]
    split <;> omega
  have hhigh : (a + b).tdiv 2 < 2 ^ 15 := by
    rw [tdiv_two]
    split <;> omega
  generalize (a + b).tdiv 2 = t at hlow hhigh
  rw [ByteOrder.decode_encode (by omega), asInt16, toInt16_eq _ (by omega)]
  split <;> omega

theorem averageUnsigned8_value {x y : List UInt8} (hx : x.length = 1) (hy : y.length = 1) :
    (ByteOrder.little.decode (averageUnsigned8 x y) : Int) =
      average (ByteOrder.little.decode x) (ByteOrder.little.decode y) := by
  have hx := ByteOrder.decode_lt hx (o := .little)
  have hy := ByteOrder.decode_lt hy (o := .little)
  rw [averageUnsigned8, average, ByteOrder.decode_encode (by omega), tdiv_two, if_pos (by omega)]
  omega

/-- What `writePhysicalOutputsBoth` makes of the samples. -/
theorem writePhysicalOutputsBoth_value {a b : OutputDevice} (hf : format = .linearSigned16LSB ∨ format = .linearUnsigned8)
    (ha : max a.minibufSamples b.minibufSamples * 2 ≤ a.minibuf.length)
    (hb : max a.minibufSamples b.minibufSamples * 4 ≤ b.minibuf.length) :
    ∃ c, writePhysicalOutputsBoth format a b = .ok c ∧ c.minibufSamples = max a.minibufSamples b.minibufSamples ∧
      ∀ k, k / 2 < max a.minibufSamples b.minibufSamples →
        value format c.minibuf k = average (value format a.minibuf (k / 2)) (value format b.minibuf k) := by
  generalize hn : max a.minibufSamples b.minibufSamples = n at ha hb
  rcases hf with rfl | rfl
  · obtain ⟨s, he, -, hitems⟩ := mixFrames_items (f := averageSigned16) (fun _ _ => ByteOrder.length_encode)
      (show n * 2 ≤ a.minibuf.length by omega) (show 2 * n * 2 ≤ b.minibuf.length by omega)
    refine ⟨{ b with minibuf := s, minibufSamples := n }, ?_, rfl, fun k hk => ?_⟩
    · rw [writePhysicalOutputsBoth, hn]
      dsimp only
      rw [he, Exec.ok_bind]
    · show asInt16 (ByteOrder.little.decode (item 2 s k)) = _
      rw [hitems, if_pos hk]
      exact averageSigned16_value (length_item (by omega)) (length_item (by omega))
  · obtain ⟨s, he, -, hitems⟩ := mixFrames_items (f := averageUnsigned8) (fun _ _ => ByteOrder.length_encode)
      (show n * 1 ≤ a.minibuf.length by omega) (show 2 * n * 1 ≤ b.minibuf.length by omega)
    refine ⟨{ b with minibuf := s, minibufSamples := n }, ?_, rfl, fun k hk => ?_⟩
    · rw [writePhysicalOutputsBoth, hn]
      dsimp only
      rw [he, Exec.ok_bind]
    · show (ByteOrder.little.decode (item 1 s k) : Int) = _
      rw [hitems, if_pos hk]
      exact averageUnsigned8_value (length_item (by omega)) (length_item (by omega))

namespace Outputs
variable (b : Outputs)

/-- What a tick makes of the samples. -/
theorem writeOutputs_value : ∃ c, writeOutputs b.format b.monoEl b.stereoEl b.mono b.stereo = .ok c ∧
    ∀ i < b.samples, ∀ j < 2, value b.format c.minibuf (2 * i + j) = average
      (if i < b.monoEl.samples then b.monoSample i else leftValue b.format b.mono.minibuf b.monoEl.samples i)
      (if i < b.stereoEl.samples then b.stereoSample i j
        else leftValue b.format b.stereo.minibuf (b.stereoEl.samples * 2) (2 * i + j)) := by
  obtain ⟨hmono, hstereo⟩ := b.room
  obtain ⟨hm₁, hm₂⟩ := b.mono_le
  obtain ⟨hs₁, hs₂⟩ := b.stereo_le
  obtain ⟨a, ha, halen, hacount, havalue⟩ := processOutput_value b.format_ok
    (show b.monoEl.minibufSamples * b.mono.numTracks * 4 ≤ b.mono.minibuf.length by rw [b.tracks.1]; omega)
  obtain ⟨d, hd, hdlen, hdcount, hdvalue⟩ := processOutput_value b.format_ok
    (show b.stereoEl.minibufSamples * b.stereo.numTracks * 4 ≤ b.stereo.minibuf.length by rw [b.tracks.2]; omega)
  rw [b.tracks.1, Nat.mul_one] at havalue
  rw [b.tracks.2] at hdvalue
  have hale : a.minibufSamples ≤ b.auMinibufSamples := by rw [hacount]; split <;> assumption
  have hdle : d.minibufSamples ≤ b.auMinibufSamples := by rw [hdcount]; split <;> assumption
  have hmax : max a.minibufSamples d.minibufSamples ≤ b.auMinibufSamples := Nat.max_le.2 ⟨hale, hdle⟩
  have hsamples : b.samples ≤ max a.minibufSamples d.minibufSamples := by
    rw [samples, hacount, hdcount, OutputElement.samples, OutputElement.samples]
    split <;> split <;> omega
  obtain ⟨c, hc, -, hcvalue⟩ := writePhysicalOutputsBoth_value (a := a) (b := d) b.format_ok (by omega) (by omega)
  refine ⟨c, ?_, fun i hi j hj => ?_⟩
  · rw [writeOutputs, ha, Exec.ok_bind, hd, Exec.ok_bind, hc]
  · have hdiv : (2 * i + j) / 2 = i := by omega
    rw [hcvalue (2 * i + j) (by omega), hdiv, havalue, hdvalue]
    congr 1
    · split
      · rename_i h
        rw [monoSample, if_pos h]
      · rfl
    · by_cases h : i < b.stereoEl.samples
      · rw [if_pos (by omega), if_pos h, stereoSample, if_pos h]
      · rw [if_neg (by omega), if_neg h]

/-- The outputs are mixed as they should be exactly if what is left behind the shorter one is quiet. -/
theorem mixesBoth_iff : b.MixesBoth ↔ b.Quiet := by
  obtain ⟨c, hc, hvalue⟩ := b.writeOutputs_value
  have hiff : b.MixesBoth ↔ ∀ i < b.samples, ∀ j < 2,
      value b.format c.minibuf (2 * i + j) = average (b.monoSample i) (b.stereoSample i j) := by
    constructor
    · rintro ⟨c', hc', h⟩
      rw [hc] at hc'
      cases hc'
      exact h
    · exact fun h => ⟨c, hc, h⟩
  rw [hiff, Quiet]
  refine forall_congr' fun i => forall_congr' fun hi => forall_congr' fun j => forall_congr' fun hj => ?_
  rw [hvalue i hi j hj]
  have hmax : i < b.monoEl.samples ∨ i < b.stereoEl.samples := lt_max_iff.1 hi
  by_cases hm : i < b.monoEl.samples
  · by_cases hs : i < b.stereoEl.samples
    · rw [if_pos hm, if_pos hs]
      exact ⟨fun _ => ⟨fun hle => absurd hm (by omega), fun hle => absurd hs (by omega)⟩, fun _ => rfl⟩
    · rw [if_pos hm, if_neg hs, show b.stereoSample i j = silence b.format from if_neg hs]
      exact ⟨fun h => ⟨fun hle => absurd hm (by omega), fun _ => h⟩, fun h => h.2 (by omega)⟩
  · have hs : i < b.stereoEl.samples := hmax.resolve_left hm
    rw [if_neg hm, if_pos hs, show b.monoSample i = silence b.format from if_neg hm]
    exact ⟨fun h => ⟨fun _ => h, fun hle => absurd hs (by omega)⟩, fun h => h.1 (by omega)⟩

/-- Outputs of the same length are mixed whatever their minibuffers hold. -/
theorem quiet_of_eq (h : b.monoEl.samples = b.stereoEl.samples) : b.Quiet := by
  intro i hi j _
  have hi : i < b.monoEl.samples := by
    rw [samples, ← h, Nat.max_self] at hi
    exact hi
  exact ⟨fun hle => absurd hi (by omega), fun hle => absurd hi (by omega)⟩

end Outputs

/-- A sample of stereo and none of mono, whose minibuffer is clear. -/
def stereoOnly : Outputs where
  format := .linearUnsigned8
  auMinibufSamples := 1
  monoEl := { state := auStateStart, minibufSamples := 0 }
  stereoEl := { state := auStateStart, minibufSamples := 1 }
  mono := { numTracks := 1, minibufSamples := 0, minibuf := List.replicate 4 0 }
  stereo := { numTracks := 2, minibufSamples := 0, minibuf := List.replicate 8 0 }
  format_ok := .inr rfl
  tracks := ⟨rfl, rfl⟩
  room := ⟨rfl, rfl⟩
  mono_le := by decide
  stereo_le := by decide

/-- Zero is the lowest value of the 8 bit format, not silence. -/
theorem stereoOnly_not_mixed : ¬ stereoOnly.MixesBoth := by
  rintro ⟨c, hc, h⟩
  have hvalue := h 0 (by decide) 0 (by decide)
  have hc' : writeOutputs .linearUnsigned8 stereoOnly.monoEl stereoOnly.stereoEl stereoOnly.mono stereoOnly.stereo =
      .ok { stereoOnly.stereo with minibuf := [64, 64, 0, 0, 0, 0, 0, 0], minibufSamples := 1 } := by decide +kernel
  rw [show stereoOnly.format = .linearUnsigned8 from rfl, hc'] at hc
  cases hc
  exact absurd hvalue (by decide +kernel)

end Nas.PhysicalOutputs
