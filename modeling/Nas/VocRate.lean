import Nas.SoundRoundTrip

/-!
# The rate of a VOC file

A VOC file has the reciprocal of its rate, truncated to a whole number of microseconds, or of parts of one where it has
two tracks. What is read from it is the reciprocal of that, so it is not less than the rate that was written, and is the
rate that is read back when it is written itself.
-/

namespace Nas.SoundFile
open Stdio Turn

/-! ### Truncated reciprocals -/

section Reciprocal
variable {c r : Nat}

theorem le_reciprocal (h : 0 < c / r) : r ≤ c / (c / r) := by
  rw [Nat.le_div_iff_mul_le h]
  exact Nat.mul_div_le c r

/-- A reciprocal is the one of its own. -/
theorem reciprocal_reciprocal (h : 0 < c / r) (h' : 0 < r) : c / (c / (c / r)) = c / r := by
  refine Nat.le_antisymm ?_ ?_
  · exact Nat.div_le_div_left (le_reciprocal h) h'
  · rw [Nat.le_div_iff_mul_le (Nat.div_pos (Nat.div_le_self c r) h)]
    exact Nat.mul_div_le c (c / r)

end Reciprocal

/-! ### The rate that is read -/

variable {host : Host} {name : List UInt8} {s : NewSound} {blocks : List (List UInt8)}

/-- The rates whose time constant fits its field: one byte, or two where there are two tracks. -/
def RateFits (s : NewSound) : Prop :=
  s.numTracks = 1 ∧ 3892 ≤ s.sampleRate ∧ s.sampleRate ≤ 1000000 ∨
    s.numTracks = 2 ∧ 1954 ≤ s.sampleRate ∧ s.sampleRate ≤ 128000000

/-- The constant that is computed for the rate. -/
def timeConstant (s : NewSound) : Nat :=
  if s.numTracks = 2 then 65536 - 256000000 / (2 * s.sampleRate.toNat) else 256 - 1000000 / s.sampleRate.toNat

/-- The rate that a file has for the one it was written with. -/
def codedRate (s : NewSound) : Nat :=
  let c := if s.numTracks = 2 then 128000000 else 1000000
  c / (c / s.sampleRate.toNat)

/-- Where the reader takes the rate from: behind the head of the data block, or of the block for two tracks. -/
def rateBytes (s : NewSound) (file : List UInt8) : List UInt8 :=
  if s.numTracks = 2 then (file.drop (26 + (vocTextBlock s).length + 4)).take 2
  else (file.drop (26 + (vocTextBlock s).length + 4)).take 1

theorem RateFits.tracks (h : RateFits s) : s.numTracks = 1 ∨ s.numTracks = 2 := h.imp And.left And.left

theorem RateFits.rate (h : RateFits s) : 0 < s.sampleRate ∧ s.sampleRate < 2 ^ 31 := by
  unfold RateFits at h
  omega

theorem RateFits.quotient_pos (h : RateFits s) :
    0 < (if s.numTracks = 2 then 128000000 else 1000000) / s.sampleRate.toNat := by
  rcases h with ⟨ht, hlo, hhi⟩ | ⟨ht, hlo, hhi⟩
  · rw [if_neg (by omega)]
    exact Nat.div_pos (by omega) (by omega)
  · rw [if_pos ht]
    exact Nat.div_pos (by omega) (by omega)

theorem le_codedRate (h : RateFits s) : s.sampleRate ≤ codedRate s := by
  have hle := le_reciprocal h.quotient_pos
  have hrate := h.rate
  unfold codedRate
  dsimp only
  omega

/-- What `fputc` leaves of a small number. -/
theorem toNat_ofNat_asUint32 {x : Int} (h : 0 ≤ x ∧ x < 2 ^ 16) :
    (UInt8.ofNat (asUint32 x)).toNat = x.toNat % 256 := by
  rw [UInt8.toNat_ofNat']
  unfold asUint32
  omega

/-- The quotient that is stored for one track. -/
theorem RateFits.mono (h : RateFits s) (ht : ¬ s.numTracks = 2) :
    asUint32 s.sampleRate % 2 ^ 32 = s.sampleRate.toNat ∧ 0 < 1000000 / s.sampleRate.toNat ∧
      1000000 / s.sampleRate.toNat ≤ 256 := by
  have hrange : 3892 ≤ s.sampleRate ∧ s.sampleRate ≤ 1000000 := by
    unfold RateFits at h
    omega
  have hpos := h.quotient_pos
  rw [if_neg ht] at hpos
  refine ⟨by unfold asUint32; omega, hpos, Nat.le_of_lt_succ ?_⟩
  exact (Nat.div_lt_iff_lt_mul (by omega)).2 (by omega)

/-- The quotient that is stored for two tracks. -/
theorem RateFits.stereo (h : RateFits s) (ht : s.numTracks = 2) :
    asUint32 s.sampleRate * 2 % 2 ^ 32 = 2 * s.sampleRate.toNat ∧
      256000000 / (2 * s.sampleRate.toNat) = 128000000 / s.sampleRate.toNat ∧
      0 < 128000000 / s.sampleRate.toNat ∧ 128000000 / s.sampleRate.toNat < 65536 := by
  have hrange : 1954 ≤ s.sampleRate ∧ s.sampleRate ≤ 128000000 := by
    unfold RateFits at h
    omega
  have hpos := h.quotient_pos
  rw [if_pos ht] at hpos
  refine ⟨by unfold asUint32; omega, ?_, hpos, ?_⟩
  · rw [show 256000000 = 2 * 128000000 from rfl, Nat.mul_div_mul_left _ _ (by decide)]
  · exact (Nat.div_lt_iff_lt_mul (by omega)).2 (by omega)

theorem vocRateRead_eq (h : RateFits s) : vocRateRead s = codedRate s := by
  unfold vocRateRead codedRate
  by_cases ht : s.numTracks = 2
  · obtain ⟨hrate, hhalf, hpos, hlt⟩ := h.stereo ht
    rw [if_pos ht, if_pos ht, hrate, hhalf]
    dsimp only
    generalize 128000000 / s.sampleRate.toNat = q at hpos hlt ⊢
    rw [toNat_ofNat_asUint32 (by omega), toNat_ofNat_asUint32 (by omega)]
    -- the two bytes make up the constant
    have hdecoded : asUint32 (65536 - (asUint32 ((((65536 - (q : Int)).toNat % 256 : Nat) : Int) +
        (((65536 - (q : Int)) / 2 ^ 8).toNat % 256 : Nat) * 2 ^ 8) : Nat)) = q := by
      unfold asUint32
      omega
    rw [hdecoded, Nat.div_div_eq_div_mul, Nat.mul_comm q, show 256000000 = 2 * 128000000 from rfl,
      Nat.mul_div_mul_left _ _ (by decide)]
  · obtain ⟨hrate, hpos, hle⟩ := h.mono ht
    rw [if_neg ht, if_neg ht, hrate]
    dsimp only
    generalize 1000000 / s.sampleRate.toNat = q at hpos hle ⊢
    have hcoded : 1000000 / q ≤ 1000000 := Nat.div_le_self _ _
    rw [toNat_ofNat_asUint32 (by omega), show (256 : Int) - (((256 - (q : Int)).toNat % 256 : Nat) : Int) = q by omega]
    show asUint32 ((1000000 / q : Nat) : Int) = 1000000 / q
    rw [asUint32_natCast (by omega)]

/-- The rate that is read fits again, and is the one that is read when it is written. -/
theorem codedRate_stable {s' : NewSound} (h : RateFits s) (ht : s'.numTracks = s.numTracks)
    (hr : s'.sampleRate = codedRate s) : RateFits s' ∧ codedRate s' = codedRate s := by
  have hrate := h.rate
  have hle := le_codedRate h
  have hpos := h.quotient_pos
  constructor
  · unfold RateFits at h ⊢
    unfold codedRate at hle hr
    dsimp only at hle hr
    rw [ht]
    rcases h with ⟨ht, hlo, hhi⟩ | ⟨ht, hlo, hhi⟩
    · rw [if_neg (by omega)] at hle hr
      have := Nat.div_le_self 1000000 (1000000 / s.sampleRate.toNat)
      omega
    · rw [if_pos ht] at hle hr
      have := Nat.div_le_self 128000000 (128000000 / s.sampleRate.toNat)
      omega
  · have hnat : s'.sampleRate.toNat = codedRate s := by rw [hr]; rfl
    unfold codedRate at hnat ⊢
    dsimp only at hnat ⊢
    rw [ht, hnat, reciprocal_reciprocal hpos (by omega)]

/-! ### The bytes of the rate -/

theorem drop_take_middle {a b c d : List UInt8} {m n : Nat} (hm : m = a.length + b.length) (hn : n = c.length) :
    ((a ++ (b ++ (c ++ d))).drop m).take n = c := by
  rw [← List.append_assoc a b, List.drop_left' (by rw [List.length_append, hm]), List.take_left' hn.symm]

theorem vocBytes_split (s : NewSound) (data : List UInt8) : ∃ front : List UInt8,
    front.length = 26 + (vocTextBlock s).length ∧ vocBytes s data = front ++ (vocExtendedBlock s ++ ([1] ++
      (ByteOrder.little.encode 3 (data.length + 2) ++ (vocRateByte s ++ ([0] ++ (data ++ [0])))))) := by
  refine ⟨vocID ++ (ByteOrder.little.encode 2 26 ++ (ByteOrder.little.encode 2 0x10a ++ (ByteOrder.little.encode 2 0x1129 ++
    vocTextBlock s))), ?_, ?_⟩
  · simp only [List.length_append, ByteOrder.length_encode]
    have : vocID.length = 20 := by decide
    omega
  · unfold vocBytes vocFront
    simp only [List.append_assoc]

/-- What the rate's bytes say is the constant that was computed. -/
theorem decode_rateBytes (h : RateFits s) (data : List UInt8) :
    ByteOrder.little.decode (rateBytes s (vocBytes s data)) = timeConstant s := by
  obtain ⟨front, hlen, hsplit⟩ := vocBytes_split s data
  unfold rateBytes timeConstant
  rw [hsplit]
  by_cases ht : s.numTracks = 2
  · obtain ⟨hrate, hhalf, hpos, hlt⟩ := h.stereo ht
    rw [if_pos ht, if_pos ht, vocExtendedBlock, if_pos ht, hrate, hhalf]
    generalize 128000000 / s.sampleRate.toNat = q at hpos hlt ⊢
    dsimp only
    simp only [List.append_assoc]
    -- the head of the block, its two bytes, and the rest
    rw [← List.append_assoc [8], ← List.append_assoc (ByteOrder.little.encode 1 (asUint32 (65536 - (q : Int)))),
      drop_take_middle (n := 2) (by rw [hlen]; rfl) rfl]
    show (UInt8.ofNat _).toNat + 256 * ((UInt8.ofNat _).toNat + 256 * 0) = _
    rw [toNat_ofNat_asUint32 (by omega), toNat_ofNat_asUint32 (by omega)]
    omega
  · obtain ⟨hrate, hpos, hle⟩ := h.mono ht
    rw [if_neg ht, if_neg ht, vocExtendedBlock, if_neg ht, List.nil_append, vocRateByte, hrate]
    generalize 1000000 / s.sampleRate.toNat = q at hpos hle ⊢
    rw [← List.append_assoc [1], drop_take_middle (n := 1) (by rw [hlen, List.length_append, ByteOrder.length_encode]; rfl) rfl]
    show (UInt8.ofNat _).toNat + 256 * 0 = _
    rw [toNat_ofNat_asUint32 (by omega)]
    omega

/-! ### Written and read -/

/-- A VOC file whose comment and data are no longer than their size fields say, and memory enough to read it. -/
structure VocWritable (host : Host) (s : NewSound) (blocks : List (List UInt8)) : Prop where
  mem : ∀ n < 2 ^ 63, host.mem n = true
  fileFormat : s.fileFormat = .voc
  dataFormat : s.dataFormat = 2
  comment : s.comment.length + 2 < 2 ^ 24
  size : blocks.flatten.length + 2 < 2 ^ 24

/-- The file that is written for a sound, and the rate that is read from it. -/
def ReadsRate (host : Host) (name : List UInt8) (s : NewSound) (numSamples : Int) (blocks : List (List UInt8))
    (file : List UInt8) (rate : Int) : Prop :=
  ∃ w n r, writeSound host s numSamples blocks = .ok w ∧ soundCloseFile w = file ∧
    soundOpenFileForReading host name n file = .ok (some r) ∧ r.sampleRate = ⟨rate, true⟩

theorem reads_codedRate (hw : VocWritable host s blocks) (h : RateFits s) (numSamples : Int) :
    ReadsRate host name s numSamples blocks (vocBytes s blocks.flatten) (codedRate s) := by
  have hblocks : ∀ b ∈ blocks, b.length < 2 ^ 31 := fun b hb => by
    have := (List.sublist_flatten_of_mem hb).length_le
    have := hw.size
    omega
  have htracks : 0 < s.numTracks := by
    have := h.tracks
    omega
  have hsize := hw.size
  obtain ⟨w, hwrite, -, -, hclose⟩ := @writeVoc host _ _ hw.fileFormat hw.comment htracks (by rw [hw.dataFormat]; decide)
    h.rate hblocks (by omega) numSamples
  obtain ⟨honly, hstart⟩ := @vocStart_bytes host name s blocks.flatten (hw.mem 40 (by decide))
  rw [hstart] at honly
  obtain ⟨n, t, p, hafter, hturn, -, hpt, hpr, -, -, -, -⟩ := @vocTurns host name s _ hw.mem hw.comment h.tracks hw.size
    ⟨host.junk 53 0 % 2 ^ 32, false⟩ ⟨host.junk 54 0 % 2 ^ 32, false⟩
  obtain ⟨fuel, hloop⟩ := (loop_eq_iff (fun h => by cases h)).2 ⟨n, t, hafter, hturn⟩
  obtain ⟨r, hr, hrate⟩ : ∃ r, vocToSound p = .ok (some r) ∧ r.sampleRate = ⟨(codedRate s : Nat), true⟩ := by
    have hle : codedRate s ≤ 128000000 := by
      unfold codedRate
      dsimp only
      split
      · exact Nat.div_le_self _ _
      · exact Nat.le_trans (Nat.div_le_self _ _) (by decide)
    unfold vocToSound
    rw [hpt, if_neg (by dsimp only; omega)]
    refine ⟨_, rfl, ?_⟩
    dsimp only
    rw [hpr, vocRateRead_eq h, Got.map]
    dsimp only
    rw [wrap32_eq (by omega) (by omega)]
  obtain ⟨m, r', hopen, hq⟩ := (opened_some (Q := fun r => r.sampleRate = ⟨(codedRate s : Nat), true⟩) honly hloop hr).2 hrate
  exact ⟨w, m, r', hwrite, hclose, hopen, hq⟩

/-- The rate of a VOC file is stable: a file written with a rate that fits is read with one that is no less, and that is
read unchanged from every file written with it. The bytes of the rate are the constant that was computed, and no reader
divides by zero. -/
theorem rate_stable (host : Host) (name : List UInt8) (s : NewSound) (numSamples : Int) (blocks : List (List UInt8))
    (hw : VocWritable host s blocks) (h : RateFits s) :
    ∃ file rate, ReadsRate host name s numSamples blocks file rate ∧ s.sampleRate ≤ rate ∧
      ByteOrder.little.decode (rateBytes s file) = timeConstant s ∧
      (∀ host' name' s' numSamples' blocks', VocWritable host' s' blocks' → s'.numTracks = s.numTracks →
        s'.sampleRate = rate → ∃ file', ReadsRate host' name' s' numSamples' blocks' file' rate) ∧
      ∀ c₀ c₁ : Option UInt8, 256 - Stream.eofOr c₀ ≠ 0 ∧
        asUint32 (65536 - (asUint32 (Stream.eofOr c₀ + Stream.eofOr c₁ * 2 ^ 8) : Nat)) ≠ 0 := by
  refine ⟨_, _, reads_codedRate hw h numSamples, le_codedRate h, decode_rateBytes h _, ?_, ?_⟩
  · intro host' name' s' numSamples' blocks' hw' ht hr
    obtain ⟨h', heq⟩ := codedRate_stable h ht hr
    exact ⟨_, heq ▸ reads_codedRate hw' h' numSamples'⟩
  · have hbyte : ∀ c : Option UInt8, -1 ≤ Stream.eofOr c ∧ Stream.eofOr c < 256 := fun c => by
      unfold Stream.eofOr
      rcases c with _ | b
      · decide
      · have := b.toNat_lt
        simp only [Option.map_some, Option.getD_some]
        omega
    intro c₀ c₁
    have h₀ := hbyte c₀
    have h₁ := hbyte c₁
    unfold asUint32
    omega

/-- A stereo file of 44100 samples a second. -/
def stereoVoc : NewSound := ⟨.voc, 2, 2, 44100, [], NewSound.noNul_nil⟩

theorem stereoVoc_rate_stable : ∃ file rate, ReadsRate plainHost [] stereoVoc 0 [[1, 2]] file rate ∧ 44100 ≤ rate :=
  have h := rate_stable plainHost [] stereoVoc 0 [[1, 2]]
    ⟨fun n hn => by simpa [plainHost] using hn, rfl, rfl, by decide, by decide⟩ (.inr ⟨by decide, by decide, by decide⟩)
  h.imp fun _ h => h.imp fun _ h => ⟨h.1, h.2.1⟩

end Nas.SoundFile
