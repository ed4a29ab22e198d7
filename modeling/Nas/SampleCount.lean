import Nas.SoundRoundTrip

/-!
# The number of samples of a sound file

`SoundWriteFile` adds to the number of samples what is whole in the bytes of one call, while a reader divides the size
that is in the file. `CountsFrames` says that both come to the number of frames that were written. The formats are taken
in turn, each with a comment and without; a file's form, its chunks and its turns are those of the round trip.
-/

namespace Nas.SoundFile
open Stdio Turn
variable {host : Host} {name : List UInt8} {s : NewSound} {blocks : List (List UInt8)}

/-- The bytes of a frame. -/
def frameSize (s : NewSound) : Nat := s.numTracks.toNat * sizeofFormat s.dataFormat

/-- A file is opened and has some number of samples. -/
def Reports (host : Host) (name bytes : List UInt8) (n : Int) : Prop :=
  ∃ fuel r, soundOpenFileForReading host name fuel bytes = .ok (some r) ∧ r.numSamples.val = n

/-- The number of samples is the number of frames that were written, and it is that of the closed file. -/
def CountsFrames (host : Host) (name : List UInt8) (s : NewSound) (numSamples : Int) (blocks : List (List UInt8)) : Prop :=
  ∃ w, writeSound host s numSamples blocks = .ok w ∧ w.numSamples = (blocks.flatten.length / frameSize s : Nat) ∧
    Reports host name (soundCloseFile w) w.numSamples

/-! ### What is counted while writing -/

theorem samplesIn_eq (b : List UInt8) : samplesIn s b = b.length / frameSize s := Nat.div_div_eq_div_mul _ _ _

/-- The bytes that are not counted are those behind the last whole frame of each block. -/
theorem samplesWritten_mul : samplesWritten s blocks * frameSize s + (blocks.map fun b => b.length % frameSize s).sum =
    blocks.flatten.length := by
  unfold samplesWritten
  induction blocks with
  | nil => simp
  | cons b blocks ih =>
    have hb := Nat.div_add_mod' b.length (frameSize s)
    rw [List.map_cons, List.map_cons, List.sum_cons, List.sum_cons, List.flatten_cons, List.length_append, ← ih, samplesIn_eq,
      Nat.add_mul]
    omega

theorem samplesWritten_le_div (hpos : 0 < frameSize s) : samplesWritten s blocks ≤ blocks.flatten.length / frameSize s := by
  have := @samplesWritten_mul s blocks
  exact (Nat.le_div_iff_mul_le hpos).2 (by omega)

/-- All frames are counted just when each block is of whole frames. -/
theorem samplesWritten_eq_iff (hpos : 0 < frameSize s) (hwhole : frameSize s ∣ blocks.flatten.length) :
    samplesWritten s blocks = blocks.flatten.length / frameSize s ↔ ∀ b ∈ blocks, frameSize s ∣ b.length := by
  have hmul := @samplesWritten_mul s blocks
  have hrest : (blocks.map fun b => b.length % frameSize s).sum = 0 ↔ ∀ b ∈ blocks, frameSize s ∣ b.length := by
    rw [List.sum_eq_zero_iff_forall_eq_nat]
    simp [Nat.dvd_iff_mod_eq_zero]
  rw [← hrest]
  constructor
  · intro h
    rw [h, Nat.div_mul_cancel hwhole] at hmul
    omega
  · intro h
    rw [h, Nat.add_zero] at hmul
    rw [← hmul, Nat.mul_div_cancel _ hpos]

theorem soundWriteFile_lt {w w' : Writing} {p : List UInt8} (h : w.numSamples < 2 ^ 31) (hw : soundWriteFile w p = .ok w') :
    w'.numSamples < 2 ^ 31 := by
  unfold soundWriteFile at hw
  dsimp only at hw
  split at hw
  · cases hw
    exact h
  · split at hw
    · cases hw
    · cases hw
      exact (wrap32_bounds _).2

/-- The number of samples is an `int`. -/
theorem writeSound_lt {numSamples : Int} {w : Writing} (hw : writeSound host s numSamples blocks = .ok w) :
    w.numSamples < 2 ^ 31 := by
  have hblocks : ∀ (bs : List (List UInt8)) (u : Writing), u.numSamples < 2 ^ 31 →
      bs.foldlM soundWriteFile u = .ok w → w.numSamples < 2 ^ 31 := by
    intro bs
    induction bs with
    | nil =>
      intro u hu h
      cases h
      exact hu
    | cons b bs ih =>
      intro u hu h
      rw [List.foldlM_cons] at h
      obtain ⟨v, hv, h⟩ := Exec.bind_eq_ok.1 h
      exact ih v (soundWriteFile_lt hu hv) h
  unfold writeSound at hw
  obtain ⟨u, hu, hw⟩ := Exec.bind_eq_ok.1 hw
  refine hblocks blocks u ?_ hw
  have hzero : u.numSamples = 0 := by
    unfold soundOpenFileForWriting at hu
    rcases hfile : s.fileFormat with _ | _ | _ | _ | _ <;> rw [hfile] at hu <;> dsimp only at hu
    case voc =>
      obtain ⟨o, -, hu⟩ := Exec.bind_eq_ok.1 hu
      cases hu
      rfl
    all_goals
      cases hu
      rfl
  rw [hzero]
  decide

/-- Where the closed file reports `m`, if it is opened at all. -/
theorem counts_of_written {w : Writing} {bytes : List UInt8} {numSamples : Int} {m : Nat} {c : Prop}
    (hpos : 0 < frameSize s) (hwhole : frameSize s ∣ blocks.flatten.length)
    (hw : writeSound host s numSamples blocks = .ok w) (hn : w.numSamples = wrap32 (samplesWritten s blocks : Nat))
    (hclose : soundCloseFile w = bytes) (hm : m < 2 ^ 32) (hreports : ∀ x, Reports host name bytes x ↔ c ∧ wrap32 m = x) :
    CountsFrames host name s numSamples blocks ↔ (∀ b ∈ blocks, frameSize s ∣ b.length) ∧
      blocks.flatten.length / frameSize s < 2 ^ 31 ∧ c ∧ m = blocks.flatten.length / frameSize s := by
  have hle : samplesWritten s blocks ≤ blocks.flatten.length / frameSize s := samplesWritten_le_div hpos
  rw [← samplesWritten_eq_iff hpos hwhole]
  constructor
  · rintro ⟨w', hw', hcount, hread⟩
    obtain rfl := Except.ok.inj (hw.symm.trans hw')
    have hlt := writeSound_lt hw
    rw [hclose, hreports] at hread
    rw [hcount] at hlt hread
    rw [hn, wrap32_eq (by omega) (by omega)] at hcount
    refine ⟨by omega, by omega, hread.1, ?_⟩
    have hwrap := hread.2
    rw [← wrap32_eq (x := ((blocks.flatten.length / frameSize s : Nat) : Int)) (by omega) (by omega)] at hwrap
    exact wrap32_inj hm (by omega) hwrap
  · rintro ⟨hcount, hlt, hc, hmeq⟩
    have hnum : w.numSamples = (blocks.flatten.length / frameSize s : Nat) := by
      rw [hn, hcount, wrap32_eq (by omega) (by omega)]
    refine ⟨w, hw, hnum, ?_⟩
    rw [hclose, hreports, hnum, hmeq, wrap32_eq (by omega) (by omega)]
    exact ⟨hc, rfl⟩

/-! ### SND -/

def sndFile (s : NewSound) (data : List UInt8) : List UInt8 :=
  let be (n : Nat) : List UInt8 := ByteOrder.big.encode 4 n
  be 0x2e736e64 ++ (be (24 + s.comment.length) ++ (be (data.length % 2 ^ 32) ++ (be (soundToSndFormat s.dataFormat) ++
    (be (asUint32 s.sampleRate) ++ (be (asUint32 s.numTracks) ++ (s.comment ++ data))))))

theorem writeSnd (hsnd : s.fileFormat = .snd) (hn : s.comment.length + 25 < 2 ^ 31)
    (htracks : 0 < s.numTracks) (hformat : 0 < sizeofFormat s.dataFormat) (hblocks : ∀ b ∈ blocks, b.length < 2 ^ 31)
    (hlt : samplesWritten s blocks < 2 ^ 32 - 1) (numSamples : Int) : ∃ w, writeSound host s numSamples blocks = .ok w ∧
      w.numSamples = wrap32 (samplesWritten s blocks : Nat) ∧ soundCloseFile w = sndFile s blocks.flatten := by
  have hopen : soundOpenFileForWriting host s numSamples = .ok ⟨s, sndOpenFileForWriting s numSamples, 0⟩ := by
    unfold soundOpenFileForWriting
    rw [hsnd]
    rfl
  obtain ⟨l, hl, hfp⟩ : ∃ l, l = ByteOrder.big.encode 4 0x2e736e64 ++ ByteOrder.big.encode 4 (24 + s.comment.length) ++
      (ByteOrder.big.encode 4 (asUint32 numSamples) ++ (ByteOrder.big.encode 4 (soundToSndFormat s.dataFormat) ++
      (ByteOrder.big.encode 4 (asUint32 s.sampleRate) ++ (ByteOrder.big.encode 4 (asUint32 s.numTracks) ++ s.comment)))) ∧
      (sndOpenFileForWriting s numSamples).fp = ⟨l, l.length⟩ := by
    refine ⟨_, rfl, ?_⟩
    have hmagic : asUint32 0x2e736e64 = 0x2e736e64 := rfl
    have hoffset : asUint32 (24 + (s.comment.length : Int)) = 24 + s.comment.length := by
      unfold asUint32
      omega
    have hformat' : asUint32 (soundToSndFormat s.dataFormat : Nat) = soundToSndFormat s.dataFormat := by
      unfold soundToSndFormat
      split <;> rfl
    unfold sndOpenFileForWriting
    dsimp only
    rw [hmagic, hoffset, hformat', fwriteAll_start]
    by_cases hne : s.comment = []
    · rw [hne, if_neg (by simp)]
      simp only [List.flatten_cons, List.flatten_nil, List.append_nil, List.append_assoc]
    · rw [if_pos (by simpa using hne), Stream.fwrite_end]
      simp only [List.flatten_cons, List.flatten_nil, List.append_nil, List.append_assoc]
  obtain ⟨w, hw, hsound, hnum, hout⟩ := writeSound_ok hopen hfp rfl htracks hformat hblocks hlt
  refine ⟨w, hw, hnum, ?_⟩
  unfold soundCloseFile sndCloseFile sndFile
  rw [hsound, hsnd, hout]
  dsimp only
  rw [← List.append_assoc (ByteOrder.big.encode 4 0x2e736e64)]
  refine Stream.fwrite_over (l := ByteOrder.big.encode 4 0x2e736e64 ++ ByteOrder.big.encode 4 (24 + s.comment.length)) ?_
    (show (ByteOrder.big.encode 4 (asUint32 numSamples)).length = _ by simp)
  rw [hl]
  simp only [List.append_assoc]

theorem sndHeader_encode {x₀ x₁ x₂ x₃ x₄ x₅ : Nat} (h₀ : x₀ < 2 ^ 32) (h₁ : x₁ < 2 ^ 32) (h₂ : x₂ < 2 ^ 32)
    (h₃ : x₃ < 2 ^ 32) (h₄ : x₄ < 2 ^ 32) (h₅ : x₅ < 2 ^ 32) :
    sndHeader (ByteOrder.big.encode 4 x₀ ++ (ByteOrder.big.encode 4 x₁ ++ (ByteOrder.big.encode 4 x₂ ++
      (ByteOrder.big.encode 4 x₃ ++ (ByteOrder.big.encode 4 x₄ ++ ByteOrder.big.encode 4 x₅))))) =
        ⟨x₀, x₁, x₂, x₃, x₄, x₅⟩ := by
  have hskip : ∀ (x i : Nat) (l : List UInt8), (ByteOrder.big.encode 4 x ++ l).drop (4 * (i + 1)) = l.drop (4 * i) := by
    intro x i l
    rw [show 4 * (i + 1) = 4 + 4 * i by omega, ← List.drop_drop, List.drop_left' ByteOrder.length_encode]
  have hfield : ∀ (x : Nat) (l : List UInt8), x < 2 ^ 32 →
      ByteOrder.big.decode (((ByteOrder.big.encode 4 x ++ l).drop (4 * 0)).take 4) = x := by
    intro x l hx
    rw [Nat.mul_zero, List.drop_zero, List.take_left' ByteOrder.length_encode, ByteOrder.decode_encode (by omega)]
  have hlast : ByteOrder.big.decode (((ByteOrder.big.encode 4 x₅).drop (4 * 0)).take 4) = x₅ := by
    have := hfield x₅ [] h₅
    rwa [List.append_nil] at this
  unfold sndHeader
  dsimp only
  rw [hfield _ _ h₀, hskip _ 0, hfield _ _ h₁, hskip _ 1, hskip _ 0, hfield _ _ h₂, hskip _ 2, hskip _ 1, hskip _ 0,
    hfield _ _ h₃, hskip _ 3, hskip _ 2, hskip _ 1, hskip _ 0, hfield _ _ h₄, hskip _ 4, hskip _ 3, hskip _ 2, hskip _ 1,
    hskip _ 0, hlast]

/-- What is read of a written SND file. Its size comes from the file, where that of the header is not known. -/
theorem sndOpen_file (name data : List UInt8) (hmem : ∀ n < 2 ^ 63, host.mem n) (hn : s.comment.length + 25 < 2 ^ 31) :
    ∃ p, sndOpenFileForReading host name (sndFile s data) = .ok (some p) ∧ p.h = ⟨0x2e736e64, 24 + s.comment.length,
      data.length % 2 ^ 32, soundToSndFormat s.dataFormat, asUint32 s.sampleRate, asUint32 s.numTracks⟩ := by
  obtain ⟨head, hhead⟩ : ∃ head, head = ByteOrder.big.encode 4 0x2e736e64 ++ (ByteOrder.big.encode 4 (24 + s.comment.length) ++
      (ByteOrder.big.encode 4 (data.length % 2 ^ 32) ++ (ByteOrder.big.encode 4 (soundToSndFormat s.dataFormat) ++
      (ByteOrder.big.encode 4 (asUint32 s.sampleRate) ++ ByteOrder.big.encode 4 (asUint32 s.numTracks))))) := ⟨_, rfl⟩
  have hfile : sndFile s data = head ++ (s.comment ++ data) := by
    rw [hhead, sndFile]
    simp only [List.append_assoc]
  have hlen : head.length = 24 := by
    rw [hhead]
    simp
  have hformat : soundToSndFormat s.dataFormat < 2 ^ 32 := by
    unfold soundToSndFormat
    split <;> decide
  have hheader : sndHeader head = ⟨0x2e736e64, 24 + s.comment.length, data.length % 2 ^ 32, soundToSndFormat s.dataFormat,
      asUint32 s.sampleRate, asUint32 s.numTracks⟩ := by
    rw [hhead]
    exact sndHeader_encode (by decide) (by omega) (Nat.mod_lt _ (by decide)) hformat (asUint32_lt _) (asUint32_lt _)
  have hrest : (Stream.mk (sndFile s data) 0).Rest (head ++ (s.comment ++ data)) := ⟨hfile, Nat.zero_le _⟩
  obtain ⟨si, hcomment, hh, hbytes⟩ : ∃ si, sndComment host name { h := sndHeader head, fp := (Stream.mk (sndFile s data) 0).skip 24 } =
      .ok (some si) ∧ si.h = sndHeader head ∧ si.fp.bytes = sndFile s data := by
    have hsize : wrap32 (((24 + s.comment.length : Nat) : Int) - 24) = s.comment.length := by
      rw [wrap32_eq (by omega) (by omega)]
      omega
    unfold sndComment
    rw [hheader]
    dsimp only
    rw [hsize]
    by_cases hne : s.comment.length = 0
    · rw [if_neg (by omega)]
      exact ⟨_, rfl, rfl, rfl⟩
    · have hnul : asSize (wrap32 ((s.comment.length : Int) + 1)) = s.comment.length + 1 := by
        rw [wrap32_eq (by omega) (by omega)]
        unfold asSize
        omega
      have hlong : asSize s.comment.length = s.comment.length := by
        unfold asSize
        omega
      have hread := (hrest.skip hlen).fread (n := s.comment.length) rfl
      rw [if_pos (by omega), hnul, hlong, if_pos (hmem _ (by omega)), hread, if_neg (by dsimp only; omega),
        if_neg (by dsimp only; omega)]
      exact ⟨_, rfl, rfl, rfl⟩
  have htotal : asUint32 ((si.fp.bytes.length : Int) - (24 + s.comment.length : Nat)) = data.length % 2 ^ 32 := by
    rw [hbytes, hfile, List.length_append, List.length_append, hlen]
    unfold asUint32
    omega
  refine ⟨sndDataSize si, ?_, ?_⟩
  · unfold sndOpenFileForReading
    rw [if_pos (hmem 48 (by decide)), hrest.freadItem hlen (by decide)]
    dsimp only
    rw [hheader] at hcomment ⊢
    rw [if_pos rfl, hcomment]
    rfl
  · unfold sndDataSize sndRewindFile
    dsimp only
    rw [hh, hheader]
    dsimp only
    rw [htotal]
    split <;> rfl

/-- The number of samples that is read: a size of all ones is unknown. -/
def sndSamples (s : NewSound) (n : Nat) : Nat :=
  if n % 2 ^ 32 = 0xffffffff then 0xffffffff else n % 2 ^ 32 / frameSize s

theorem sndSamples_lt (n : Nat) : sndSamples s n < 2 ^ 32 := by
  unfold sndSamples
  split
  · decide
  · exact Nat.lt_of_le_of_lt (Nat.div_le_self _ _) (Nat.mod_lt _ (by decide))

theorem sndSamples_eq_iff {n : Nat} (hwhole : frameSize s ∣ n) (hlt : n / frameSize s < 2 ^ 31) :
    sndSamples s n = n / frameSize s ↔ n < 2 ^ 32 - 1 := by
  unfold sndSamples
  by_cases hunknown : n % 2 ^ 32 = 0xffffffff
  · rw [if_pos hunknown]
    omega
  · rw [if_neg hunknown]
    constructor
    · intro h
      by_contra hge
      -- the size lost at least one frame
      have hless : n % 2 ^ 32 < frameSize s * (n / frameSize s) := by
        rw [Nat.mul_div_cancel' hwhole]
        omega
      have := Nat.div_lt_of_lt_mul hless
      omega
    · intro h
      rw [Nat.mod_eq_of_lt (by omega)]

theorem snd_reports {data : List UInt8} (hmem : ∀ n < 2 ^ 63, host.mem n) (hn : s.comment.length + 25 < 2 ^ 31)
    (hdataFormat : s.dataFormat ∈ FileFormat.snd.dataFormats) (htracks : 0 < s.numTracks) (htracks' : s.numTracks < 2 ^ 31)
    (x : Int) : Reports host name (sndFile s data) x ↔ True ∧ wrap32 (sndSamples s data.length) = x := by
  obtain ⟨p, hp, hh⟩ := sndOpen_file name data hmem hn
  have hformat : sndToSoundFormat (soundToSndFormat s.dataFormat) = s.dataFormat ∧ s.dataFormat ≠ 0 := by
    have hcases : s.dataFormat = 1 ∨ s.dataFormat = 2 ∨ s.dataFormat = 4 := by simpa [FileFormat.dataFormats] using hdataFormat
    rcases hcases with hf | hf | hf <;> rw [hf] <;> decide
  have htracks'' : asUint32 s.numTracks = s.numTracks.toNat := by
    unfold asUint32
    omega
  have hnum : wrap32 (asUint32 s.numTracks : Nat) = s.numTracks := by
    rw [htracks'', wrap32_eq (by omega) (by omega)]
    omega
  obtain ⟨r, hr, hsamples⟩ : ∃ r, sndToSound p = .ok (some r) ∧ r.numSamples.val = wrap32 (sndSamples s data.length) := by
    unfold sndToSound sndSamples
    rw [hh]
    dsimp only
    rw [hformat.1, hnum, if_neg (by have := hformat.2; omega)]
    by_cases hunknown : data.length % 2 ^ 32 = 0xffffffff
    · rw [if_pos hunknown, if_pos hunknown, ← hunknown]
      refine ⟨_, rfl, ?_⟩
      dsimp only
    · rw [if_neg hunknown, if_neg hunknown, if_neg (by omega), htracks'', Int.toNat_natCast, Nat.div_div_eq_div_mul]
      refine ⟨_, rfl, ?_⟩
      dsimp only
      rfl
  have hopen : ∀ fuel, soundOpenFileForReading host name fuel (sndFile s data) = .ok (some r) := by
    intro fuel
    unfold soundOpenFileForReading openAs
    rw [if_pos (hmem 40 (by decide)), hp, Exec.ok_bind]
    dsimp only
    rw [hr]
    rfl
  rw [true_and, ← hsamples]
  constructor
  · rintro ⟨fuel, r', hr', hx⟩
    rw [hopen] at hr'
    cases hr'
    exact hx
  · exact fun hx => ⟨0, r, hopen 0, hx⟩

/-! ### VOC -/

/-- The tracks that a VOC file has: it is a file of one track unless it is one of two. -/
def vocTracks (s : NewSound) : Nat := if s.numTracks = 2 then 2 else 1

/-- The file does not say how many tracks there are, unless there are two. -/
theorem vocBytes_tracks (data : List UInt8) : ∃ s' : NewSound, s'.comment = s.comment ∧ s'.numTracks.toNat = vocTracks s ∧
    (s'.numTracks = 1 ∨ s'.numTracks = 2) ∧ vocBytes s' data = vocBytes s data := by
  unfold vocTracks
  by_cases h : s.numTracks = 2
  · refine ⟨s, rfl, ?_, .inr h, rfl⟩
    rw [if_pos h, h]
    rfl
  · refine ⟨{ s with numTracks := 1 }, rfl, ?_, .inl rfl, ?_⟩
    · rw [if_neg h]
      rfl
    · unfold vocBytes vocFront vocExtendedBlock vocTextBlock vocRateByte
      rw [if_neg h]
      rfl

theorem voc_reports {data : List UInt8} (hmem : ∀ n < 2 ^ 63, host.mem n) (hn : s.comment.length + 2 < 2 ^ 24)
    (hsize : data.length + 2 < 2 ^ 24) (x : Int) :
    Reports host name (vocBytes s data) x ↔ True ∧ wrap32 (data.length / vocTracks s : Nat) = x := by
  obtain ⟨s', hcomment, htracks, hcases, hbytes⟩ := vocBytes_tracks (s := s) data
  obtain ⟨honly, hstart⟩ := @vocStart_bytes host name s' data (hmem 40 (by decide))
  rw [hstart] at honly
  obtain ⟨n, t, p, hafter, hturn, -, hpt, -, hps, -⟩ := @vocTurns host name s' data hmem (by rw [hcomment]; exact hn) hcases hsize
    ⟨host.junk 53 0 % 2 ^ 32, false⟩ ⟨host.junk 54 0 % 2 ^ 32, false⟩
  obtain ⟨fuel, hloop⟩ := (loop_eq_iff (fun h => by cases h)).2 ⟨n, t, hafter, hturn⟩
  obtain ⟨r, hr, -, -, -, hnum, -⟩ := vocToSound_some hpt (by omega)
  rw [hps, htracks, show sizeofFormat 2 = 1 from rfl, Nat.div_one] at hnum
  unfold Reports
  rw [← hbytes, opened_some honly hloop hr, hnum, true_and]

/-! ### WAVE -/

/-- A WAVE file without a comment. -/
def waveBareFile (s : NewSound) (data : List UInt8) : List UInt8 :=
  riffRiffID ++ (ByteOrder.little.encode 4 (36 + (data.length + data.length % 2)) ++ (riffWaveID ++ waveBody s data))

theorem writeWave_bare (hwave : s.fileFormat = .wave) (hbare : s.comment = []) (htracks : 0 < s.numTracks)
    (hformat : 0 < sizeofFormat s.dataFormat) (hblocks : ∀ b ∈ blocks, b.length < 2 ^ 31)
    (hsize : blocks.flatten.length + 1 < 2 ^ 32) (numSamples : Int) : ∃ w, writeSound host s numSamples blocks = .ok w ∧
      w.numSamples = wrap32 (samplesWritten s blocks : Nat) ∧ soundCloseFile w = waveBareFile s blocks.flatten := by
  have hopen : soundOpenFileForWriting host s numSamples = .ok ⟨s, waveOpenFileForWriting s, 0⟩ := by
    unfold soundOpenFileForWriting
    rw [hwave]
    rfl
  obtain ⟨b, hb⟩ : ∃ b, b = riffWaveID ++ (riffWaveFmtID ++ (ByteOrder.little.encode 4 16 ++ (ByteOrder.little.encode 2 1 ++
      (ByteOrder.little.encode 2 (asUint32 s.numTracks) ++ (ByteOrder.little.encode 4 (asUint32 s.sampleRate) ++
      (ByteOrder.little.encode 4 (asUint32 (asShort (asUint32 s.numTracks) * s.sampleRate * (s.bits / 8 : Int))) ++
      (ByteOrder.little.encode 2 (asUint32 (asShort (asUint32 s.numTracks) * (s.bits / 8 : Int))) ++
      (ByteOrder.little.encode 2 s.bits ++ riffWaveDataID)))))))) := ⟨_, rfl⟩
  have hout : waveOpenFileForWriting s = {
      fp := ⟨riffRiffID ++ (ByteOrder.little.encode 4 0 ++ (b ++ ByteOrder.little.encode 4 0)),
        (riffRiffID ++ (ByteOrder.little.encode 4 0 ++ (b ++ ByteOrder.little.encode 4 0))).length⟩
      fileSize := 36
      sizeOffset := riffRiffID.length
      dataOffset := (riffRiffID ++ (ByteOrder.little.encode 4 0 ++ b)).length } := by
    have hbits : asUint32 s.bits = s.bits := asUint32_natCast (bits_lt s)
    unfold waveOpenFileForWriting
    dsimp only
    rw [if_neg (by rw [hbare]; simp), fwrite_start]
    dsimp only
    rw [Stream.fwriteAll_end, Stream.fwriteAll_end, Stream.fwrite_end, Stream.fwrite_end]
    dsimp only
    rw [hbits, hb, show asUint32 0 = 0 from rfl, show asUint32 1 = 1 from rfl, show asUint32 16 = 16 from rfl,
      show asUint32 (4 + (8 + 16) + 8) = 36 from rfl]
    simp only [List.flatten_cons, List.flatten_nil, List.append_nil, List.append_assoc]
  rw [hout] at hopen
  have hle := @samplesWritten_le s blocks
  obtain ⟨w, hw, hsound, hnum, hout⟩ := writeSound_ok hopen rfl rfl htracks hformat hblocks (by omega)
  refine ⟨w, hw, hnum, ?_⟩
  unfold soundCloseFile
  rw [hsound, hwave, hout, Nat.mod_eq_of_lt (by omega)]
  dsimp only
  refine Eq.trans (waveClose_eq hsize (by simp only [List.append_assoc]) rfl rfl) ?_
  rw [hb, waveBareFile, waveBody]
  simp only [List.append_assoc]

/-- The size of a WAVE file behind its form. -/
def waveLeft (s : NewSound) (n : Nat) : Nat := if s.comment = [] then 32 + (n + n % 2) else 52 + textSize s + (n + n % 2)

theorem waveBare_reports {data : List UInt8} (hmem : ∀ n < 2 ^ 63, host.mem n) (hbare : s.comment = [])
    (hformat : 0 < sizeofFormat s.dataFormat) (htracks : 0 < s.numTracks) (htracks' : s.numTracks < 2 ^ 15)
    (hsize : 36 + (data.length + data.length % 2) < 2 ^ 32) (x : Int) : Reports host name (waveBareFile s data) x ↔
      waveLeft s data.length < 2 ^ 31 ∧ wrap32 (data.length / frameSize s : Nat) = x := by
  have htake : (waveBareFile s data).take 4 = riffRiffID := List.take_left' rfl
  have hstart : waveStart host (waveBareFile s data) = some (waveAt ⟨waveBareFile s data, 12⟩ none
      ⟨0, unset host 6, unset host 7, unset host 8⟩ (wrap32 ((32 + (data.length + data.length % 2) : Nat) : Int)) 0) := by
    unfold waveBareFile waveAt
    rw [← left_form (n := 36 + (data.length + data.length % 2)) (by omega) (by omega)]
    exact waveStart_file (hmem 56 (by decide)) hsize
  have hrest : (Stream.mk (waveBareFile s data) 12).Rest (waveBody s data) := by
    have hwhole : (Stream.mk (waveBareFile s data) 0).Rest (waveBareFile s data) := ⟨rfl, Nat.zero_le _⟩
    exact (hwhole.body rfl).skip (n := 4) rfl
  obtain ⟨p, hp⟩ : ∃ p : WaveInfo, p = {
      fp := ⟨waveBareFile s data, 12 + 32⟩, comment := none <|> fileCommentFromFilename host name, fmt := writtenFmt s
      dataOffset := 12 + 24, dataSize := data.length
      numSamples := ⟨data.length / s.numTracks.toNat / sizeofFormat s.dataFormat, true⟩ } := ⟨_, rfl⟩
  have hturns : 32 + (data.length + data.length % 2) < 2 ^ 31 → ∃ n t, after (waveTurn host name) n
      (waveAt ⟨waveBareFile s data, 12⟩ none ⟨0, unset host 6, unset host 7, unset host 8⟩
        (32 + (data.length + data.length % 2) : Nat) 0) = some t ∧ waveTurn host name t = Turn.stop <$> .ok (some p) := by
    intro hlt
    rw [hp]
    exact waveTurns_behind htracks htracks' hformat rfl hlt (by dsimp only; omega) hrest
  obtain ⟨r, hr, -, -, -, hnum, -⟩ := waveToSound_some p
  have hsamples : r.numSamples.val = wrap32 (data.length / frameSize s : Nat) := by
    rw [hnum, hp, Got.map_val, Nat.div_div_eq_div_mul, frameSize]
  unfold Reports waveLeft
  rw [if_pos hbare, opened_wave (hmem 40 (by decide)) htake (by omega) hstart hturns hr, hsamples]

theorem wave_reports {data : List UInt8} (hmem : ∀ n < 2 ^ 63, host.mem n) (hne : s.comment ≠ [])
    (hformat : 0 < sizeofFormat s.dataFormat) (htracks : 0 < s.numTracks) (htracks' : s.numTracks < 2 ^ 15)
    (hsize : 56 + textSize s + (data.length + data.length % 2) < 2 ^ 32) (x : Int) : Reports host name (waveFile s data) x ↔
      waveLeft s data.length < 2 ^ 31 ∧ wrap32 (data.length / frameSize s : Nat) = x := by
  obtain ⟨r, hr, -, -, -, hnum, -⟩ := waveToSound_some (waveRead s data)
  have hsamples : r.numSamples.val = wrap32 (data.length / frameSize s : Nat) := by
    rw [hnum, waveRead, Got.map_val, Nat.div_div_eq_div_mul, frameSize]
  unfold Reports waveLeft
  rw [if_neg hne, wave_opened hmem hformat htracks htracks' hsize hr, hsamples]

/-! ### AIFF -/

/-- An AIFF file without a comment. -/
def aiffBareFile (host : Host) (s : NewSound) (data : List UInt8) : List UInt8 :=
  aiffFormID ++ (ByteOrder.big.encode 4 (46 + (data.length + data.length % 2)) ++ (aiffAiffID ++ aiffBody host s data))

theorem writeAiff_bare (haiff : s.fileFormat = .aiff) (hbare : s.comment = []) (htracks : 0 < s.numTracks)
    (hformat : 0 < sizeofFormat s.dataFormat) (hblocks : ∀ b ∈ blocks, b.length < 2 ^ 31)
    (hsize : blocks.flatten.length + 1 < 2 ^ 32) (numSamples : Int) : ∃ w, writeSound host s numSamples blocks = .ok w ∧
      w.numSamples = wrap32 (samplesWritten s blocks : Nat) ∧ soundCloseFile w = aiffBareFile host s blocks.flatten := by
  have hopen : soundOpenFileForWriting host s numSamples = .ok ⟨s, aiffOpenFileForWriting host s, 0⟩ := by
    unfold soundOpenFileForWriting
    rw [haiff]
    rfl
  obtain ⟨b, hb⟩ : ∃ b, b = aiffAiffID ++ (aiffCommonID ++ (ByteOrder.big.encode 4 18 ++
      (ByteOrder.big.encode 2 (asUint32 s.numTracks) ++ (ByteOrder.big.encode 4 (asUint32 (host.junk 60 0)) ++
      (ByteOrder.big.encode 2 s.bits ++ (host.toIeeeExtended s.sampleRate ++ aiffSoundDataID)))))) := ⟨_, rfl⟩
  have hout : aiffOpenFileForWriting host s = {
      fp := ⟨aiffFormID ++ (ByteOrder.big.encode 4 0 ++ (b ++ (ByteOrder.big.encode 4 0 ++ (ByteOrder.big.encode 4 0 ++
          ByteOrder.big.encode 4 0)))), (aiffFormID ++ (ByteOrder.big.encode 4 0 ++ (b ++ (ByteOrder.big.encode 4 0 ++
          (ByteOrder.big.encode 4 0 ++ ByteOrder.big.encode 4 0))))).length⟩
      fileSize := 46
      sizeOffset := aiffFormID.length
      dataOffset := (aiffFormID ++ (ByteOrder.big.encode 4 0 ++ b)).length } := by
    have hbits : asUint32 s.bits = s.bits := asUint32_natCast (bits_lt s)
    unfold aiffOpenFileForWriting
    dsimp only
    rw [if_neg (by rw [hbare]; simp), fwrite_start]
    dsimp only
    rw [Stream.fwriteAll_end, Stream.fwriteAll_end, Stream.fwrite_end, Stream.fwriteAll_end]
    dsimp only
    rw [hbits, hb, show asUint32 0 = 0 from rfl, show asUint32 18 = 18 from rfl,
      show asUint32 (4 + (8 + 18) + (8 + 8)) = 46 from rfl]
    simp only [List.flatten_cons, List.flatten_nil, List.append_nil, List.append_assoc]
  rw [hout] at hopen
  have hle := @samplesWritten_le s blocks
  obtain ⟨w, hw, hsound, hnum, hout⟩ := writeSound_ok hopen rfl rfl htracks hformat hblocks (by omega)
  refine ⟨w, hw, hnum, ?_⟩
  unfold soundCloseFile
  rw [hsound, haiff, hout, Nat.mod_eq_of_lt (by omega)]
  dsimp only
  refine Eq.trans (aiffClose_eq hsize (by simp only [List.append_assoc]) rfl rfl) ?_
  rw [hb, aiffBareFile, aiffBody]
  simp only [List.append_assoc]

theorem aiffBare_reports {data : List UInt8} (hmem : ∀ n < 2 ^ 63, host.mem n)
    (hformat : 0 < sizeofFormat s.dataFormat) (htracks : 0 < s.numTracks) (htracks' : s.numTracks < 2 ^ 15)
    (hsize : 46 + (data.length + data.length % 2) < 2 ^ 32) (x : Int) :
    Reports host name (aiffBareFile host s data) x ↔ True ∧ wrap32 (aiffReadSize data / frameSize s : Nat) = x := by
  have htake : (aiffBareFile host s data).take 4 = aiffFormID := List.take_left' rfl
  have hid : ((aiffBareFile host s data).drop 8).take 4 = aiffAiffID := by
    unfold aiffBareFile
    rw [← List.append_assoc aiffFormID, List.drop_left' (by simp; rfl)]
    exact List.take_left' rfl
  have honly := fun n => @only_aiff host name _ (hmem 40 (by decide)) n htake hid
  have hstart : aiffStart host (aiffBareFile host s data) = some (aiffAt ⟨aiffBareFile host s data, 12⟩ none
      ⟨unset host 20, unset host 21, unset host 22⟩ (42 + (data.length + data.length % 2))) := by
    unfold aiffBareFile aiffAt
    rw [← left_form (n := 46 + (data.length + data.length % 2)) (by omega) (by omega)]
    exact aiffStart_file (hmem 48 (by decide)) hsize
  have hrest : (Stream.mk (aiffBareFile host s data) 12).Rest (aiffBody host s data) := by
    have hwhole : (Stream.mk (aiffBareFile host s data) 0).Rest (aiffBareFile host s data) := ⟨rfl, Nat.zero_le _⟩
    exact (hwhole.body rfl).skip (n := 4) rfl
  rw [hstart] at honly
  obtain ⟨fuel, hloop⟩ := (loop_eq_iff (fun h => by cases h)).2 (@aiffTurns_behind host name s data _ none
    ⟨unset host 20, unset host 21, unset host 22⟩ htracks htracks' hformat (by omega) (by dsimp only; decide) hrest)
  obtain ⟨r, hr, -, -, -, hnum, -⟩ := aiffToSound_some {
    fp := ⟨aiffBareFile host s data, 12 + 42⟩, comment := none <|> fileCommentFromFilename host name
    common := writtenCommon host s, dataOffset := ⟨12 + 18, true⟩, dataSize := aiffReadSize data
    numSamples := ⟨aiffReadSize data / s.numTracks.toNat / sizeofFormat s.dataFormat, true⟩ }
  have hsamples : r.numSamples.val = wrap32 (aiffReadSize data / frameSize s : Nat) := by
    rw [hnum, Got.map_val, Nat.div_div_eq_div_mul, frameSize]
  unfold Reports
  rw [opened_some honly hloop hr, hsamples, true_and]

theorem aiff_reports {data : List UInt8} (hmem : ∀ n < 2 ^ 63, host.mem n) (hformat : 0 < sizeofFormat s.dataFormat)
    (htracks : 0 < s.numTracks) (htracks' : s.numTracks < 2 ^ 15) (hcomment : s.comment.length + 1 < 2 ^ 16)
    (hsize : 64 + textSize s + (data.length + data.length % 2) < 2 ^ 32) (x : Int) :
    Reports host name (aiffFile host s data) x ↔ True ∧ wrap32 (aiffReadSize data / frameSize s : Nat) = x := by
  obtain ⟨r, hr, -, -, -, hnum, -⟩ := aiffToSound_some (aiffRead host s data)
  have hsamples : r.numSamples.val = wrap32 (aiffReadSize data / frameSize s : Nat) := by
    rw [hnum, aiffRead, Got.map_val, Nat.div_div_eq_div_mul, frameSize]
  unfold Reports
  rw [aiff_opened hmem hformat htracks htracks' hcomment hsize hr, hsamples, true_and]

/-- The reader takes 8 bytes from the size of whole frames. -/
theorem aiffReadSize_ne {data : List UInt8} (hformat : 0 < sizeofFormat s.dataFormat) (htracks : 0 < s.numTracks)
    (htracks' : s.numTracks < 2 ^ 15) (hwhole : frameSize s ∣ data.length) (hlt : data.length < 2 ^ 32) :
    aiffReadSize data / frameSize s ≠ data.length / frameSize s := by
  intro h
  have hle : data.length / frameSize s ≤ data.length := Nat.div_le_self _ _
  have hread : data.length / frameSize s = aiffReadSize data / s.numTracks.toNat / sizeofFormat s.dataFormat := by
    rw [← h, frameSize, Nat.div_div_eq_div_mul]
  obtain ⟨h8, hless⟩ := (aiffReadSize_samples hlt hle (by omega) (by omega) (sizeofFormat_le _) hformat).1 hread
  rw [Nat.div_div_eq_div_mul, ← frameSize] at hless
  have := Nat.div_lt_of_lt_mul (m := data.length - 8) (n := frameSize s) (k := data.length / frameSize s)
    (by rw [Nat.mul_div_cancel' hwhole]; omega)
  omega

/-! ### 8SVX -/

/-- An 8SVX file without a comment. -/
def svxBareFile (host : Host) (s : NewSound) (data : List UInt8) : List UInt8 :=
  svxFormID ++ (ByteOrder.big.encode 4 (40 + data.length) ++ (svx8svxID ++ svxBody host s data))

theorem writeSvx_bare (hsvx : s.fileFormat = .svx) (hbare : s.comment = []) (htracks : 0 < s.numTracks)
    (hformat : 0 < sizeofFormat s.dataFormat) (hblocks : ∀ b ∈ blocks, b.length < 2 ^ 31)
    (hsize : blocks.flatten.length + 1 < 2 ^ 32) (numSamples : Int) : ∃ w, writeSound host s numSamples blocks = .ok w ∧
      w.numSamples = wrap32 (samplesWritten s blocks : Nat) ∧ soundCloseFile w = svxBareFile host s blocks.flatten := by
  have hopen : soundOpenFileForWriting host s numSamples = .ok ⟨s, svxOpenFileForWriting host s, 0⟩ := by
    unfold soundOpenFileForWriting
    rw [hsvx]
    rfl
  obtain ⟨b, hb⟩ : ∃ b, b = svx8svxID ++ (svxVhdrID ++ (ByteOrder.big.encode 4 20 ++
      (ByteOrder.big.encode 4 (asUint32 (host.junk 61 0)) ++ (ByteOrder.big.encode 4 0 ++ (ByteOrder.big.encode 4 0 ++
      (ByteOrder.big.encode 2 (asUint32 s.sampleRate) ++ (ByteOrder.big.encode 2 0 ++ (ByteOrder.big.encode 4 65536 ++
      svxBodyID)))))))) := ⟨_, rfl⟩
  have hout : svxOpenFileForWriting host s = {
      fp := ⟨svxFormID ++ (ByteOrder.big.encode 4 0 ++ (b ++ ByteOrder.big.encode 4 0)),
        (svxFormID ++ (ByteOrder.big.encode 4 0 ++ (b ++ ByteOrder.big.encode 4 0))).length⟩
      fileSize := 40
      sizeOffset := svxFormID.length
      dataOffset := (svxFormID ++ (ByteOrder.big.encode 4 0 ++ b)).length } := by
    unfold svxOpenFileForWriting
    dsimp only
    rw [if_neg (by rw [hbare]; simp), fwrite_start]
    dsimp only
    rw [Stream.fwriteAll_end, Stream.fwriteAll_end, Stream.fwrite_end, Stream.fwrite_end]
    dsimp only
    rw [hb, show asUint32 0 = 0 from rfl, show asUint32 20 = 20 from rfl, show asUint32 65536 = 65536 from rfl,
      show asUint32 (4 + (8 + 20) + 8) = 40 from rfl]
    simp only [List.flatten_cons, List.flatten_nil, List.append_nil, List.append_assoc]
  rw [hout] at hopen
  have hle := @samplesWritten_le s blocks
  obtain ⟨w, hw, hsound, hnum, hout⟩ := writeSound_ok hopen rfl rfl htracks hformat hblocks (by omega)
  refine ⟨w, hw, hnum, ?_⟩
  unfold soundCloseFile
  rw [hsound, hsvx, hout, Nat.mod_eq_of_lt (by omega)]
  dsimp only
  refine Eq.trans (svxClose_eq (by simp only [List.append_assoc]) rfl rfl) ?_
  rw [hb, svxBareFile, svxBody]
  simp only [List.append_assoc]

theorem svxReport_iff {data : List UInt8} {p : SvxInfo} {x : Int} (hp : p.numSamples = data.length) :
    (∃ q r, (if data = [] then none else some p) = some q ∧ svxToSound q = .ok (some r) ∧ r.numSamples.val = x) ↔
      data ≠ [] ∧ wrap32 data.length = x := by
  by_cases hdata : data = []
  · rw [if_pos hdata]
    constructor
    · rintro ⟨q, r, hq, -⟩
      cases hq
    · exact fun h => absurd hdata h.1
  · rw [if_neg hdata, ← hp]
    constructor
    · rintro ⟨q, r, hq, hr, hx⟩
      cases hq
      cases hr
      dsimp only at hx
      exact ⟨hdata, hx⟩
    · intro h
      refine ⟨p, _, rfl, rfl, ?_⟩
      dsimp only
      exact h.2

theorem svxBare_reports {data : List UInt8} (hmem : ∀ n < 2 ^ 63, host.mem n) (hsize : 40 + data.length < 2 ^ 32) (x : Int) :
    Reports host name (svxBareFile host s data) x ↔ data ≠ [] ∧ wrap32 data.length = x := by
  have htake : (svxBareFile host s data).take 4 = svxFormID := List.take_left' rfl
  have hid : ((svxBareFile host s data).drop 8).take 4 = svx8svxID := by
    unfold svxBareFile
    rw [← List.append_assoc svxFormID, List.drop_left' (by simp; rfl)]
    exact List.take_left' rfl
  have honly := fun n => @only_svx host name _ (hmem 40 (by decide)) n htake hid
  have hstart : svxStart host (svxBareFile host s data) = some (svxAt ⟨svxBareFile host s data, 12⟩ none (unset host 40)
      (36 + data.length)) := by
    unfold svxBareFile svxAt
    rw [← left_svx (n := 40 + data.length) (by omega)]
    exact svxStart_file (hmem 48 (by decide)) hsize
  have hrest : (Stream.mk (svxBareFile host s data) 12).Rest (svxBody host s data) := by
    have hwhole : (Stream.mk (svxBareFile host s data) 0).Rest (svxBareFile host s data) := ⟨rfl, Nat.zero_le _⟩
    exact (hwhole.body rfl).skip (n := 4) rfl
  rw [hstart] at honly
  obtain ⟨fuel, hloop⟩ := (loop_eq_iff (fun h => by cases h)).2 (@svxTurns_behind host name s data _ none (unset host 40)
    (by omega) (by dsimp only; decide) hrest)
  unfold Reports
  rw [opened_svx honly hloop]
  exact svxReport_iff rfl

theorem svx_reports {data : List UInt8} (hmem : ∀ n < 2 ^ 63, host.mem n) (hne : s.comment ≠ [])
    (hn : s.comment.length + 2 < 2 ^ 31) (hsize : 48 + s.comment.length + data.length < 2 ^ 32) (x : Int) :
    Reports host name (svxFile host s data) x ↔ data ≠ [] ∧ wrap32 data.length = x := by
  unfold Reports
  rw [svx_opened hmem hne hn hsize]
  exact svxReport_iff rfl

/-! ### The formats -/

/-- The fields of the file can hold its tracks and the sizes of the comment and of the data. -/
def Fits (s : NewSound) (n : Nat) : Prop :=
  match s.fileFormat with
  | .snd => s.numTracks < 2 ^ 31 ∧ s.comment.length + 25 < 2 ^ 31
  | .voc => 0 < s.sampleRate ∧ s.sampleRate < 2 ^ 31 ∧ s.comment.length + 2 < 2 ^ 24 ∧ n + 2 < 2 ^ 24
  | .wave => s.numTracks < 2 ^ 15 ∧ s.comment.length + 2 < 2 ^ 31 ∧ 56 + textSize s + (n + n % 2) < 2 ^ 32
  | .aiff => s.numTracks < 2 ^ 15 ∧ s.comment.length + 1 < 2 ^ 16 ∧ 64 + textSize s + (n + n % 2) < 2 ^ 32
  | .svx => s.comment.length + 2 < 2 ^ 31 ∧ 48 + s.comment.length + n + 1 < 2 ^ 32

/-- The reader of the format finds as many frames as there are in `n` bytes. -/
def ReadsCount (s : NewSound) (n : Nat) : Prop :=
  match s.fileFormat with
  | .snd => n < 2 ^ 32 - 1
  | .voc => s.numTracks = 1 ∨ s.numTracks = 2 ∨ n = 0
  | .wave => waveLeft s n < 2 ^ 31
  | .aiff => False
  | .svx => s.numTracks = 1 ∧ n ≠ 0

/-- No block ends inside a frame, the number of frames is an `int`, and the reader finds them all. -/
def Counted (s : NewSound) (blocks : List (List UInt8)) : Prop :=
  (∀ b ∈ blocks, frameSize s ∣ b.length) ∧ blocks.flatten.length / frameSize s < 2 ^ 31 ∧ ReadsCount s blocks.flatten.length

theorem div_self_iff {n t : Nat} (ht : 0 < t) (hwhole : t ∣ n) : n = n / t ↔ t = 1 ∨ n = 0 := by
  obtain ⟨k, rfl⟩ := hwhole
  rw [Nat.mul_div_cancel_left _ ht]
  constructor
  · intro h
    by_cases hk : k = 0
    · exact .inr (by rw [hk, Nat.mul_zero])
    · exact .inl (Nat.eq_of_mul_eq_mul_right (by omega : 0 < k) (by rw [h, Nat.one_mul]))
  · rintro (rfl | h)
    · rw [Nat.one_mul]
    · rcases Nat.mul_eq_zero.1 h with h0 | h0
      · omega
      · rw [h0, Nat.mul_zero]

theorem vocTracks_iff {n : Nat} (htracks : 0 < s.numTracks) (hformat : sizeofFormat s.dataFormat = 1)
    (hwhole : frameSize s ∣ n) : n / vocTracks s = n / frameSize s ↔ s.numTracks = 1 ∨ s.numTracks = 2 ∨ n = 0 := by
  unfold frameSize at hwhole ⊢
  unfold vocTracks
  rw [hformat, Nat.mul_one] at hwhole ⊢
  by_cases h2 : s.numTracks = 2
  · rw [if_pos h2, h2]
    exact ⟨fun _ => .inr (.inl rfl), fun _ => rfl⟩
  · rw [if_neg h2, Nat.div_one, div_self_iff (by omega) hwhole]
    omega

section
variable {numSamples : Int} (hmem : ∀ n < 2 ^ 63, host.mem n) (hblocks : ∀ b ∈ blocks, b.length < 2 ^ 31)
  (htracks : 0 < s.numTracks) (hwhole : frameSize s ∣ blocks.flatten.length) (hfits : Fits s blocks.flatten.length)
include hmem hblocks htracks hwhole hfits

theorem snd_counts (hfile : s.fileFormat = .snd) (hdataFormat : s.dataFormat ∈ FileFormat.snd.dataFormats)
    (hformat : 0 < sizeofFormat s.dataFormat) : CountsFrames host name s numSamples blocks ↔ Counted s blocks := by
  have hpos : 0 < frameSize s := Nat.mul_pos (by omega) hformat
  unfold Fits at hfits
  unfold Counted ReadsCount
  rw [hfile] at hfits ⊢
  obtain ⟨htracks', hlen⟩ := hfits
  by_cases hlt : blocks.flatten.length / frameSize s < 2 ^ 31
  · have hle : samplesWritten s blocks ≤ blocks.flatten.length / frameSize s := samplesWritten_le_div hpos
    obtain ⟨w, hw, hnum, hclose⟩ := @writeSnd host _ _ hfile hlen htracks hformat hblocks (by omega) numSamples
    rw [counts_of_written hpos hwhole hw hnum hclose (sndSamples_lt _) (snd_reports hmem hlen hdataFormat htracks htracks'),
      sndSamples_eq_iff hwhole hlt, true_and]
  · refine ⟨?_, fun h => absurd h.2.1 hlt⟩
    rintro ⟨w, hw, hnum, -⟩
    have := writeSound_lt hw
    omega

theorem voc_counts (hfile : s.fileFormat = .voc) (hdataFormat : s.dataFormat ∈ FileFormat.voc.dataFormats) :
    CountsFrames host name s numSamples blocks ↔ Counted s blocks := by
  have hformat : s.dataFormat = 2 := by simpa [FileFormat.dataFormats] using hdataFormat
  have hsize : sizeofFormat s.dataFormat = 1 := by rw [hformat]; rfl
  have hpos : 0 < frameSize s := Nat.mul_pos (by omega) (by omega)
  unfold Fits at hfits
  unfold Counted ReadsCount
  rw [hfile] at hfits ⊢
  obtain ⟨hrate, hrate', hlen, hdata⟩ := hfits
  obtain ⟨w, hw, -, hnum, hclose⟩ := @writeVoc host _ _ hfile hlen htracks (by omega) ⟨hrate, hrate'⟩ hblocks (by omega) numSamples
  have hm : blocks.flatten.length / vocTracks s < 2 ^ 32 := Nat.lt_of_le_of_lt (Nat.div_le_self _ _) (by omega)
  rw [counts_of_written hpos hwhole hw hnum hclose hm (voc_reports hmem hlen hdata), vocTracks_iff htracks hsize hwhole,
    true_and]

theorem wave_counts (hfile : s.fileFormat = .wave) (hformat : 0 < sizeofFormat s.dataFormat) :
    CountsFrames host name s numSamples blocks ↔ Counted s blocks := by
  have hpos : 0 < frameSize s := Nat.mul_pos (by omega) hformat
  unfold Fits at hfits
  unfold Counted ReadsCount
  rw [hfile] at hfits ⊢
  obtain ⟨htracks', hlen, hsize⟩ := hfits
  have hm : blocks.flatten.length / frameSize s < 2 ^ 32 := Nat.lt_of_le_of_lt (Nat.div_le_self _ _) (by omega)
  have hand : ∀ p : Prop, (p ∧ blocks.flatten.length / frameSize s = blocks.flatten.length / frameSize s) ↔ p :=
    fun p => and_iff_left rfl
  by_cases hne : s.comment = []
  · obtain ⟨w, hw, hnum, hclose⟩ := @writeWave_bare host _ _ hfile hne htracks hformat hblocks (by omega) numSamples
    rw [counts_of_written hpos hwhole hw hnum hclose hm
      (waveBare_reports hmem hne hformat htracks htracks' (by omega)), hand]
  · obtain ⟨w, hw, -, hnum, hclose⟩ := @writeWave host _ _ hfile hne hlen htracks hformat hblocks (by omega) numSamples
    rw [counts_of_written hpos hwhole hw hnum hclose hm (wave_reports hmem hne hformat htracks htracks' hsize), hand]

theorem aiff_counts (hfile : s.fileFormat = .aiff) (hformat : 0 < sizeofFormat s.dataFormat) :
    CountsFrames host name s numSamples blocks ↔ Counted s blocks := by
  have hpos : 0 < frameSize s := Nat.mul_pos (by omega) hformat
  unfold Fits at hfits
  unfold Counted ReadsCount
  rw [hfile] at hfits ⊢
  obtain ⟨htracks', hlen, hsize⟩ := hfits
  have hm : aiffReadSize blocks.flatten / frameSize s < 2 ^ 32 :=
    Nat.lt_of_le_of_lt (Nat.div_le_self _ _) (Nat.mod_lt _ (Nat.two_pow_pos 32))
  have hread := aiffReadSize_ne hformat htracks htracks' hwhole (by omega)
  by_cases hne : s.comment = []
  · obtain ⟨w, hw, hnum, hclose⟩ := @writeAiff_bare host _ _ hfile hne htracks hformat hblocks (by omega) numSamples
    rw [counts_of_written hpos hwhole hw hnum hclose hm (aiffBare_reports hmem hformat htracks htracks' (by omega))]
    exact ⟨fun h => absurd h.2.2.2 hread, fun h => absurd h.2.2 id⟩
  · obtain ⟨w, hw, -, hnum, hclose⟩ := @writeAiff host _ _ hfile hne (by omega) htracks hformat hblocks (by omega) numSamples
    rw [counts_of_written hpos hwhole hw hnum hclose hm (aiff_reports hmem hformat htracks htracks' hlen hsize)]
    exact ⟨fun h => absurd h.2.2.2 hread, fun h => absurd h.2.2 id⟩

theorem svx_counts (hfile : s.fileFormat = .svx) (hdataFormat : s.dataFormat ∈ FileFormat.svx.dataFormats) :
    CountsFrames host name s numSamples blocks ↔ Counted s blocks := by
  have hformat : s.dataFormat = 3 := by simpa [FileFormat.dataFormats] using hdataFormat
  have hone : sizeofFormat s.dataFormat = 1 := by rw [hformat]; rfl
  have hpos : 0 < frameSize s := Nat.mul_pos (by omega) (by omega)
  unfold Fits at hfits
  unfold Counted ReadsCount
  rw [hfile] at hfits ⊢
  obtain ⟨hlen, hsize⟩ := hfits
  have hself : (blocks.flatten ≠ [] ∧ blocks.flatten.length = blocks.flatten.length / frameSize s) ↔
      s.numTracks = 1 ∧ blocks.flatten.length ≠ 0 := by
    rw [div_self_iff hpos hwhole, Ne, ← List.length_eq_zero_iff, frameSize, hone, Nat.mul_one]
    omega
  by_cases hne : s.comment = []
  · obtain ⟨w, hw, hnum, hclose⟩ := @writeSvx_bare host _ _ hfile hne htracks (by omega) hblocks (by omega) numSamples
    rw [counts_of_written hpos hwhole hw hnum hclose (by omega) (svxBare_reports hmem (by omega)), hself]
  · obtain ⟨w, hw, -, hnum, hclose⟩ := @writeSvx host _ _ hfile hne hlen htracks (by omega) hblocks (by omega) numSamples
    rw [counts_of_written hpos hwhole hw hnum hclose (by omega) (svx_reports hmem hne hlen (by omega)), hself]

end

/-- A WAVE file of one 16 bit track. -/
def monoWave : NewSound := ⟨.wave, 6, 1, 8000, [], NewSound.noNul_nil⟩

end Nas.SoundFile
