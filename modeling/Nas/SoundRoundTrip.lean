import Nas.SoundWriters
import Nas.SoundSafety

/-!
# Sound files that are written and read again

`RoundTrips` says that a file written by `SoundOpenFileForWriting`, `SoundWriteFile` and `SoundCloseFile` is read back as
it was. The files are computed in closed form first (`waveFile`, `aiffFile`, `svxFile`, `vocFile`), then the readers are
run on them.
-/

namespace Nas.SoundFile
open Stdio Turn
variable {host : Host} {name : List UInt8} {s : NewSound} {blocks : List (List UInt8)}

/-- The number of samples of a `SoundWriteFile`. -/
def samplesIn (s : NewSound) (b : List UInt8) : Nat := b.length / s.numTracks.toNat / sizeofFormat s.dataFormat

def samplesWritten (s : NewSound) (blocks : List (List UInt8)) : Nat := (blocks.map (samplesIn s)).sum

/-- A sound is written in some blocks. -/
def writeSound (host : Host) (s : NewSound) (numSamples : Int) (blocks : List (List UInt8)) : Exec Writing := do
  let w ← soundOpenFileForWriting host s numSamples
  blocks.foldlM soundWriteFile w

theorem samplesIn_le (b : List UInt8) : samplesIn s b ≤ b.length :=
  Nat.le_trans (Nat.div_le_self _ _) (Nat.div_le_self _ _)

theorem samplesWritten_le : samplesWritten s blocks ≤ blocks.flatten.length := by
  unfold samplesWritten
  induction blocks with
  | nil => exact Nat.le_refl _
  | cons b blocks ih =>
    have := samplesIn_le (s := s) b
    rw [List.map_cons, List.sum_cons, List.flatten_cons, List.length_append]
    omega

theorem wrap32_ne_neg_one {c : Nat} (h : c < 2 ^ 32 - 1) : wrap32 c ≠ -1 := by
  by_cases hlt : c < 2 ^ 31
  · rw [wrap32_eq (by omega) (by omega)]
    omega
  · rw [← wrap32_sub, wrap32_eq (by omega) (by omega)]
    omega

theorem wrap32_wrap_add (x y : Int) : wrap32 (wrap32 x + y) = wrap32 (x + y) := Int.bmod_add_bmod

/-- One block. -/
theorem soundWriteFile_ok {w : Writing} {p l : List UInt8} {c : Nat} (htracks : 0 < w.sound.numTracks)
    (hformat : 0 < sizeofFormat w.sound.dataFormat) (hp : p.length < 2 ^ 31) (hfp : w.out.fp = ⟨l, l.length⟩)
    (hc : w.numSamples = wrap32 c) (hlt : c < 2 ^ 32 - 1) : soundWriteFile w p = .ok { w with
      out := { w.out with fp := ⟨l ++ p, (l ++ p).length⟩, dataSize := (w.out.dataSize + p.length) % 2 ^ 32 }
      numSamples := wrap32 (c + samplesIn w.sound p : Nat) } := by
  obtain ⟨t, ht⟩ := Int.eq_ofNat_of_zero_le (Int.le_of_lt htracks)
  have hne : w.numSamples ≠ -1 := by
    rw [hc]
    exact wrap32_ne_neg_one hlt
  have hnum : wrap32 p.length = p.length := wrap32_eq (by omega) (by omega)
  have hsamples : (((p.length : Int).tdiv w.sound.numTracks).tdiv (sizeofFormat w.sound.dataFormat)) =
      (samplesIn w.sound p : Nat) := by
    rw [samplesIn, ht]
    rfl
  unfold soundWriteFile OutFile.write
  dsimp only
  rw [if_neg hne, if_neg (by omega), hnum, hsamples, hfp, Stream.fwrite_end, hc, wrap32_wrap_add]
  rfl

theorem writeBlocks_ok {w : Writing} {l : List UInt8} {c : Nat} (htracks : 0 < w.sound.numTracks)
    (hformat : 0 < sizeofFormat w.sound.dataFormat) (hblocks : ∀ b ∈ blocks, b.length < 2 ^ 31)
    (hfp : w.out.fp = ⟨l, l.length⟩) (hsize : w.out.dataSize < 2 ^ 32) (hc : w.numSamples = wrap32 c)
    (hlt : c + samplesWritten w.sound blocks < 2 ^ 32 - 1) : blocks.foldlM soundWriteFile w = .ok { w with
      out := { w.out with
        fp := ⟨l ++ blocks.flatten, (l ++ blocks.flatten).length⟩
        dataSize := (w.out.dataSize + blocks.flatten.length) % 2 ^ 32 }
      numSamples := wrap32 (c + samplesWritten w.sound blocks : Nat) } := by
  induction blocks generalizing w l c with
  | nil =>
    rw [List.flatten_nil, List.append_nil, ← hfp, List.length_nil, Nat.add_zero, Nat.mod_eq_of_lt hsize,
      show samplesWritten w.sound [] = 0 from rfl, Nat.add_zero, ← hc]
    rfl
  | cons b blocks ih =>
    have hsum : samplesWritten w.sound (b :: blocks) = samplesIn w.sound b + samplesWritten w.sound blocks := by
      rw [samplesWritten, List.map_cons, List.sum_cons, samplesWritten]
    rw [hsum] at hlt ⊢
    have hlen : (w.out.dataSize + b.length) % 2 ^ 32 < 2 ^ 32 := Nat.mod_lt _ (Nat.two_pow_pos 32)
    rw [List.foldlM_cons, soundWriteFile_ok htracks hformat (hblocks b List.mem_cons_self) hfp hc (by omega), Exec.ok_bind]
    rw [ih (w := { w with
        out := { w.out with fp := ⟨l ++ b, (l ++ b).length⟩, dataSize := (w.out.dataSize + b.length) % 2 ^ 32 }
        numSamples := wrap32 (c + samplesIn w.sound b : Nat) }) (l := l ++ b)
      (c := c + samplesIn w.sound b) htracks hformat (fun b hb => hblocks b (List.mem_cons_of_mem _ hb)) rfl hlen
      (by dsimp only)
      (by dsimp only; omega)]
    have hcat : (b ++ blocks.flatten).length = b.length + blocks.flatten.length := List.length_append
    dsimp only
    rw [List.flatten_cons, List.append_assoc, hcat, Nat.mod_add_mod, Nat.add_assoc, Nat.add_assoc]

/-- A sound that is opened for writing is written in blocks. -/
theorem writeSound_ok {o : OutFile} {l : List UInt8} {numSamples : Int}
    (hopen : soundOpenFileForWriting host s numSamples = .ok ⟨s, o, 0⟩) (hfp : o.fp = ⟨l, l.length⟩) (hdata : o.dataSize = 0)
    (htracks : 0 < s.numTracks) (hformat : 0 < sizeofFormat s.dataFormat) (hblocks : ∀ b ∈ blocks, b.length < 2 ^ 31)
    (hlt : samplesWritten s blocks < 2 ^ 32 - 1) : ∃ w, writeSound host s numSamples blocks = .ok w ∧ w.sound = s ∧
      w.numSamples = wrap32 (samplesWritten s blocks : Nat) ∧ w.out = { o with
        fp := ⟨l ++ blocks.flatten, (l ++ blocks.flatten).length⟩, dataSize := blocks.flatten.length % 2 ^ 32 } := by
  unfold writeSound
  rw [hopen, Exec.ok_bind]
  refine ⟨_, writeBlocks_ok (c := 0) htracks hformat hblocks hfp (by rw [hdata]; decide) rfl ?_, rfl, ?_, ?_⟩
  · rwa [Nat.zero_add]
  · rw [Nat.zero_add]
  · rw [hdata, Nat.zero_add]

/-! ### Sizes -/

theorem wrap32_exists (x : Int) : ∃ k : Int, wrap32 x = x - k * 2 ^ 32 := by
  refine ⟨(x - wrap32 x) / 2 ^ 32, ?_⟩
  have hdvd : ((2 ^ 32 : Nat) : Int) ∣ x - x.bmod (2 ^ 32) := Int.dvd_self_sub_bmod
  have hmul := Int.ediv_mul_cancel hdvd
  unfold wrap32
  rw [show ((2 : Int) ^ 32) = ((2 ^ 32 : Nat) : Int) from rfl, hmul]
  omega

theorem wrap32_congr {x y : Int} (k : Int) (h : x = y + k * 2 ^ 32) : wrap32 x = wrap32 y := by
  rw [h, Int.mul_comm]
  exact Int.add_mul_bmod_self_left y (2 ^ 32) k

theorem wrap32_neg {n : Nat} (h : 2 ^ 31 ≤ n) (h' : n < 2 ^ 32) : wrap32 n < 0 := by
  rw [← wrap32_sub, wrap32_eq (by omega) (by omega)]
  omega

/-- The padded size of a chunk, from its size as it was read. -/
theorem pad2_wrap32 (n : Nat) : ∃ k : Int, pad2 (wrap32 n) = (n + n % 2 : Nat) + k * 2 ^ 32 := by
  obtain ⟨k, hk⟩ := wrap32_exists n
  obtain ⟨k', hk'⟩ := wrap32_exists (wrap32 n + 1)
  refine ⟨- k - k', ?_⟩
  unfold pad2
  rw [hk', hk]
  omega

theorem moreChunks_wrap32 {n : Nat} (h : n < 2 ^ 32) : MoreChunks (wrap32 n) ↔ 8 < n := by
  unfold MoreChunks
  by_cases hlt : n < 2 ^ 31
  · rw [wrap32_eq (by omega) (by omega)]
    omega
  · have := wrap32_neg (by omega) h
    constructor
    · omega
    · exact fun _ => .inl this

/-- What is left behind a padded chunk. -/
theorem left_pad {a b c : Nat} (h : a = b + (8 + (c + c % 2))) : wrap32 (wrap32 a - (8 + pad2 (wrap32 c))) = wrap32 b := by
  obtain ⟨k, hk⟩ := pad2_wrap32 c
  obtain ⟨k', hk'⟩ := wrap32_exists a
  refine wrap32_congr (-k' - k) ?_
  rw [hk, hk']
  omega

theorem left_nopad {a b c : Nat} (h : a = b + (8 + c)) : wrap32 (wrap32 a - (8 + wrap32 c)) = wrap32 b := by
  obtain ⟨k, hk⟩ := wrap32_exists c
  obtain ⟨k', hk'⟩ := wrap32_exists a
  refine wrap32_congr (k - k') ?_
  rw [hk, hk']
  omega

theorem wrap32_inj {m n : Nat} (hm : m < 2 ^ 32) (hn : n < 2 ^ 32) (h : wrap32 m = wrap32 n) : m = n := by
  obtain ⟨k, hk⟩ := wrap32_exists m
  obtain ⟨k', hk'⟩ := wrap32_exists n
  omega

/-! ### Closed forms -/

/-- The bytes of `padByte`. -/
def padding (n : Nat) : List UInt8 := if n % 2 = 1 then [0] else []

theorem length_padding {n : Nat} : (padding n).length = n % 2 := by
  unfold padding
  rcases Nat.mod_two_eq_zero_or_one n with h | h <;> simp [h]

theorem padByte_flatten {n : Nat} : (padByte n).flatten = padding n := by
  unfold padByte padding
  rcases Nat.mod_two_eq_zero_or_one n with h | h
  · rw [if_neg (by omega), if_neg (by omega), List.flatten_nil]
  · rw [if_pos (by omega), if_pos h]
    rfl

theorem asUint32_lt (x : Int) : asUint32 x < 2 ^ 32 := by
  unfold asUint32
  omega

theorem asUint32_natCast {n : Nat} (h : n < 2 ^ 32) : asUint32 n = n := by
  rw [asUint32_nat, Nat.mod_eq_of_lt h]

theorem upad2_eq {n : Nat} (h : n + 1 < 2 ^ 32) : upad2 n = n + n % 2 := by
  unfold upad2
  rw [Nat.mod_eq_of_lt h]
  omega

theorem fwrite_start {l : List UInt8} : (Stream.mk [] 0).fwrite l = ⟨l, l.length⟩ :=
  @Stream.fwrite_end [] l

theorem fwriteAll_start {ls : List (List UInt8)} : (Stream.mk [] 0).fwriteAll ls = ⟨ls.flatten, ls.flatten.length⟩ :=
  @Stream.fwriteAll_end [] ls

theorem bits_lt (s : NewSound) : s.bits < 2 ^ 32 := by
  have hsize : sizeofFormat s.dataFormat ≤ 2 := by
    unfold sizeofFormat
    rcases s.dataFormat with _ | _ | _ | _ | _ | _ | _ | _ | n <;> simp
  unfold NewSound.bits
  omega

/-- The length of a comment with its NUL and its pad byte. -/
def textSize (s : NewSound) : Nat := s.comment.length + 1 + (s.comment.length + 1) % 2

/-- Two fields of a file are written again. -/
theorem patched {f : Stream} {a x x' b y y' c : List UInt8} (hf : f.bytes = a ++ (x ++ (b ++ (y ++ c))))
    (hx : x.length = x'.length) (hy : y.length = y'.length) {i j : Nat} (hi : i = a.length)
    (hj : j = (a ++ (x ++ b)).length) : ((((f.seekSet i).fwrite x').seekSet j).fwrite y').bytes =
      a ++ (x' ++ (b ++ (y' ++ c))) := by
  have hfirst : ((f.seekSet i).fwrite x').bytes = a ++ (x' ++ (b ++ (y ++ c))) := by
    rw [hi]
    exact Stream.fwrite_over hf hx
  have hlen : j = (a ++ (x' ++ b)).length := by
    rw [hj, List.length_append, List.length_append, List.length_append, List.length_append, hx]
  have hassoc : ∀ r, a ++ (x' ++ (b ++ r)) = (a ++ (x' ++ b)) ++ r := fun r => by
    rw [List.append_assoc, List.append_assoc]
  rw [hassoc] at hfirst ⊢
  rw [hlen]
  exact Stream.fwrite_over hfirst hy

/-! ### Reading the data again -/

/-- The sound is at the start of its data, and rewinding leads there. -/
def Rewound (r : Sound) : Prop := ∀ fp : Stream, fp.bytes = r.fp.bytes → (soundRewindFile (r.setFp fp)).fp = r.fp

@[simp] theorem Sound.fp_setFp {r : Sound} {fp : Stream} : (r.setFp fp).fp = fp := by
  unfold Sound.setFp Sound.fp
  rcases r with ⟨_, _, _, _, _, p | p | p | p | p⟩ <;> rfl

theorem soundReadFile_rest {r : Sound} {l : List UInt8} (h : r.fp.bytes.drop r.fp.pos = l) (n : Nat) :
    (soundReadFile n r).1 = l.take n := by
  rw [← h]
  rfl

theorem soundReadFile_again {r : Sound} {l : List UInt8} (h : r.fp.bytes.drop r.fp.pos = l) (hr : Rewound r) (m n : Nat) :
    (soundReadFile n (soundRewindFile (soundReadFile m r).2)).1 = l.take n := by
  have hfp : (soundRewindFile (soundReadFile m r).2).fp = r.fp := hr _ rfl
  refine soundReadFile_rest ?_ n
  rw [hfp, h]

/-- What is read is the data, before and after rewinding. -/
def ReadsData (r : Sound) (data : List UInt8) : Prop :=
  (∀ n, (soundReadFile n r).1 = data.take n) ∧
    ∀ m n, (soundReadFile n (soundRewindFile (soundReadFile m r).2)).1 = data.take n

theorem readsData_iff {r : Sound} {l data : List UInt8} (h : r.fp.bytes.drop r.fp.pos = l) (hr : Rewound r) :
    ReadsData r data ↔ l = data := by
  constructor
  · rintro ⟨hread, -⟩
    have htake : l.take (l.length + data.length) = data.take (l.length + data.length) := by
      rw [← hread, soundReadFile_rest h]
    rwa [List.take_of_length_le (by omega), List.take_of_length_le (by omega)] at htake
  · rintro rfl
    exact ⟨soundReadFile_rest h, soundReadFile_again h hr⟩

/-! ### The round trip -/

/-- A sound that was read is the one that was written: its tracks, data format, comment and number of samples, and its
data. -/
def ReadsBack (w : Writing) (data : List UInt8) (r : Sound) : Prop :=
  r.numTracks.val = w.sound.numTracks ∧ r.dataFormat.val = w.sound.dataFormat ∧
    r.comment.map (List.takeWhile (· ≠ 0)) = some w.sound.comment ∧ r.numSamples.val = w.numSamples ∧ ReadsData r data

/-- A sound file that is written and closed is read back as it was. -/
def RoundTrips (host : Host) (name : List UInt8) (s : NewSound) (numSamples : Int) (blocks : List (List UInt8)) : Prop :=
  ∃ w, writeSound host s numSamples blocks = .ok w ∧
    ∃ fuel r, soundOpenFileForReading host name fuel (soundCloseFile w) = .ok (some r) ∧ ReadsBack w blocks.flatten r

theorem takeWhile_comment (s : NewSound) : (s.comment ++ [0]).takeWhile (· ≠ 0) = s.comment := by
  rw [List.takeWhile_append_of_pos]
  · simp
  · intro b hb
    have hne : b ≠ 0 := fun h => s.noNul (h ▸ hb)
    simpa using hne

theorem readsBack_iff {w : Writing} {r : Sound} {l data : List UInt8} {m n : Nat}
    (htracks : r.numTracks.val = w.sound.numTracks) (hformat : r.dataFormat.val = w.sound.dataFormat)
    (hcomment : r.comment = some (w.sound.comment ++ [0])) (hm : r.numSamples.val = wrap32 m) (hm' : m < 2 ^ 32)
    (hn : w.numSamples = wrap32 n) (hn' : n < 2 ^ 32) (hrest : r.fp.bytes.drop r.fp.pos = l) (hr : Rewound r) :
    ReadsBack w data r ↔ n = m ∧ l = data := by
  have htext : r.comment.map (List.takeWhile (· ≠ 0)) = some w.sound.comment := by
    rw [hcomment, Option.map_some, takeWhile_comment]
  unfold ReadsBack
  rw [readsData_iff hrest hr, hm, hn]
  constructor
  · rintro ⟨-, -, -, hmn, hl⟩
    exact ⟨(wrap32_inj hm' hn' hmn).symm, hl⟩
  · rintro ⟨rfl, hl⟩
    exact ⟨htracks, hformat, htext, rfl, hl⟩

theorem seekSet_back {f g : Stream} {x : Int} (hbytes : g.bytes = f.bytes) (hx : x = f.pos) : g.seekSet x = f := by
  unfold Stream.seekSet
  rw [hx, if_pos (by omega), hbytes, Int.toNat_natCast]

theorem rewound_wave {r : Sound} {p : WaveInfo} (hr : r.formatInfo = .wave p) (hp : p.dataOffset + 8 = p.fp.pos) :
    Rewound r := by
  intro fp hfp
  unfold soundRewindFile Sound.setFp Sound.fp waveRewindFile at *
  rw [hr] at hfp ⊢
  dsimp only at hfp ⊢
  exact seekSet_back hfp (by omega)

theorem rewound_aiff {r : Sound} {p : AiffInfo} (hr : r.formatInfo = .aiff p) (hp : p.dataOffset.val + 24 = p.fp.pos) :
    Rewound r := by
  intro fp hfp
  unfold soundRewindFile Sound.setFp Sound.fp aiffRewindFile at *
  rw [hr] at hfp ⊢
  dsimp only at hfp ⊢
  exact seekSet_back hfp (by omega)

theorem rewound_voc {r : Sound} {p : VocInfo} (hr : r.formatInfo = .voc p) (hp : p.fp.pos = asUint32 (p.dataOffset + 3)) :
    Rewound r := by
  intro fp hfp
  unfold soundRewindFile Sound.setFp Sound.fp vocRewindFile at *
  rw [hr] at hfp ⊢
  dsimp only at hfp ⊢
  exact seekSet_back hfp (by rw [hp])

theorem append_padding_eq {data : List UInt8} : data ++ padding data.length = data ↔ data.length % 2 = 0 := by
  rw [List.append_right_eq_self, ← List.length_eq_zero_iff, length_padding]

theorem walk_unique {σ α : Type} {turn : σ → Exec (Turn σ (Option α))} {start : Option σ} {n m : Nat} {a b : Option α}
    (hn : walk turn n start = .ok a) (hm : walk turn m start = .ok b) : a = b := by
  rcases start with _ | s
  · exact Except.ok.inj (hn.symm.trans hm)
  · have hne : ∀ {k : Nat} {c : Option α}, loop turn k s = .ok c → loop turn k s ≠ .error .fuel := by
      intro k c hk he
      rw [hk] at he
      cases he
    rcases Nat.le_total n m with h | h
    · exact Except.ok.inj (hn.symm.trans ((loop_mono (hne hn) h).symm.trans hm))
    · exact Except.ok.inj (hn.symm.trans ((loop_mono (hne hm) h).trans hm))

section
variable {σ α : Type} {turn : σ → Exec (Turn σ (Option α))} {start : Option σ} {bytes : List UInt8}
  {toSound : α → Exec (Option Sound)} {fuel : Nat} {Q : Sound → Prop}
  (honly : ∀ n, soundOpenFileForReading host name n bytes = firstOf [openAs (walk turn n start) toSound])
include honly

theorem opened_none (hp : walk turn fuel start = .ok none) :
    ¬ ∃ n r, soundOpenFileForReading host name n bytes = .ok (some r) ∧ Q r := by
  rintro ⟨n, r, hopen, -⟩
  rw [honly] at hopen
  rcases hn : walk turn n start with e | q
  · rw [hn] at hopen
    cases hopen
  · cases walk_unique hp hn
    rw [hn] at hopen
    cases hopen

/-- Where only one reader opens a file, the sound is what it says. -/
theorem opened_some {p : α} {r : Sound} (hp : walk turn fuel start = .ok (some p)) (hr : toSound p = .ok (some r)) :
    (∃ n r, soundOpenFileForReading host name n bytes = .ok (some r) ∧ Q r) ↔ Q r := by
  have hsome : openAs (.ok (some p)) toSound = .ok (some (some r)) := by
    unfold openAs
    rw [Exec.ok_bind]
    dsimp only
    rw [hr]
    rfl
  constructor
  · rintro ⟨n, r', hopen, hQ⟩
    rw [honly] at hopen
    rcases hn : walk turn n start with e | q
    · rw [hn] at hopen
      cases hopen
    · cases walk_unique hp hn
      rw [hn, hsome] at hopen
      cases hopen
      exact hQ
  · intro hQ
    refine ⟨fuel, r, ?_, hQ⟩
    rw [honly, hp, hsome]
    rfl

end

@[simp] theorem openAs_none {α : Type} {toSound : α → Exec (Option Sound)} : openAs (.ok none) toSound = .ok none := rfl

theorem firstOf_none {os : List (Exec (Option (Option Sound)))} (h : ∀ o ∈ os, o = .ok none)
    (os' : List (Exec (Option (Option Sound)))) : firstOf (os ++ os') = firstOf os' := by
  induction os with
  | nil => rfl
  | cons o os ih =>
    rw [h o List.mem_cons_self, ← ih fun o ho => h o (List.mem_cons_of_mem _ ho)]
    rfl

theorem firstOf_only (before : List (Exec (Option (Option Sound)))) (o : Exec (Option (Option Sound)))
    (behind : List (Exec (Option (Option Sound)))) (hb : ∀ o ∈ before, o = .ok none) (ha : ∀ o ∈ behind, o = .ok none) :
    firstOf (before ++ o :: behind) = firstOf [o] := by
  rw [firstOf_none hb]
  rcases o with e | (_ | r)
  · rfl
  · have := firstOf_none ha []
    rwa [List.append_nil] at this
  · rfl

theorem start_none_of_form {l : List UInt8} {bytes : List UInt8} (h : bytes.take 4 = l) (hne : l ≠ aiffFormID) :
    aiffStart host bytes = none ∧ svxStart host bytes = none := by
  refine ⟨?_, ?_⟩
  · by_contra hs
    obtain ⟨s, hs⟩ := Option.ne_none_iff_exists'.1 hs
    exact hne (h.symm.trans (aiffStart_some hs).1)
  · by_contra hs
    obtain ⟨s, hs⟩ := Option.ne_none_iff_exists'.1 hs
    exact hne (h.symm.trans (svxStart_some hs).1)

section
variable {bytes : List UInt8} (hmem : host.mem 40) (n : Nat)
include hmem

theorem only_voc (h : bytes.take 4 = vocID.take 4) : soundOpenFileForReading host name n bytes =
    firstOf [openAs (walk (vocTurn host name) n (vocStart host bytes)) vocToSound] := by
  obtain ⟨hsnd, -, hwave⟩ := @start_none_of_ne host name _ _ h
  obtain ⟨haiff, hsvx⟩ := @start_none_of_form host _ _ h (by decide)
  rw [soundOpenFileForReading, if_pos hmem, hsnd (by decide), waveOpenFileForReading, hwave (by decide),
    aiffOpenFileForReading, haiff, svxOpenFileForReading, hsvx]
  exact firstOf_only [_] _ [_, _, _] (by simp) (by simp [walk])

theorem only_wave (h : bytes.take 4 = riffRiffID) : soundOpenFileForReading host name n bytes =
    firstOf [openAs (walk (waveTurn host name) n (waveStart host bytes)) waveToSound] := by
  obtain ⟨hsnd, hvoc, -⟩ := @start_none_of_ne host name _ _ h
  obtain ⟨haiff, hsvx⟩ := @start_none_of_form host _ _ h (by decide)
  rw [soundOpenFileForReading, if_pos hmem, hsnd (by decide), vocOpenFileForReading, hvoc (by decide),
    aiffOpenFileForReading, haiff, svxOpenFileForReading, hsvx]
  exact firstOf_only [_, _] _ [_, _] (by simp [walk]) (by simp [walk])

theorem only_aiff (h : bytes.take 4 = aiffFormID) (hid : (bytes.drop 8).take 4 = aiffAiffID) :
    soundOpenFileForReading host name n bytes =
      firstOf [openAs (walk (aiffTurn host name) n (aiffStart host bytes)) aiffToSound] := by
  obtain ⟨hsnd, hvoc, hwave⟩ := @start_none_of_ne host name _ _ h
  have hsvx : svxStart host bytes = none := by
    by_contra hs
    obtain ⟨s, hs⟩ := Option.ne_none_iff_exists'.1 hs
    exact absurd (hid.symm.trans (svxStart_some hs).2.1) (by decide)
  rw [soundOpenFileForReading, if_pos hmem, hsnd (by decide), vocOpenFileForReading, hvoc (by decide),
    waveOpenFileForReading, hwave (by decide), svxOpenFileForReading, hsvx]
  exact firstOf_only [_, _, _] _ [_] (by simp [walk]) (by simp [walk])

theorem only_svx (h : bytes.take 4 = svxFormID) (hid : (bytes.drop 8).take 4 = svx8svxID) :
    soundOpenFileForReading host name n bytes =
      firstOf [openAs (walk (svxTurn host name) n (svxStart host bytes)) svxToSound] := by
  obtain ⟨hsnd, hvoc, hwave⟩ := @start_none_of_ne host name _ _ h
  have haiff : aiffStart host bytes = none := by
    by_contra hs
    obtain ⟨s, hs⟩ := Option.ne_none_iff_exists'.1 hs
    exact absurd (hid.symm.trans (aiffStart_some hs).2.1) (by decide)
  rw [soundOpenFileForReading, if_pos hmem, hsnd (by decide), vocOpenFileForReading, hvoc (by decide),
    waveOpenFileForReading, hwave (by decide), aiffOpenFileForReading, haiff]
  exact firstOf_only [_, _, _, _] _ [] (by simp [walk]) (by simp)

end

/-! ### WAVE -/

/-- A `WaveOpenFileForWriting`, from the first size on. -/
def waveHead (s : NewSound) : List UInt8 :=
  let le (w : Nat) (n : Int) : List UInt8 := ByteOrder.little.encode w (asUint32 n)
  let n := s.comment.length + 1
  let bytes : Int := s.bits / 8
  riffWaveID ++ (riffListID ++ (ByteOrder.little.encode 4 (12 + textSize s) ++ (riffListInfoID ++ (riffInfoIcmtID ++
    (ByteOrder.little.encode 4 n ++ (s.comment ++ [0] ++ (padding n ++ (riffWaveFmtID ++ (ByteOrder.little.encode 4 16 ++
    (ByteOrder.little.encode 2 1 ++ (le 2 s.numTracks ++ (le 4 s.sampleRate ++
    (le 4 (asShort (asUint32 s.numTracks) * s.sampleRate * bytes) ++ (le 2 (asShort (asUint32 s.numTracks) * bytes) ++
    (ByteOrder.little.encode 2 s.bits ++ riffWaveDataID)))))))))))))))

theorem waveOpenFileForWriting_eq (hne : s.comment ≠ []) (hn : s.comment.length + 2 < 2 ^ 31) :
    waveOpenFileForWriting s = {
      fp := ⟨riffRiffID ++ (ByteOrder.little.encode 4 0 ++ (waveHead s ++ ByteOrder.little.encode 4 0)),
        (riffRiffID ++ (ByteOrder.little.encode 4 0 ++ (waveHead s ++ ByteOrder.little.encode 4 0))).length⟩
      fileSize := 56 + textSize s
      sizeOffset := riffRiffID.length
      dataOffset := (riffRiffID ++ (ByteOrder.little.encode 4 0 ++ waveHead s)).length } := by
  have hlen : s.comment.length ≠ 0 := fun h => hne (List.length_eq_zero_iff.1 h)
  have htext : textSize s = s.comment.length + 1 + (s.comment.length + 1) % 2 := rfl
  have hpad : pad2 ((s.comment.length : Int) + 1) = (textSize s : Int) := pad2_nat (n := s.comment.length + 1) (by omega)
  have hpadding : (padByte ((s.comment.length : Int) + 1)).flatten = padding (s.comment.length + 1) :=
    padByte_flatten (n := s.comment.length + 1)
  unfold waveOpenFileForWriting waveHead
  dsimp only
  rw [if_pos (by omega), fwrite_start, hpad]
  dsimp only
  rw [Stream.fwriteAll_end, Stream.fwriteAll_end, Stream.fwriteAll_end, Stream.fwrite_end, Stream.fwrite_end]
  dsimp only
  have hbits : asUint32 s.bits = s.bits := asUint32_natCast (bits_lt s)
  have hsize : asUint32 (8 + 4 + (textSize s : Int)) = 12 + textSize s := by
    unfold asUint32
    omega
  have hlength : asUint32 ((s.comment.length : Int) + 1) = s.comment.length + 1 := by
    unfold asUint32
    omega
  have hfileSize : asUint32 (4 + (8 + (8 + 4 + (textSize s : Int))) + (8 + 16) + 8) = 56 + textSize s := by
    unfold asUint32
    omega
  rw [hbits, hsize, hlength, hfileSize, show asUint32 0 = 0 from rfl, show asUint32 1 = 1 from rfl,
    show asUint32 16 = 16 from rfl]
  simp only [List.flatten_append, List.flatten_cons, List.flatten_nil, List.append_nil, hpadding, List.append_assoc]

/-- A WAVE file. -/
def waveFile (s : NewSound) (data : List UInt8) : List UInt8 :=
  riffRiffID ++ (ByteOrder.little.encode 4 (56 + textSize s + (data.length + data.length % 2)) ++ (waveHead s ++
    (ByteOrder.little.encode 4 data.length ++ (data ++ padding data.length))))

/-- The sizes are written when a WAVE file is closed. -/
theorem waveClose_eq {size i j : Nat} {l b data : List UInt8} (hdata : data.length + 1 < 2 ^ 32)
    (hl : l = riffRiffID ++ (ByteOrder.little.encode 4 0 ++ (b ++ (ByteOrder.little.encode 4 0 ++ data))))
    (hi : i = riffRiffID.length) (hj : j = (riffRiffID ++ (ByteOrder.little.encode 4 0 ++ b)).length) :
    waveCloseFile ⟨⟨l, l.length⟩, size, i, j, data.length⟩ = riffRiffID ++ (ByteOrder.little.encode 4
      (size + (data.length + data.length % 2)) ++ (b ++ (ByteOrder.little.encode 4 data.length ++
        (data ++ padding data.length)))) := by
  unfold waveCloseFile
  dsimp only
  rw [Stream.fwriteAll_end, padByte_flatten, upad2_eq hdata]
  exact patched (y := ByteOrder.little.encode 4 0) (by simp only [hl, List.append_assoc]) (by simp) (by simp) hi hj

theorem writeWave (hwave : s.fileFormat = .wave) (hne : s.comment ≠ []) (hn : s.comment.length + 2 < 2 ^ 31)
    (htracks : 0 < s.numTracks) (hformat : 0 < sizeofFormat s.dataFormat) (hblocks : ∀ b ∈ blocks, b.length < 2 ^ 31)
    (hsize : blocks.flatten.length + 1 < 2 ^ 32) (numSamples : Int) : ∃ w, writeSound host s numSamples blocks = .ok w ∧
      w.sound = s ∧ w.numSamples = wrap32 (samplesWritten s blocks : Nat) ∧
      soundCloseFile w = waveFile s blocks.flatten := by
  have hopen : soundOpenFileForWriting host s numSamples = .ok ⟨s, waveOpenFileForWriting s, 0⟩ := by
    unfold soundOpenFileForWriting
    rw [hwave]
    rfl
  rw [waveOpenFileForWriting_eq hne hn] at hopen
  have hle := @samplesWritten_le s blocks
  obtain ⟨w, hw, hsound, hnum, hout⟩ := writeSound_ok hopen rfl rfl htracks hformat hblocks (by omega)
  refine ⟨w, hw, hsound, hnum, ?_⟩
  unfold soundCloseFile
  rw [hsound, hwave, hout, Nat.mod_eq_of_lt (by omega)]
  dsimp only
  exact waveClose_eq hsize (by simp only [List.append_assoc]) rfl rfl

theorem waveStart_file {R : Nat} {rest : List UInt8} (hmem : host.mem 56) (hR : R < 2 ^ 32) :
    waveStart host (riffRiffID ++ (ByteOrder.little.encode 4 R ++ (riffWaveID ++ rest))) = some {
      wi := { fp := ⟨riffRiffID ++ (ByteOrder.little.encode 4 R ++ (riffWaveID ++ rest)), 12⟩
              fmt := ⟨0, unset host 6, unset host 7, unset host 8⟩ }
      fileSize := wrap32 (pad2 (wrap32 R) - 4) } := by
  have hrest : (Stream.mk (riffRiffID ++ (ByteOrder.little.encode 4 R ++ (riffWaveID ++ rest))) 0).Rest
      (riffRiffID ++ (ByteOrder.little.encode 4 R ++ (riffWaveID ++ rest))) := ⟨rfl, Nat.zero_le _⟩
  have hwave := hrest.body rfl
  unfold waveStart
  rw [if_pos hmem, hrest.readChunk rfl hR]
  dsimp only
  rw [if_pos rfl, hwave.freadItem (n := 4) rfl (by decide)]
  dsimp only
  rw [if_pos rfl]
  rfl

section
variable {st : WaveWalk} {x : Nat} {rest : List UInt8} {left info : Int}

/-- An INFO list. -/
theorem waveTurn_list (hinfo : st.info = 0) (hsize : 8 ≤ st.fileSize) (hx : x < 2 ^ 32)
    (h : st.wi.fp.Rest (riffListID ++ (ByteOrder.little.encode 4 x ++ (riffListInfoID ++ rest))))
    (hleft : wrap32 (st.fileSize - (8 + pad2 (wrap32 x))) = left) (hto : wrap32 (wrap32 x - 4) = info) :
    Goes (waveTurn host name) st { wi := { st.wi with fp := st.wi.fp.skip 12 }, fileSize := left, info } := by
  have hinfoID := h.body rfl
  unfold Goes waveTurn waveChunkTurn
  rw [if_neg (by simp [hinfo]), if_pos hsize, h.readChunk rfl hx]
  dsimp only
  rw [if_pos rfl, hinfoID.freadItem (n := 4) rfl (by decide)]
  dsimp only
  rw [if_pos rfl, Stream.skip_skip, hleft, hto]

theorem waveInfoTurn_comment {c : Chunk} {fp fp' : Stream} {text : List UInt8} (hc : readChunk .little st.wi.fp = (some c, fp))
    (hid : c.ckID = riffInfoIcmtID) (hmem : host.mem (asSize c.ckSize))
    (hread : fp.freadItem (asSize c.ckSize) = (some text, fp')) :
    waveInfoTurn host st = .next {
      wi := { st.wi with fp := if c.ckSize % 2 = 1 then fp'.fgetc.2 else fp', comment := some text }
      fileSize := st.fileSize, info := wrap32 (st.info - (8 + pad2 c.ckSize)) } := by
  unfold waveInfoTurn
  rw [hc]
  dsimp only
  rw [if_pos hid, if_pos hmem, hread]

/-- The comment of an INFO list. -/
theorem waveTurn_comment {text : List UInt8} (hinfo : st.info ≠ 0) (hmem : host.mem text.length) (htext : 0 < text.length)
    (hlen : text.length < 2 ^ 31) (h : st.wi.fp.Rest (riffInfoIcmtID ++ (ByteOrder.little.encode 4 text.length ++
      (text ++ (padding text.length ++ rest))))) (hto : wrap32 (st.info - (8 + pad2 text.length)) = info) :
    Goes (waveTurn host name) st {
      wi := { st.wi with fp := st.wi.fp.skip (8 + (text.length + text.length % 2)), comment := some text }
      fileSize := st.fileSize, info } := by
  have hsize : wrap32 text.length = text.length := wrap32_eq (by omega) (by omega)
  have hasSize : asSize text.length = text.length := by
    unfold asSize
    omega
  have htextRest := h.body rfl
  have hpadRest := htextRest.skip (n := text.length) rfl
  have hpad : (if ((text.length : Nat) : Int) % 2 = 1 then (((st.wi.fp.skip 8).skip text.length).fgetc).2
      else (st.wi.fp.skip 8).skip text.length) = st.wi.fp.skip (8 + (text.length + text.length % 2)) := by
    unfold padding at hpadRest
    rcases Nat.mod_two_eq_zero_or_one text.length with hmod | hmod
    · rw [if_neg (by omega), hmod, Stream.skip_skip, Nat.add_zero]
    · rw [if_pos hmod] at hpadRest
      rw [if_pos (by omega), hpadRest.fgetc, hmod, Stream.skip_skip, Stream.skip_skip]
  have hchunk := h.readChunk rfl (by omega)
  rw [hsize] at hchunk
  have hread : (st.wi.fp.skip 8).freadItem (asSize text.length) = (some text, (st.wi.fp.skip 8).skip text.length) := by
    rw [hasSize]
    exact htextRest.freadItem rfl htext
  rw [← hasSize] at hmem
  have hturn := waveInfoTurn_comment hchunk rfl hmem hread
  unfold Goes waveTurn
  rw [if_pos hinfo, hturn, hpad, hto]

/-- The format chunk. -/
theorem waveTurn_fmt {channels rate byteRate align bits : Nat} (hinfo : st.info = 0) (hsize : 8 ≤ st.fileSize)
    (hformat : st.wi.fmt.format = 0) (hchannels : channels < 2 ^ 16) (hrate : rate < 2 ^ 32) (hbyteRate : byteRate < 2 ^ 32)
    (halign : align < 2 ^ 16) (hbits : bits < 2 ^ 16)
    (h : st.wi.fp.Rest (riffWaveFmtID ++ (ByteOrder.little.encode 4 16 ++ (ByteOrder.little.encode 2 1 ++
      (ByteOrder.little.encode 2 channels ++ (ByteOrder.little.encode 4 rate ++ (ByteOrder.little.encode 4 byteRate ++
      (ByteOrder.little.encode 2 align ++ (ByteOrder.little.encode 2 bits ++ rest)))))))))
    (hleft : wrap32 (st.fileSize - 24) = left) : Goes (waveTurn host name) st { st with
      wi := { st.wi with
        fp := st.wi.fp.skip 24
        fmt := ⟨1, ⟨asShort channels, true⟩, ⟨wrap32 rate, true⟩, ⟨asShort bits, true⟩⟩ }
      fileSize := left } := by
  have h₀ := h.body rfl
  have h₁ := h₀.skip ByteOrder.length_encode
  have h₂ := h₁.skip ByteOrder.length_encode
  have h₃ := h₂.skip ByteOrder.length_encode
  have h₄ := h₃.skip ByteOrder.length_encode
  have h₅ := h₄.skip ByteOrder.length_encode
  have hfmt : waveFmt host (st.wi.fp.skip 8) =
      (⟨1, ⟨asShort channels, true⟩, ⟨wrap32 rate, true⟩, ⟨asShort bits, true⟩⟩, st.wi.fp.skip 24) := by
    unfold waveFmt
    rw [h₀.fileReadS (by decide)]
    dsimp only
    rw [h₁.fileReadS hchannels]
    dsimp only
    rw [h₂.fileReadL hrate]
    dsimp only
    rw [h₃.fileReadL hbyteRate]
    dsimp only
    rw [h₄.fileReadS halign]
    dsimp only
    rw [h₅.fileReadS hbits]
    simp only [Stream.skip_skip]
    rfl
  unfold Goes waveTurn waveChunkTurn
  rw [if_neg (by simp [hinfo]), if_pos hsize, h.readChunk rfl (by decide)]
  dsimp only
  rw [if_neg (by decide), if_pos ⟨rfl, hformat⟩, hfmt]
  dsimp only
  rw [if_pos rfl, show pad2 (wrap32 (wrap32 (16 : Nat) - 16)) = ((0 : Nat) : Int) from by decide, Stream.seekCur_nat,
    Stream.skip_skip, show 8 + pad2 (wrap32 (16 : Nat)) = 24 from by decide, hleft]

/-- The data chunk. -/
theorem waveTurn_data {data : List UInt8} (hinfo : st.info = 0) (hsize : 8 ≤ st.fileSize) (hnew : st.wi.dataOffset = 0)
    (hdata : data.length + 1 < 2 ^ 31) (hpos : st.wi.fp.pos + 8 + (data.length + 1) < 2 ^ 32) (h : st.wi.fp.Rest (riffWaveDataID ++
      (ByteOrder.little.encode 4 data.length ++ (data ++ padding data.length))))
    (hleft : wrap32 (st.fileSize - (8 + pad2 data.length)) = left) : Goes (waveTurn host name) st { st with
      wi := { st.wi with
        fp := st.wi.fp.skip (8 + (data.length + data.length % 2))
        dataOffset := st.wi.fp.pos, dataSize := data.length }
      fileSize := left } := by
  have hlen : wrap32 data.length = data.length := wrap32_eq (by omega) (by omega)
  have hpad : pad2 data.length = (data.length + data.length % 2 : Nat) := pad2_nat (by omega)
  have hend := (h.body rfl).length
  rw [List.length_append, length_padding, Stream.skip_bytes, Stream.skip_pos] at hend
  have hnext : (st.wi.fp.skip 8).seekSet (asUint32 (((st.wi.fp.pos + 8) % 2 ^ 32 : Nat) +
      (data.length + data.length % 2 : Nat))) = st.wi.fp.skip (8 + (data.length + data.length % 2)) := by
    have hto : asUint32 (((st.wi.fp.pos + 8) % 2 ^ 32 : Nat) + (data.length + data.length % 2 : Nat)) =
        st.wi.fp.pos + (8 + (data.length + data.length % 2)) := by
      unfold asUint32
      omega
    unfold Stream.seekSet Stream.skip
    rw [hto, if_pos (by omega)]
    rfl
  have hoffset : asUint32 (((st.wi.fp.pos + 8) % 2 ^ 32 : Nat) - 8) = st.wi.fp.pos := by
    unfold asUint32
    omega
  have hsize' : asUint32 data.length = data.length := asUint32_natCast (by omega)
  unfold Goes waveTurn waveChunkTurn
  rw [if_neg (by simp [hinfo]), if_pos hsize, h.readChunk rfl (by omega)]
  dsimp only
  rw [if_neg (by decide), if_neg (fun hid => absurd hid.1 (by decide)), if_pos ⟨rfl, hnew⟩, hlen]
  unfold waveData
  dsimp only
  rw [hleft, hpad, Stream.skip_pos, hnext, if_neg (by rw [Stream.skip_bytes, Stream.skip_pos]; omega), hoffset, hsize']

end

def writtenFmt (s : NewSound) : WaveFmt :=
  ⟨1, ⟨asShort (asUint32 s.numTracks), true⟩, ⟨wrap32 (asUint32 s.sampleRate), true⟩, ⟨asShort s.bits, true⟩⟩

theorem asShort_small {n : Nat} (h : n < 2 ^ 15) : asShort n = n := by
  unfold asShort
  refine Int.bmod_eq_of_le ?_ ?_
  · refine Int.le_trans (b := 0) (by decide) (by omega)
  · refine Int.lt_of_lt_of_le (b := 2 ^ 15) (by omega) (by decide)

theorem bits_div (s : NewSound) : ((s.bits : Nat) : Int) / 8 = sizeofFormat s.dataFormat := by
  unfold NewSound.bits
  omega

theorem sizeofFormat_le (f : Nat) : sizeofFormat f ≤ 2 := by
  unfold sizeofFormat
  rcases f with _ | _ | _ | _ | _ | _ | _ | _ | n <;> simp

theorem asUint32_tracks {t : Int} (h : 0 < t) (h' : t < 2 ^ 15) : asUint32 t = t.toNat ∧ asShort (asUint32 t) = t := by
  have hnat : asUint32 t = t.toNat := by
    unfold asUint32
    omega
  refine ⟨hnat, ?_⟩
  rw [hnat, asShort_small (by omega)]
  omega

theorem bits_cases (hformat : 0 < sizeofFormat s.dataFormat) : s.bits = 8 ∨ s.bits = 16 := by
  have := sizeofFormat_le s.dataFormat
  unfold NewSound.bits
  omega

theorem samples_ok {dataSize t b : Nat} (ht : 0 < t) (ht' : t < 2 ^ 32) (hb : 0 < b) (hb' : b ≤ 2) :
    samples dataSize ⟨t, true⟩ ⟨(8 * b : Nat), true⟩ = .ok ⟨dataSize / t / b, true⟩ := by
  have hdiv : ((8 * b : Nat) : Int) / 8 = b := by omega
  unfold samples
  dsimp only
  rw [hdiv, if_neg (by omega), asUint32_natCast ht', asUint32_natCast (by omega)]
  rfl

theorem writtenFmt_eq (htracks : 0 < s.numTracks) (htracks' : s.numTracks < 2 ^ 15)
    (hformat : 0 < sizeofFormat s.dataFormat) :
    writtenFmt s = ⟨1, ⟨s.numTracks, true⟩, ⟨wrap32 (asUint32 s.sampleRate), true⟩, ⟨s.bits, true⟩⟩ := by
  have hbits : asShort s.bits = s.bits := asShort_small (by rcases bits_cases hformat with hb | hb <;> rw [hb] <;> decide)
  unfold writtenFmt
  rw [hbits, (asUint32_tracks htracks htracks').2]

theorem writtenFmt_samples (htracks : 0 < s.numTracks) (htracks' : s.numTracks < 2 ^ 15)
    (hformat : 0 < sizeofFormat s.dataFormat) (n : Nat) :
    samples n (writtenFmt s).channels (writtenFmt s).bitsPerSample =
      .ok ⟨n / s.numTracks.toNat / sizeofFormat s.dataFormat, true⟩ := by
  have := @samples_ok n s.numTracks.toNat _ (by omega) (by omega) hformat (sizeofFormat_le s.dataFormat)
  rw [writtenFmt_eq htracks htracks' hformat, ← this, Int.toNat_of_nonneg (Int.le_of_lt htracks)]
  rfl

/-- The WAVE file, when it was read. -/
def waveRead (s : NewSound) (data : List UInt8) : WaveInfo where
  fp := ⟨waveFile s data, 64 + textSize s⟩
  comment := some (s.comment ++ [0])
  fmt := writtenFmt s
  dataOffset := 56 + textSize s
  dataSize := data.length
  numSamples := ⟨data.length / s.numTracks.toNat / sizeofFormat s.dataFormat, true⟩

theorem blockAlign_lt (htracks : 0 < s.numTracks) (htracks' : s.numTracks < 2 ^ 15)
    (hformat : 0 < sizeofFormat s.dataFormat) :
    asUint32 (asShort (asUint32 s.numTracks) * ((s.bits : Nat) / 8)) < 2 ^ 16 := by
  rw [(asUint32_tracks htracks htracks').2]
  unfold asUint32
  rcases bits_cases hformat with hb | hb <;> rw [hb] <;> omega

theorem waveFinish_ok {wi : WaveInfo} {n : Got Nat} (hoffset : wi.dataOffset ≠ 0)
    (hn : samples wi.dataSize wi.fmt.channels wi.fmt.bitsPerSample = .ok n) : waveFinish host name wi = .ok (some
      (waveRewindFile { wi with numSamples := n, comment := wi.comment <|> fileCommentFromFilename host name })) := by
  unfold waveFinish
  rw [if_neg hoffset, hn]
  rfl

/-- A walk that has not come to the data. -/
def waveAt (fp : Stream) (comment : Option (List UInt8)) (fmt : WaveFmt) (left info : Int) : WaveWalk :=
  { wi := { fp, comment, fmt }, fileSize := left, info }

/-- A WAVE file from its format chunk on. -/
def waveBody (s : NewSound) (data : List UInt8) : List UInt8 :=
  let le (w : Nat) (n : Int) : List UInt8 := ByteOrder.little.encode w (asUint32 n)
  let bytes : Int := s.bits / 8
  riffWaveFmtID ++ (ByteOrder.little.encode 4 16 ++ (ByteOrder.little.encode 2 1 ++ (le 2 s.numTracks ++
    (le 4 s.sampleRate ++ (le 4 (asShort (asUint32 s.numTracks) * s.sampleRate * bytes) ++
    (le 2 (asShort (asUint32 s.numTracks) * bytes) ++ (ByteOrder.little.encode 2 s.bits ++ (riffWaveDataID ++
    (ByteOrder.little.encode 4 data.length ++ (data ++ padding data.length))))))))))

/-- The format and the data behind the comment. The data is read where it starts, when its size is small enough for the
reader. -/
theorem waveTurns_behind {data : List UInt8} {g : Stream} {comment : Option (List UInt8)} {fmt : WaveFmt}
    (htracks : 0 < s.numTracks) (htracks' : s.numTracks < 2 ^ 15) (hformat : 0 < sizeofFormat s.dataFormat)
    (hfmt : fmt.format = 0) (hsize : 32 + (data.length + data.length % 2) < 2 ^ 31)
    (hpos : g.pos + 32 + (data.length + 1) < 2 ^ 32) (h : g.Rest (waveBody s data)) :
    ∃ n t, after (waveTurn host name) n (waveAt g comment fmt (32 + (data.length + data.length % 2) : Nat) 0) = some t ∧
      waveTurn host name t = Turn.stop <$> .ok (some {
        fp := ⟨g.bytes, g.pos + 32⟩, comment := comment <|> fileCommentFromFilename host name, fmt := writtenFmt s
        dataOffset := g.pos + 24, dataSize := data.length
        numSamples := ⟨data.length / s.numTracks.toNat / sizeofFormat s.dataFormat, true⟩ }) := by
  obtain ⟨hnat, hshort⟩ := asUint32_tracks htracks htracks'
  have hpad : pad2 data.length = (data.length + data.length % 2 : Nat) := pad2_nat (by omega)
  have hbits : s.bits < 2 ^ 16 := by rcases bits_cases hformat with hb | hb <;> omega
  unfold waveBody at h
  have h₁ := (h.body rfl).skip ByteOrder.length_encode |>.skip ByteOrder.length_encode |>.skip ByteOrder.length_encode
    |>.skip ByteOrder.length_encode |>.skip ByteOrder.length_encode |>.skip ByteOrder.length_encode
  rw [Stream.skip_skip, Stream.skip_skip, Stream.skip_skip, Stream.skip_skip, Stream.skip_skip, Stream.skip_skip] at h₁
  -- how much is left behind each chunk
  have hleft₁ : wrap32 ((32 + (data.length + data.length % 2) : Nat) - 24) = (8 + (data.length + data.length % 2) : Nat) := by
    rw [wrap32_eq (by omega) (by omega)]
    omega
  have hleft₂ : wrap32 ((8 + (data.length + data.length % 2) : Nat) - (8 + pad2 data.length)) = 0 := by
    rw [hpad, wrap32_eq (by omega) (by omega)]
    omega
  have hle₁ : (8 : Int) ≤ (32 + (data.length + data.length % 2) : Nat) := by omega
  have hle₂ : (8 : Int) ≤ (8 + (data.length + data.length % 2) : Nat) := by omega
  have go₁ : Goes (waveTurn host name) (waveAt g comment fmt (32 + (data.length + data.length % 2) : Nat) 0)
      (waveAt (g.skip 24) comment (writtenFmt s) (8 + (data.length + data.length % 2) : Nat) 0) :=
    waveTurn_fmt rfl hle₁ hfmt (by rw [hnat]; omega) (asUint32_lt _) (asUint32_lt _)
      (blockAlign_lt htracks htracks' hformat) hbits h hleft₁
  have go₂ : Goes (waveTurn host name)
      (waveAt (g.skip 24) comment (writtenFmt s) (8 + (data.length + data.length % 2) : Nat) 0)
      { wi := {
          fp := (g.skip 24).skip (8 + (data.length + data.length % 2)), comment, fmt := writtenFmt s
          dataOffset := (g.skip 24).pos, dataSize := data.length }
        fileSize := 0 } :=
    waveTurn_data rfl hle₂ rfl (by omega) (by dsimp only [waveAt]; rw [Stream.skip_pos]; omega) h₁ hleft₂
  have hnum := writtenFmt_samples htracks htracks' hformat data.length
  refine ⟨2, _, by rw [after_goes go₁, after_goes go₂]; rfl, ?_⟩
  have hoffset : (g.skip 24).pos ≠ 0 := by
    rw [Stream.skip_pos]
    omega
  have hback : ((g.skip 24).skip (8 + (data.length + data.length % 2))).seekSet (((g.skip 24).pos : Nat) + 8) =
      ⟨g.bytes, g.pos + 32⟩ :=
    seekSet_back (by rw [Stream.skip_bytes, Stream.skip_bytes]) (by rw [Stream.skip_pos]; dsimp only; omega)
  have hfinish := @waveFinish_ok host name {
      fp := (g.skip 24).skip (8 + (data.length + data.length % 2)), comment, fmt := writtenFmt s
      dataOffset := (g.skip 24).pos, dataSize := data.length } _ hoffset hnum
  unfold waveRewindFile at hfinish
  dsimp only at hfinish
  rw [hback, Stream.skip_pos] at hfinish
  unfold waveTurn
  rw [if_neg (by simp), if_neg (by simp)]
  exact congrArg _ hfinish

/-- The data is read where it starts, when its size is small enough for the reader. -/
theorem waveTurns {data : List UInt8} (hmem : ∀ n < 2 ^ 63, host.mem n) (htracks : 0 < s.numTracks)
    (htracks' : s.numTracks < 2 ^ 15) (hformat : 0 < sizeofFormat s.dataFormat)
    (hsize : 52 + textSize s + (data.length + data.length % 2) < 2 ^ 31) {fmt : WaveFmt} (hfmt : fmt.format = 0) :
    ∃ n t, after (waveTurn host name) n
      (waveAt ⟨waveFile s data, 12⟩ none fmt (52 + textSize s + (data.length + data.length % 2) : Nat) 0) = some t ∧
      waveTurn host name t = Turn.stop <$> (.ok (some (waveRead s data))) := by
  have htext : (s.comment ++ [0]).length = s.comment.length + 1 := by simp
  have hn : textSize s = s.comment.length + 1 + (s.comment.length + 1) % 2 := rfl
  have hlist : wrap32 ((12 + textSize s : Nat) : Int) = (12 + textSize s : Nat) := wrap32_eq (by omega) (by omega)
  have hpad : pad2 ((12 + textSize s : Nat) : Int) = ((12 + textSize s : Nat) : Int) := by
    rw [pad2_nat (by omega)]
    omega
  have hpad' : pad2 ((s.comment ++ [0]).length : Nat) = textSize s := by
    rw [htext]
    exact pad2_nat (by omega)
  have hwhole : (Stream.mk (waveFile s data) 0).Rest (waveFile s data) := ⟨rfl, Nat.zero_le _⟩
  have hhead := hwhole.body rfl
  unfold waveHead at hhead
  simp only [List.append_assoc] at hhead
  have h₀ := hhead.skip (n := 4) rfl
  obtain ⟨f, hf⟩ : ∃ f, f = Stream.mk (waveFile s data) 12 := ⟨_, rfl⟩
  rw [show ((Stream.mk (waveFile s data) 0).skip 8).skip 4 = f from hf.symm] at h₀
  have h₁ := (h₀.body rfl).skip (n := 4) rfl
  rw [← List.append_assoc s.comment [0], ← htext, Stream.skip_skip, show 8 + 4 = 12 from rfl] at h₁
  have h₂ := ((h₁.body rfl).skip rfl).skip length_padding
  rw [Stream.skip_skip, Stream.skip_skip] at h₂
  -- how much is left behind the list, and of the list behind the comment
  have hleft : wrap32 ((52 + textSize s + (data.length + data.length % 2) : Nat) -
      (8 + pad2 (wrap32 ((12 + textSize s : Nat) : Int)))) = (32 + (data.length + data.length % 2) : Nat) := by
    rw [hlist, hpad, wrap32_eq (by omega) (by omega)]
    omega
  have hinfo₁ : wrap32 (wrap32 ((12 + textSize s : Nat) : Int) - 4) = (8 + textSize s : Nat) := by
    rw [hlist, wrap32_eq (by omega) (by omega)]
    omega
  have hinfo₂ : wrap32 ((8 + textSize s : Nat) - (8 + pad2 ((s.comment ++ [0]).length : Nat))) = 0 := by
    rw [hpad', wrap32_eq (by omega) (by omega)]
    omega
  have hmem' := hmem (s.comment ++ [0]).length (by omega)
  have hne : ((8 + textSize s : Nat) : Int) ≠ 0 := by omega
  have hle : (8 : Int) ≤ (52 + textSize s + (data.length + data.length % 2) : Nat) := by omega
  have go₁ : Goes (waveTurn host name) (waveAt f none fmt (52 + textSize s + (data.length + data.length % 2) : Nat) 0)
      (waveAt (f.skip 12) none fmt (32 + (data.length + data.length % 2) : Nat) (8 + textSize s : Nat)) :=
    waveTurn_list rfl hle (by omega) h₀ hleft hinfo₁
  have go₂ : Goes (waveTurn host name)
      (waveAt (f.skip 12) none fmt (32 + (data.length + data.length % 2) : Nat) (8 + textSize s : Nat))
      (waveAt ((f.skip 12).skip (8 + ((s.comment ++ [0]).length + (s.comment ++ [0]).length % 2))) (some (s.comment ++ [0])) fmt
        (32 + (data.length + data.length % 2) : Nat) 0) :=
    waveTurn_comment hne hmem' (by omega) (by omega) h₁ hinfo₂
  obtain ⟨g, hg⟩ : ∃ g, g = (f.skip 12).skip (8 + ((s.comment ++ [0]).length + (s.comment ++ [0]).length % 2)) := ⟨_, rfl⟩
  rw [← hg] at go₂ h₂
  have hgpos : g.pos = 32 + textSize s := by
    rw [hg, hf, Stream.skip_pos, Stream.skip_pos, htext, hn]
    dsimp only
    omega
  have hgbytes : g.bytes = waveFile s data := by rw [hg, hf, Stream.skip_bytes, Stream.skip_bytes]
  obtain ⟨n, t, hafter, hturn⟩ := @waveTurns_behind host name _ _ g (some (s.comment ++ [0])) fmt htracks htracks' hformat hfmt
    (by omega) (by omega) h₂
  rw [← hf]
  refine ⟨n + 2, t, by rw [after_goes go₁, after_goes go₂]; exact hafter, ?_⟩
  rw [hturn, hgbytes, hgpos, show 32 + textSize s + 32 = 64 + textSize s by omega,
    show 32 + textSize s + 24 = 56 + textSize s by omega]
  rfl

theorem length_waveHead : (waveHead s).length = 52 + textSize s := by
  have hid : riffWaveID.length = 4 ∧ riffListID.length = 4 ∧ riffListInfoID.length = 4 ∧ riffInfoIcmtID.length = 4 ∧
    riffWaveFmtID.length = 4 ∧ riffWaveDataID.length = 4 := ⟨rfl, rfl, rfl, rfl, rfl, rfl⟩
  unfold waveHead textSize
  simp only [List.length_append, ByteOrder.length_encode, length_padding, hid, List.length_singleton]
  omega

theorem waveFile_drop {data : List UInt8} : (waveFile s data).drop (64 + textSize s) = data ++ padding data.length := by
  have hsplit : waveFile s data = (riffRiffID ++ (ByteOrder.little.encode 4 (56 + textSize s + (data.length +
      data.length % 2)) ++ (waveHead s ++ ByteOrder.little.encode 4 data.length))) ++ (data ++ padding data.length) := by
    unfold waveFile
    simp only [List.append_assoc]
  rw [hsplit, List.drop_left']
  rw [List.length_append, List.length_append, List.length_append, ByteOrder.length_encode, ByteOrder.length_encode,
    length_waveHead, show riffRiffID.length = 4 from rfl]
  omega

theorem waveFormat (h : s.dataFormat ∈ FileFormat.wave.dataFormats) :
    0 < sizeofFormat s.dataFormat ∧ bitsToSoundFormat 2 6 s.bits = s.dataFormat := by
  have hcases : s.dataFormat = 2 ∨ s.dataFormat = 6 := by simpa [FileFormat.dataFormats] using h
  unfold NewSound.bits
  rcases hcases with hf | hf <;> rw [hf] <;> decide

theorem waveToSound_some (p : WaveInfo) : ∃ r, waveToSound p = .ok (some r) ∧ r.numTracks = p.fmt.channels ∧
    r.dataFormat = p.fmt.bitsPerSample.map (bitsToSoundFormat 2 6) ∧ r.comment = p.comment ∧
    r.numSamples = p.numSamples.map (fun n : Nat => wrap32 n) ∧ r.formatInfo = .wave p :=
  ⟨_, rfl, rfl, rfl, rfl, rfl, rfl⟩

theorem fp_of_wave {r : Sound} {p : WaveInfo} (h : r.formatInfo = .wave p) : r.fp = p.fp := by
  unfold Sound.fp
  rw [h]

/-- What is left of a file of an even size behind its form. -/
theorem left_form {n left : Nat} (h : n = left + 4) (heven : n % 2 = 0) :
    wrap32 (pad2 (wrap32 n) - 4) = wrap32 left := by
  obtain ⟨k, hk⟩ := pad2_wrap32 n
  refine wrap32_congr k ?_
  rw [hk]
  omega

/-- A WAVE file is opened just when the size behind its form is positive for the reader. -/
theorem opened_wave {bytes : List UInt8} {left : Nat} {fmt : WaveFmt} {p : WaveInfo} {r : Sound} {Q : Sound → Prop}
    (hmem : host.mem 40) (htake : bytes.take 4 = riffRiffID) (hlt : left < 2 ^ 32)
    (hstart : waveStart host bytes = some (waveAt ⟨bytes, 12⟩ none fmt (wrap32 left) 0))
    (hturns : left < 2 ^ 31 → ∃ n t, after (waveTurn host name) n (waveAt ⟨bytes, 12⟩ none fmt left 0) = some t ∧
      waveTurn host name t = Turn.stop <$> .ok (some p)) (hr : waveToSound p = .ok (some r)) :
    (∃ n r, soundOpenFileForReading host name n bytes = .ok (some r) ∧ Q r) ↔ left < 2 ^ 31 ∧ Q r := by
  have honly := fun n => @only_wave host name _ hmem n htake
  rw [hstart] at honly
  by_cases hc : left < 2 ^ 31
  · obtain ⟨fuel, hloop⟩ := (loop_eq_iff (fun h => by cases h)).2 (hturns hc)
    rw [← wrap32_eq (x := left) (by omega) (by omega)] at hloop
    rw [opened_some honly hloop hr]
    exact ⟨fun h => ⟨hc, h⟩, fun h => h.2⟩
  · have hneg := wrap32_neg (n := left) (by omega) hlt
    have hstop : walk (waveTurn host name) 1 (some (waveAt ⟨bytes, 12⟩ none fmt (wrap32 left) 0)) = .ok none := by
      unfold waveAt walk loop waveTurn
      dsimp only
      rw [if_neg (by simp), if_neg (Int.not_le.2 (Int.lt_of_lt_of_le hneg (by decide)))]
      rfl
    exact ⟨fun h => absurd h (opened_none honly hstop), fun h => absurd h.1 hc⟩

/-- What is read of a written WAVE file. -/
theorem wave_opened {data : List UInt8} (hmem : ∀ n < 2 ^ 63, host.mem n)
    (hformat : 0 < sizeofFormat s.dataFormat) (htracks : 0 < s.numTracks) (htracks' : s.numTracks < 2 ^ 15)
    (hsize : 56 + textSize s + (data.length + data.length % 2) < 2 ^ 32) {r : Sound} {Q : Sound → Prop}
    (hr : waveToSound (waveRead s data) = .ok (some r)) :
    (∃ n r, soundOpenFileForReading host name n (waveFile s data) = .ok (some r) ∧ Q r) ↔
      52 + textSize s + (data.length + data.length % 2) < 2 ^ 31 ∧ Q r := by
  have heven : textSize s % 2 = 0 := by
    unfold textSize
    omega
  have hstart : waveStart host (waveFile s data) = some (waveAt ⟨waveFile s data, 12⟩ none
      ⟨0, unset host 6, unset host 7, unset host 8⟩
      (wrap32 ((52 + textSize s + (data.length + data.length % 2) : Nat) : Int)) 0) := by
    unfold waveFile waveHead waveAt
    rw [← left_form (n := 56 + textSize s + (data.length + data.length % 2)) (by omega) (by omega)]
    simp only [List.append_assoc]
    exact waveStart_file (hmem 56 (by decide)) hsize
  exact opened_wave (hmem 40 (by decide)) (List.take_left' rfl) (by omega) hstart
    (fun hc => waveTurns hmem htracks htracks' hformat hc rfl) hr

/-- A written WAVE file is read back just when its size is positive for the reader, its data needs no pad byte, and no
block has a part of a sample that the others complete. -/
theorem wave_readsBack_iff {w : Writing} {data : List UInt8} (hmem : ∀ n < 2 ^ 63, host.mem n) (hw : w.sound = s)
    (hn : w.numSamples = wrap32 (samplesWritten s blocks : Nat)) (hdata : data = blocks.flatten)
    (hdataFormat : s.dataFormat ∈ FileFormat.wave.dataFormats) (htracks : 0 < s.numTracks) (htracks' : s.numTracks < 2 ^ 15)
    (hsize : 56 + textSize s + (data.length + data.length % 2) < 2 ^ 32) :
    (∃ n r, soundOpenFileForReading host name n (waveFile s data) = .ok (some r) ∧ ReadsBack w data r) ↔
      52 + textSize s + (data.length + data.length % 2) < 2 ^ 31 ∧ data.length % 2 = 0 ∧
        samplesWritten s blocks = data.length / s.numTracks.toNat / sizeofFormat s.dataFormat := by
  obtain ⟨hformat, hbits⟩ := waveFormat hdataFormat
  have hle : data.length / s.numTracks.toNat / sizeofFormat s.dataFormat ≤ data.length :=
    Nat.le_trans (Nat.div_le_self _ _) (Nat.div_le_self _ _)
  have hle' : samplesWritten s blocks ≤ data.length := hdata ▸ samplesWritten_le
  have hfmt := writtenFmt_eq htracks htracks' hformat
  obtain ⟨r, hr, hchannels, hdataFormat', hcomment, hnum, hinfo⟩ := waveToSound_some (waveRead s data)
  have hpos : (waveRead s data).dataOffset + 8 = (waveRead s data).fp.pos := by
    unfold waveRead
    dsimp only
    omega
  have hback : ReadsBack w data r ↔ samplesWritten s blocks = data.length / s.numTracks.toNat / sizeofFormat s.dataFormat ∧
      data ++ padding data.length = data := by
    refine readsBack_iff ?_ ?_ ?_ ?_ (by omega) hn (by omega) ?_ (rewound_wave hinfo hpos)
    · rw [hchannels, hw, show (waveRead s data).fmt = writtenFmt s from rfl, hfmt]
    · rw [hdataFormat', hw, show (waveRead s data).fmt = writtenFmt s from rfl, hfmt, Got.map_val, hbits]
    · rw [hcomment, hw]
      rfl
    · rw [hnum, Got.map_val]
      rfl
    · rw [fp_of_wave hinfo]
      exact waveFile_drop
  rw [wave_opened hmem hformat htracks htracks' hsize hr, hback, append_padding_eq]
  exact ⟨fun h => ⟨h.1, h.2.2, h.2.1⟩, fun h => ⟨h.1, h.2.2, h.2.1⟩⟩

/-! ### AIFF -/

/-- An `AiffOpenFileForWriting`, from the first size on. -/
def aiffHead (host : Host) (s : NewSound) : List UInt8 :=
  let be (w n : Nat) : List UInt8 := ByteOrder.big.encode w n
  aiffAiffID ++ (aiffCommentID ++ (be 4 (10 + textSize s) ++ (be 2 1 ++ (be 4 0 ++ (be 2 0 ++ (be 2 (s.comment.length + 1) ++
    (s.comment ++ [0] ++ (padding (s.comment.length + 1) ++ (aiffCommonID ++ (be 4 18 ++ (be 2 (asUint32 s.numTracks) ++
    (be 4 (asUint32 (host.junk 60 0)) ++ (be 2 s.bits ++ (host.toIeeeExtended s.sampleRate ++ aiffSoundDataID))))))))))))))

/-- An AIFF file. The size of its data chunk leaves out the chunk's own fields. -/
def aiffFile (host : Host) (s : NewSound) (data : List UInt8) : List UInt8 :=
  aiffFormID ++ (ByteOrder.big.encode 4 (64 + textSize s + (data.length + data.length % 2)) ++ (aiffHead host s ++
    (ByteOrder.big.encode 4 data.length ++ (ByteOrder.big.encode 4 0 ++ (ByteOrder.big.encode 4 0 ++
    (data ++ padding data.length))))))

theorem aiffOpenFileForWriting_eq (hne : s.comment ≠ []) (hn : s.comment.length + 2 < 2 ^ 31) :
    aiffOpenFileForWriting host s = {
      fp := ⟨aiffFormID ++ (ByteOrder.big.encode 4 0 ++ (aiffHead host s ++ (ByteOrder.big.encode 4 0 ++
          (ByteOrder.big.encode 4 0 ++ ByteOrder.big.encode 4 0)))),
        (aiffFormID ++ (ByteOrder.big.encode 4 0 ++ (aiffHead host s ++ (ByteOrder.big.encode 4 0 ++
          (ByteOrder.big.encode 4 0 ++ ByteOrder.big.encode 4 0))))).length⟩
      fileSize := 64 + textSize s
      sizeOffset := aiffFormID.length
      dataOffset := (aiffFormID ++ (ByteOrder.big.encode 4 0 ++ aiffHead host s)).length } := by
  have hlen : s.comment.length ≠ 0 := fun h => hne (List.length_eq_zero_iff.1 h)
  have htext : textSize s = s.comment.length + 1 + (s.comment.length + 1) % 2 := rfl
  have hpad : pad2 ((s.comment.length : Int) + 1) = (textSize s : Int) := pad2_nat (n := s.comment.length + 1) (by omega)
  have hpadding : (padByte ((s.comment.length : Int) + 1)).flatten = padding (s.comment.length + 1) :=
    padByte_flatten (n := s.comment.length + 1)
  unfold aiffOpenFileForWriting aiffHead
  dsimp only
  rw [if_pos (by omega), fwrite_start, hpad]
  dsimp only
  rw [Stream.fwriteAll_end, Stream.fwriteAll_end, Stream.fwriteAll_end, Stream.fwrite_end, Stream.fwriteAll_end]
  dsimp only
  have hbits : asUint32 s.bits = s.bits := asUint32_natCast (bits_lt s)
  have hsize : asUint32 (10 + (textSize s : Int)) = 10 + textSize s := by
    unfold asUint32
    omega
  have hlength : asUint32 ((s.comment.length : Int) + 1) = s.comment.length + 1 := by
    unfold asUint32
    omega
  have hfileSize : asUint32 (4 + (8 + (10 + (textSize s : Int))) + (8 + 18) + (8 + 8)) = 64 + textSize s := by
    unfold asUint32
    omega
  rw [hbits, hsize, hlength, hfileSize, show asUint32 0 = 0 from rfl, show asUint32 1 = 1 from rfl,
    show asUint32 18 = 18 from rfl]
  simp only [List.flatten_append, List.flatten_cons, List.flatten_nil, List.append_nil, hpadding, List.append_assoc]

/-- The sizes are written when an AIFF file is closed. -/
theorem aiffClose_eq {size i j : Nat} {l b data : List UInt8} (hdata : data.length + 1 < 2 ^ 32)
    (hl : l = aiffFormID ++ (ByteOrder.big.encode 4 0 ++ (b ++ (ByteOrder.big.encode 4 0 ++ (ByteOrder.big.encode 4 0 ++
      (ByteOrder.big.encode 4 0 ++ data))))))
    (hi : i = aiffFormID.length) (hj : j = (aiffFormID ++ (ByteOrder.big.encode 4 0 ++ b)).length) :
    aiffCloseFile ⟨⟨l, l.length⟩, size, i, j, data.length⟩ = aiffFormID ++ (ByteOrder.big.encode 4
      (size + (data.length + data.length % 2)) ++ (b ++ (ByteOrder.big.encode 4 data.length ++ (ByteOrder.big.encode 4 0 ++
        (ByteOrder.big.encode 4 0 ++ (data ++ padding data.length)))))) := by
  unfold aiffCloseFile
  dsimp only
  rw [Stream.fwriteAll_end, padByte_flatten, upad2_eq hdata]
  exact patched (y := ByteOrder.big.encode 4 0) (by simp only [hl, List.append_assoc]) (by simp) (by simp) hi hj

theorem writeAiff (haiff : s.fileFormat = .aiff) (hne : s.comment ≠ []) (hn : s.comment.length + 2 < 2 ^ 31)
    (htracks : 0 < s.numTracks) (hformat : 0 < sizeofFormat s.dataFormat) (hblocks : ∀ b ∈ blocks, b.length < 2 ^ 31)
    (hsize : blocks.flatten.length + 1 < 2 ^ 32) (numSamples : Int) : ∃ w, writeSound host s numSamples blocks = .ok w ∧
      w.sound = s ∧ w.numSamples = wrap32 (samplesWritten s blocks : Nat) ∧
      soundCloseFile w = aiffFile host s blocks.flatten := by
  have hopen : soundOpenFileForWriting host s numSamples = .ok ⟨s, aiffOpenFileForWriting host s, 0⟩ := by
    unfold soundOpenFileForWriting
    rw [haiff]
    rfl
  rw [aiffOpenFileForWriting_eq hne hn] at hopen
  have hle := @samplesWritten_le s blocks
  obtain ⟨w, hw, hsound, hnum, hout⟩ := writeSound_ok hopen rfl rfl htracks hformat hblocks (by omega)
  refine ⟨w, hw, hsound, hnum, ?_⟩
  unfold soundCloseFile
  rw [hsound, haiff, hout, Nat.mod_eq_of_lt (by omega)]
  dsimp only
  exact aiffClose_eq hsize (by simp only [List.append_assoc]) rfl rfl

section
variable {rest : List UInt8} {f : Stream}

theorem aiffComment_read {ai : AiffInfo} {text : List UInt8} {ckSize : Int} (hmem : host.mem text.length)
    (htext : 0 < text.length) (hlt : text.length < 2 ^ 16) (hsize : ckSize = (10 + (text.length + text.length % 2) : Nat))
    (h : ai.fp.Rest (ByteOrder.big.encode 2 1 ++ (ByteOrder.big.encode 4 0 ++ (ByteOrder.big.encode 2 0 ++
      (ByteOrder.big.encode 2 text.length ++ (text ++ (padding text.length ++ rest))))))) :
    aiffComment host ckSize ai = some { ai with
      comment := some text, fp := ai.fp.skip (10 + (text.length + text.length % 2)) } := by
  have h₁ := h.skip ByteOrder.length_encode
  have h₂ := h₁.skip ByteOrder.length_encode
  have h₃ := h₂.skip ByteOrder.length_encode
  have h₄ := h₃.skip ByteOrder.length_encode
  rw [Stream.skip_skip, Stream.skip_skip, Stream.skip_skip] at h₄
  have h₅ := h₄.skip (n := text.length) rfl
  have hpad : (if text.length % 2 = 1 then ((ai.fp.skip 10).skip text.length).fgetc.2 else (ai.fp.skip 10).skip text.length) =
      ai.fp.skip (10 + (text.length + text.length % 2)) := by
    unfold padding at h₅
    rcases Nat.mod_two_eq_zero_or_one text.length with hmod | hmod
    · rw [if_neg (by omega), hmod, Stream.skip_skip, Nat.add_zero]
    · rw [if_pos hmod] at h₅
      rw [if_pos hmod, Stream.Rest.fgetc (f := (ai.fp.skip 10).skip text.length) h₅, hmod, Stream.skip_skip,
        Stream.skip_skip]
  have hrest : wrap32 (ckSize - (10 + pad2 text.length)) = 0 := by
    rw [pad2_nat (by omega), hsize, wrap32_eq (by omega) (by omega)]
    omega
  unfold aiffComment
  rw [h.fileReadS (by decide)]
  dsimp only
  rw [if_pos (by decide), h₁.fileReadL (by decide)]
  dsimp only
  rw [h₂.fileReadS (by decide)]
  dsimp only
  rw [h₃.fileReadS hlt]
  dsimp only
  rw [if_pos (by omega), if_pos hmem, hrest]
  simp only [Stream.skip_skip]
  rw [h₄.freadItem rfl htext]
  dsimp only
  rw [if_neg (by simp), show 2 + (4 + (2 + 2)) = 10 from rfl, hpad]

variable {st : AiffWalk} {x left : Nat}

theorem aiffTurn_comment {text : List UInt8} (hmore : MoreChunks st.fileSize) (hmem : host.mem text.length)
    (htext : 0 < text.length) (hlt : text.length < 2 ^ 16) (hx : x = 10 + (text.length + text.length % 2))
    (h : st.ai.fp.Rest (aiffCommentID ++ (ByteOrder.big.encode 4 x ++ (ByteOrder.big.encode 2 1 ++
      (ByteOrder.big.encode 4 0 ++ (ByteOrder.big.encode 2 0 ++ (ByteOrder.big.encode 2 text.length ++
      (text ++ (padding text.length ++ rest)))))))))
    (hleft : wrap32 (st.fileSize - (8 + pad2 (wrap32 x))) = wrap32 left) : Goes (aiffTurn host name) st {
      ai := { st.ai with comment := some text, fp := (st.ai.fp.skip 8).skip (10 + (text.length + text.length % 2)) }
      fileSize := wrap32 left } := by
  have hsize : wrap32 x = (10 + (text.length + text.length % 2) : Nat) := by
    rw [hx]
    exact wrap32_eq (by omega) (by omega)
  have hread : aiffComment host (wrap32 x) { st.ai with fp := st.ai.fp.skip 8 } = _ :=
    aiffComment_read hmem htext hlt hsize (h.body rfl)
  unfold Goes aiffTurn aiffChunkTurn
  rw [if_pos hmore, h.readChunk rfl (by omega)]
  dsimp only
  rw [if_neg (by decide), if_neg (by decide), if_pos rfl, hread, hleft]

theorem aiffTurn_common {channels n bits : Nat} {rate : List UInt8} (hmore : MoreChunks st.fileSize)
    (hchannels : channels < 2 ^ 16) (hn : n < 2 ^ 32) (hbits : bits < 2 ^ 16) (hrate : rate.length = 10)
    (h : st.ai.fp.Rest (aiffCommonID ++ (ByteOrder.big.encode 4 18 ++ (ByteOrder.big.encode 2 channels ++
      (ByteOrder.big.encode 4 n ++ (ByteOrder.big.encode 2 bits ++ (rate ++ rest)))))))
    (hleft : wrap32 (st.fileSize - (8 + pad2 (wrap32 (18 : Nat)))) = wrap32 left) : Goes (aiffTurn host name) st {
      ai := { st.ai with
        common := ⟨⟨asShort channels, true⟩, ⟨asShort bits, true⟩, ⟨host.fromIeeeExtended rate, true⟩⟩
        fp := st.ai.fp.skip 26 }
      fileSize := wrap32 left } := by
  have h₀ := h.body rfl
  have h₁ := h₀.skip ByteOrder.length_encode
  have h₂ := h₁.skip ByteOrder.length_encode
  have h₃ := h₂.skip ByteOrder.length_encode
  have hcommon : aiffCommon host (st.ai.fp.skip 8) =
      (some ⟨⟨asShort channels, true⟩, ⟨asShort bits, true⟩, ⟨host.fromIeeeExtended rate, true⟩⟩, st.ai.fp.skip 26) := by
    unfold aiffCommon
    rw [h₀.fileReadS hchannels]
    dsimp only
    rw [h₁.fileReadL hn]
    dsimp only
    rw [h₂.fileReadS hbits]
    dsimp only
    rw [h₃.freadItem hrate (by decide)]
    simp only [Stream.skip_skip]
    rfl
  unfold Goes aiffTurn aiffChunkTurn
  rw [if_pos hmore, h.readChunk rfl (by decide)]
  dsimp only
  rw [if_pos rfl, hcommon, hleft]

theorem aiffTurn_data (hmore : MoreChunks st.fileSize) (hx : x < 2 ^ 32)
    (h : st.ai.fp.Rest (aiffSoundDataID ++ (ByteOrder.big.encode 4 x ++ (ByteOrder.big.encode 4 0 ++
      (ByteOrder.big.encode 4 0 ++ rest)))))
    (hleft : wrap32 (st.fileSize - (8 + pad2 (wrap32 x))) = wrap32 left) : ∃ g : Stream, g.bytes = st.ai.fp.bytes ∧
      Goes (aiffTurn host name) st {
        ai := { st.ai with
          fp := g, dataOffset := ⟨asUint32 ((st.ai.fp.pos + 16 : Nat) - 24), true⟩
          dataSize := asUint32 (wrap32 x - 8) }
        fileSize := wrap32 left } := by
  have h₀ := h.body rfl
  have h₁ := h₀.skip ByteOrder.length_encode
  refine ⟨(st.ai.fp.skip 16).seekCur (wrap32 (pad2 (wrap32 x) - 8 + wrap32 ((0 : Nat) : Int))), ?_, ?_⟩
  · rw [Stream.seekCur_bytes, Stream.skip_bytes]
  · unfold Goes aiffTurn aiffChunkTurn
    rw [if_pos hmore, h.readChunk rfl hx]
    dsimp only
    rw [if_neg (by decide), if_pos rfl, hleft]
    unfold aiffSoundData
    rw [h₀.fileReadL (by decide)]
    dsimp only
    rw [h₁.fileReadL (by decide)]
    dsimp only
    rw [Got.map, Stream.skip_skip, Stream.skip_skip, Stream.skip_pos, show 8 + (4 + 4) = 16 from rfl,
      show wrap32 ((0 : Nat) : Int) = 0 from by decide, Int.add_zero, Int.add_zero]

end

/-- The size of the data, as it is read. -/
def aiffReadSize (data : List UInt8) : Nat := (data.length + (2 ^ 32 - 8)) % 2 ^ 32

theorem aiffReadSize_eq {data : List UInt8} : asUint32 (wrap32 data.length - 8) = aiffReadSize data := by
  obtain ⟨k, hk⟩ := wrap32_exists data.length
  unfold asUint32 aiffReadSize
  rw [hk]
  omega

def writtenCommon (host : Host) (s : NewSound) : AiffCommon :=
  ⟨⟨asShort (asUint32 s.numTracks), true⟩, ⟨asShort s.bits, true⟩,
    ⟨host.fromIeeeExtended (host.toIeeeExtended s.sampleRate), true⟩⟩

/-- The AIFF file, when it was read. -/
def aiffRead (host : Host) (s : NewSound) (data : List UInt8) : AiffInfo where
  fp := ⟨aiffFile host s data, 72 + textSize s⟩
  comment := some (s.comment ++ [0])
  common := writtenCommon host s
  dataOffset := ⟨48 + textSize s, true⟩
  dataSize := aiffReadSize data
  numSamples := ⟨aiffReadSize data / s.numTracks.toNat / sizeofFormat s.dataFormat, true⟩

theorem writtenCommon_samples (htracks : 0 < s.numTracks) (htracks' : s.numTracks < 2 ^ 15)
    (hformat : 0 < sizeofFormat s.dataFormat) (n : Nat) :
    samples n (writtenCommon host s).channels (writtenCommon host s).bitsPerSample =
      .ok ⟨n / s.numTracks.toNat / sizeofFormat s.dataFormat, true⟩ :=
  writtenFmt_samples htracks htracks' hformat n

theorem aiffFinish_ok {ai : AiffInfo} {n : Got Nat} (hoffset : ai.dataOffset.val ≠ 0)
    (hn : samples ai.dataSize ai.common.channels ai.common.bitsPerSample = .ok n) : aiffFinish host name ai = .ok (some
      (aiffRewindFile { ai with numSamples := n, comment := ai.comment <|> fileCommentFromFilename host name })) := by
  unfold aiffFinish
  rw [if_neg hoffset, hn]
  rfl

theorem length_aiffHead : (aiffHead host s).length = 52 + textSize s := by
  have hid : aiffAiffID.length = 4 ∧ aiffCommentID.length = 4 ∧ aiffCommonID.length = 4 ∧ aiffSoundDataID.length = 4 :=
    ⟨rfl, rfl, rfl, rfl⟩
  unfold aiffHead textSize
  simp only [List.length_append, ByteOrder.length_encode, length_padding, hid, List.length_singleton,
    host.length_toIeeeExtended]
  omega

theorem aiffFile_drop {data : List UInt8} :
    (aiffFile host s data).drop (72 + textSize s) = data ++ padding data.length := by
  have hsplit : aiffFile host s data = (aiffFormID ++ (ByteOrder.big.encode 4 (64 + textSize s + (data.length +
      data.length % 2)) ++ (aiffHead host s ++ (ByteOrder.big.encode 4 data.length ++ (ByteOrder.big.encode 4 0 ++
      ByteOrder.big.encode 4 0))))) ++ (data ++ padding data.length) := by
    unfold aiffFile
    simp only [List.append_assoc]
  rw [hsplit, List.drop_left']
  rw [List.length_append, List.length_append, List.length_append, List.length_append, List.length_append,
    ByteOrder.length_encode, ByteOrder.length_encode, ByteOrder.length_encode, length_aiffHead,
    show aiffFormID.length = 4 from rfl]
  omega

/-- A walk that has not come to the data. -/
def aiffAt (fp : Stream) (comment : Option (List UInt8)) (common : AiffCommon) (left : Nat) : AiffWalk :=
  { ai := { fp, comment, common }, fileSize := wrap32 left }

theorem aiffAt_more {fp : Stream} {comment : Option (List UInt8)} {common : AiffCommon} {left : Nat} (h : 8 < left)
    (h' : left < 2 ^ 32) : MoreChunks (aiffAt fp comment common left).fileSize := by
  unfold aiffAt
  dsimp only
  exact (moreChunks_wrap32 h').2 h

theorem aiffAt_left {fp : Stream} {comment : Option (List UInt8)} {common : AiffCommon} {left left' c : Nat}
    (h : left = left' + (8 + (c + c % 2))) :
    wrap32 ((aiffAt fp comment common left).fileSize - (8 + pad2 (wrap32 c))) = wrap32 left' := by
  unfold aiffAt
  dsimp only
  exact left_pad h

/-- An AIFF file from its common chunk on. -/
def aiffBody (host : Host) (s : NewSound) (data : List UInt8) : List UInt8 :=
  let be (w n : Nat) : List UInt8 := ByteOrder.big.encode w n
  aiffCommonID ++ (be 4 18 ++ (be 2 (asUint32 s.numTracks) ++ (be 4 (asUint32 (host.junk 60 0)) ++ (be 2 s.bits ++
    (host.toIeeeExtended s.sampleRate ++ (aiffSoundDataID ++ (be 4 data.length ++ (be 4 0 ++ (be 4 0 ++
    (data ++ padding data.length))))))))))

/-- The format and the data behind the comment. -/
theorem aiffTurns_behind {data : List UInt8} {g : Stream} {comment : Option (List UInt8)} {common : AiffCommon}
    (htracks : 0 < s.numTracks) (htracks' : s.numTracks < 2 ^ 15) (hformat : 0 < sizeofFormat s.dataFormat)
    (hsize : 42 + (data.length + data.length % 2) < 2 ^ 32) (hpos : g.pos + 42 < 2 ^ 32) (h : g.Rest (aiffBody host s data)) :
    ∃ n t, after (aiffTurn host name) n (aiffAt g comment common (42 + (data.length + data.length % 2))) = some t ∧
      aiffTurn host name t = Turn.stop <$> .ok (some {
        fp := ⟨g.bytes, g.pos + 42⟩, comment := comment <|> fileCommentFromFilename host name, common := writtenCommon host s
        dataOffset := ⟨g.pos + 18, true⟩, dataSize := aiffReadSize data
        numSamples := ⟨aiffReadSize data / s.numTracks.toNat / sizeofFormat s.dataFormat, true⟩ }) := by
  obtain ⟨hnat, hshort⟩ := asUint32_tracks htracks htracks'
  have hbits : s.bits < 2 ^ 16 := by rcases bits_cases hformat with hb | hb <;> omega
  unfold aiffBody at h
  have h₁ := (h.body rfl).skip ByteOrder.length_encode |>.skip ByteOrder.length_encode |>.skip ByteOrder.length_encode
    |>.skip (host.length_toIeeeExtended _)
  rw [Stream.skip_skip, Stream.skip_skip, Stream.skip_skip, Stream.skip_skip,
    show 8 + (2 + (4 + (2 + 10))) = 26 from rfl] at h₁
  have go₁ : Goes (aiffTurn host name) (aiffAt g comment common (42 + (data.length + data.length % 2)))
      (aiffAt (g.skip 26) comment (writtenCommon host s) (16 + (data.length + data.length % 2))) :=
    aiffTurn_common (aiffAt_more (by omega) (by omega)) (by omega) (asUint32_lt _) hbits (host.length_toIeeeExtended _) h
      (aiffAt_left (by omega))
  obtain ⟨e, he, go₂⟩ : ∃ e : Stream, e.bytes = (g.skip 26).bytes ∧ Goes (aiffTurn host name)
      (aiffAt (g.skip 26) comment (writtenCommon host s) (16 + (data.length + data.length % 2))) {
        ai := {
          fp := e, comment, common := writtenCommon host s
          dataOffset := ⟨asUint32 (((g.skip 26).pos + 16 : Nat) - 24), true⟩
          dataSize := asUint32 (wrap32 data.length - 8) }
        fileSize := wrap32 ((8 : Nat) : Int) } :=
    aiffTurn_data (aiffAt_more (by omega) (by omega)) (by omega) h₁ (aiffAt_left (by omega))
  have hoffset : asUint32 (((g.skip 26).pos + 16 : Nat) - 24) = g.pos + 18 := by
    rw [Stream.skip_pos]
    unfold asUint32
    omega
  rw [hoffset, aiffReadSize_eq] at go₂
  have hne : g.pos + 18 ≠ 0 := by omega
  have hfinish := @aiffFinish_ok host name {
      fp := e, comment, common := writtenCommon host s, dataOffset := ⟨g.pos + 18, true⟩, dataSize := aiffReadSize data } _
    hne (writtenCommon_samples htracks htracks' hformat _)
  have hback : e.seekSet (((g.pos + 18 : Nat) : Int) + 24) = ⟨g.bytes, g.pos + 42⟩ :=
    seekSet_back (by rw [he, Stream.skip_bytes]) (by dsimp only; omega)
  unfold aiffRewindFile at hfinish
  dsimp only at hfinish
  rw [hback] at hfinish
  refine ⟨2, _, by rw [after_goes go₁, after_goes go₂]; rfl, ?_⟩
  have hend : ¬ MoreChunks (wrap32 ((8 : Nat) : Int)) := by decide
  unfold aiffTurn
  dsimp only
  rw [if_neg hend, hfinish]

theorem aiffTurns {data : List UInt8} (hmem : ∀ n < 2 ^ 63, host.mem n) (htracks : 0 < s.numTracks)
    (htracks' : s.numTracks < 2 ^ 15) (hformat : 0 < sizeofFormat s.dataFormat) (hn : s.comment.length + 1 < 2 ^ 16)
    (hsize : 64 + textSize s + (data.length + data.length % 2) < 2 ^ 32) {common : AiffCommon} :
    ∃ n t, after (aiffTurn host name) n
      (aiffAt ⟨aiffFile host s data, 12⟩ none common (60 + textSize s + (data.length + data.length % 2))) = some t ∧
      aiffTurn host name t = Turn.stop <$> (.ok (some (aiffRead host s data))) := by
  have htext : (s.comment ++ [0]).length = s.comment.length + 1 := by simp
  have htextSize : textSize s = s.comment.length + 1 + (s.comment.length + 1) % 2 := rfl
  have hwhole : (Stream.mk (aiffFile host s data) 0).Rest (aiffFile host s data) := ⟨rfl, Nat.zero_le _⟩
  have hhead := hwhole.body rfl
  unfold aiffHead at hhead
  simp only [List.append_assoc] at hhead
  have h₀ := hhead.skip (n := 4) rfl
  obtain ⟨f, hf⟩ : ∃ f, f = Stream.mk (aiffFile host s data) 12 := ⟨_, rfl⟩
  rw [show ((Stream.mk (aiffFile host s data) 0).skip 8).skip 4 = f from hf.symm, ← List.append_assoc s.comment [0],
    ← htext] at h₀
  have h₁ := (h₀.body rfl).skip ByteOrder.length_encode |>.skip ByteOrder.length_encode |>.skip ByteOrder.length_encode
    |>.skip ByteOrder.length_encode |>.skip (n := (s.comment ++ [0]).length) rfl |>.skip length_padding
  obtain ⟨g, hg⟩ : ∃ g, g = (f.skip 8).skip (10 + ((s.comment ++ [0]).length + (s.comment ++ [0]).length % 2)) := ⟨_, rfl⟩
  have hgpos : g.pos = 30 + textSize s := by
    rw [hg, hf, Stream.skip_pos, Stream.skip_pos, htext, htextSize]
    dsimp only
    omega
  have hgbytes : g.bytes = aiffFile host s data := by
    rw [hg, hf, Stream.skip_bytes, Stream.skip_bytes]
  have hskip : ∀ n m : Nat, (((((f.skip 8).skip 2).skip 4).skip 2).skip 2 |>.skip n).skip m = (f.skip 8).skip (10 + (n + m)) := by
    intro n m
    simp only [Stream.skip_skip]
    rw [show 8 + 2 + 4 + 2 + 2 + n + m = 8 + (10 + (n + m)) by omega]
  rw [hskip, ← hg] at h₁
  have hmem' := hmem (s.comment ++ [0]).length (by omega)
  have go₁ : Goes (aiffTurn host name) (aiffAt f none common (60 + textSize s + (data.length + data.length % 2)))
      (aiffAt g (some (s.comment ++ [0])) common (42 + (data.length + data.length % 2))) := by
    rw [hg]
    exact aiffTurn_comment (aiffAt_more (by omega) (by omega)) hmem' (by omega) (by omega) (by omega) h₀
      (aiffAt_left (by omega))
  obtain ⟨n, t, hafter, hturn⟩ := @aiffTurns_behind host name _ _ g (some (s.comment ++ [0])) common htracks htracks' hformat
    (by omega) (by omega) h₁
  rw [← hf]
  refine ⟨n + 1, t, by rw [after_goes go₁]; exact hafter, ?_⟩
  rw [hturn, hgbytes, hgpos, show 30 + textSize s + 42 = 72 + textSize s by omega,
    show 30 + textSize s + 18 = 48 + textSize s by omega]
  rfl

theorem aiffStart_file {R : Nat} {rest : List UInt8} (hmem : host.mem 48) (hR : R < 2 ^ 32) :
    aiffStart host (aiffFormID ++ (ByteOrder.big.encode 4 R ++ (aiffAiffID ++ rest))) = some {
      ai := { fp := ⟨aiffFormID ++ (ByteOrder.big.encode 4 R ++ (aiffAiffID ++ rest)), 12⟩
              common := ⟨unset host 20, unset host 21, unset host 22⟩ }
      fileSize := wrap32 (pad2 (wrap32 R) - 4) } := by
  have hrest : (Stream.mk (aiffFormID ++ (ByteOrder.big.encode 4 R ++ (aiffAiffID ++ rest))) 0).Rest
      (aiffFormID ++ (ByteOrder.big.encode 4 R ++ (aiffAiffID ++ rest))) := ⟨rfl, Nat.zero_le _⟩
  have haiff := hrest.body rfl
  unfold aiffStart
  rw [if_pos hmem, hrest.readChunk rfl hR]
  dsimp only
  rw [if_pos rfl, haiff.freadItem (n := 4) rfl (by decide)]
  dsimp only
  rw [if_pos rfl]
  rfl

theorem aiffToSound_some (p : AiffInfo) : ∃ r, aiffToSound p = .ok (some r) ∧ r.numTracks = p.common.channels ∧
    r.dataFormat = p.common.bitsPerSample.map (bitsToSoundFormat 3 4) ∧ r.comment = p.comment ∧
    r.numSamples = p.numSamples.map (fun n : Nat => wrap32 n) ∧ r.formatInfo = .aiff p :=
  ⟨_, rfl, rfl, rfl, rfl, rfl, rfl⟩

theorem fp_of_aiff {r : Sound} {p : AiffInfo} (h : r.formatInfo = .aiff p) : r.fp = p.fp := by
  unfold Sound.fp
  rw [h]

theorem aiffFormat (h : s.dataFormat ∈ FileFormat.aiff.dataFormats) :
    0 < sizeofFormat s.dataFormat ∧ bitsToSoundFormat 3 4 s.bits = s.dataFormat := by
  have hcases : s.dataFormat = 3 ∨ s.dataFormat = 4 := by simpa [FileFormat.dataFormats] using h
  unfold NewSound.bits
  rcases hcases with hf | hf <;> rw [hf] <;> decide

/-- The number of samples that is read is too large where the size of the data is below 8. -/
theorem aiffReadSize_samples {data : List UInt8} {n t b : Nat} (hlt : data.length < 2 ^ 32) (hn : n ≤ data.length)
    (ht : t < 2 ^ 15) (ht₀ : 0 < t) (hb : b ≤ 2) (hb₀ : 0 < b) :
    n = aiffReadSize data / t / b ↔ 8 ≤ data.length ∧ n = (data.length - 8) / t / b := by
  unfold aiffReadSize
  by_cases h8 : 8 ≤ data.length
  · rw [show (data.length + (2 ^ 32 - 8)) % 2 ^ 32 = data.length - 8 by omega]
    exact ⟨fun h => ⟨h8, h⟩, fun h => h.2⟩
  · have hmul : t * b ≤ 2 ^ 15 * 2 := Nat.mul_le_mul (by omega) hb
    have hbig : (2 ^ 32 - 8) / (2 ^ 15 * 2) ≤ (data.length + (2 ^ 32 - 8)) % 2 ^ 32 / (t * b) :=
      Nat.le_trans (Nat.div_le_div_right (by omega)) (Nat.div_le_div_left hmul (Nat.mul_pos ht₀ hb₀))
    rw [Nat.div_div_eq_div_mul]
    constructor
    · intro h
      omega
    · exact fun h => absurd h.1 h8

/-- What is read of a written AIFF file. -/
theorem aiff_opened {data : List UInt8} (hmem : ∀ n < 2 ^ 63, host.mem n) (hformat : 0 < sizeofFormat s.dataFormat)
    (htracks : 0 < s.numTracks) (htracks' : s.numTracks < 2 ^ 15) (hcomment : s.comment.length + 1 < 2 ^ 16)
    (hsize : 64 + textSize s + (data.length + data.length % 2) < 2 ^ 32) {r : Sound} {Q : Sound → Prop}
    (hr : aiffToSound (aiffRead host s data) = .ok (some r)) :
    (∃ n r, soundOpenFileForReading host name n (aiffFile host s data) = .ok (some r) ∧ Q r) ↔ Q r := by
  have heven : textSize s % 2 = 0 := by
    unfold textSize
    omega
  have htake : (aiffFile host s data).take 4 = aiffFormID := List.take_left' rfl
  have hid : ((aiffFile host s data).drop 8).take 4 = aiffAiffID := by
    unfold aiffFile aiffHead
    simp only [List.append_assoc]
    rw [← List.append_assoc aiffFormID, List.drop_left' (by simp; rfl)]
    exact List.take_left' rfl
  have honly := fun n => @only_aiff host name _ (hmem 40 (by decide)) n htake hid
  have hstart : aiffStart host (aiffFile host s data) = some (aiffAt ⟨aiffFile host s data, 12⟩ none
      ⟨unset host 20, unset host 21, unset host 22⟩ (60 + textSize s + (data.length + data.length % 2))) := by
    unfold aiffFile aiffHead aiffAt
    rw [← left_form (n := 64 + textSize s + (data.length + data.length % 2)) (by omega) (by omega)]
    simp only [List.append_assoc]
    exact aiffStart_file (hmem 48 (by decide)) hsize
  rw [hstart] at honly
  obtain ⟨fuel, hloop⟩ := (loop_eq_iff (fun h => by cases h)).2
    (@aiffTurns _ name _ _ hmem htracks htracks' hformat hcomment hsize ⟨unset host 20, unset host 21, unset host 22⟩)
  exact opened_some honly hloop hr

/-- A written AIFF file is read back just when its data needs no pad byte and the samples in it are as many as in all but 8
bytes of it. -/
theorem aiff_readsBack_iff {w : Writing} {data : List UInt8} (hmem : ∀ n < 2 ^ 63, host.mem n) (hw : w.sound = s)
    (hn : w.numSamples = wrap32 (samplesWritten s blocks : Nat)) (hdata : data = blocks.flatten)
    (hdataFormat : s.dataFormat ∈ FileFormat.aiff.dataFormats) (htracks : 0 < s.numTracks) (htracks' : s.numTracks < 2 ^ 15)
    (hcomment : s.comment.length + 1 < 2 ^ 16) (hsize : 64 + textSize s + (data.length + data.length % 2) < 2 ^ 32) :
    (∃ n r, soundOpenFileForReading host name n (aiffFile host s data) = .ok (some r) ∧ ReadsBack w data r) ↔
      8 ≤ data.length ∧ data.length % 2 = 0 ∧
        samplesWritten s blocks = (data.length - 8) / s.numTracks.toNat / sizeofFormat s.dataFormat := by
  obtain ⟨hformat, hbits⟩ := aiffFormat hdataFormat
  have hle : aiffReadSize data / s.numTracks.toNat / sizeofFormat s.dataFormat ≤ aiffReadSize data :=
    Nat.le_trans (Nat.div_le_self _ _) (Nat.div_le_self _ _)
  have hlt : aiffReadSize data < 2 ^ 32 := Nat.mod_lt _ (Nat.two_pow_pos 32)
  have hle' : samplesWritten s blocks ≤ data.length := hdata ▸ samplesWritten_le
  have hfmt := writtenFmt_eq htracks htracks' hformat
  obtain ⟨r, hr, hchannels, hdataFormat', hcomment', hnum, hinfo⟩ := aiffToSound_some (aiffRead host s data)
  have hpos : (aiffRead host s data).dataOffset.val + 24 = (aiffRead host s data).fp.pos := by
    unfold aiffRead
    dsimp only
    omega
  have hback : ReadsBack w data r ↔
      samplesWritten s blocks = aiffReadSize data / s.numTracks.toNat / sizeofFormat s.dataFormat ∧
        data ++ padding data.length = data := by
    refine readsBack_iff ?_ ?_ ?_ ?_ (by omega) hn (by omega) ?_ (rewound_aiff hinfo hpos)
    · rw [hchannels, hw, show (aiffRead host s data).common.channels = (writtenFmt s).channels from rfl, hfmt]
    · rw [hdataFormat', hw, show (aiffRead host s data).common.bitsPerSample = (writtenFmt s).bitsPerSample from rfl, hfmt,
        Got.map_val, hbits]
    · rw [hcomment', hw]
      rfl
    · rw [hnum, Got.map_val]
      rfl
    · rw [fp_of_aiff hinfo]
      exact aiffFile_drop
  rw [aiff_opened hmem hformat htracks htracks' hcomment hsize hr, hback, append_padding_eq,
    aiffReadSize_samples (by omega) hle' (by omega) (by omega) (sizeofFormat_le _) hformat]
  exact ⟨fun h => ⟨h.1.1, h.2, h.1.2⟩, fun h => ⟨⟨h.1, h.2.2⟩, h.2.1⟩⟩

/-! ### 8SVX -/

/-- A `SvxOpenFileForWriting`, from the first size on. -/
def svxHead (host : Host) (s : NewSound) : List UInt8 :=
  let be (w n : Nat) : List UInt8 := ByteOrder.big.encode w n
  svx8svxID ++ (svxNameID ++ (be 4 s.comment.length ++ (s.comment ++ (svxVhdrID ++ (be 4 20 ++
    (be 4 (asUint32 (host.junk 61 0)) ++ (be 4 0 ++ (be 4 0 ++ (be 2 (asUint32 s.sampleRate) ++ (be 2 0 ++ (be 4 65536 ++
    svxBodyID)))))))))))

def svxFile (host : Host) (s : NewSound) (data : List UInt8) : List UInt8 :=
  svxFormID ++ (ByteOrder.big.encode 4 (48 + s.comment.length + data.length) ++ (svxHead host s ++
    (ByteOrder.big.encode 4 data.length ++ data)))

theorem svxOpenFileForWriting_eq (hne : s.comment ≠ []) (hn : s.comment.length + 2 < 2 ^ 31) :
    svxOpenFileForWriting host s = {
      fp := ⟨svxFormID ++ (ByteOrder.big.encode 4 0 ++ (svxHead host s ++ ByteOrder.big.encode 4 0)),
        (svxFormID ++ (ByteOrder.big.encode 4 0 ++ (svxHead host s ++ ByteOrder.big.encode 4 0))).length⟩
      fileSize := 48 + s.comment.length
      sizeOffset := svxFormID.length
      dataOffset := (svxFormID ++ (ByteOrder.big.encode 4 0 ++ svxHead host s)).length } := by
  have hlen : s.comment.length ≠ 0 := fun h => hne (List.length_eq_zero_iff.1 h)
  unfold svxOpenFileForWriting svxHead
  dsimp only
  rw [if_pos (by omega), fwrite_start]
  dsimp only
  rw [Stream.fwriteAll_end, Stream.fwriteAll_end, Stream.fwriteAll_end, Stream.fwrite_end, Stream.fwrite_end]
  dsimp only
  have hlength : asUint32 (s.comment.length : Int) = s.comment.length := asUint32_natCast (by omega)
  have hfileSize : asUint32 (4 + (8 + (s.comment.length : Int)) + (8 + 20) + 8) = 48 + s.comment.length := by
    unfold asUint32
    omega
  rw [hlength, hfileSize, show asUint32 0 = 0 from rfl, show asUint32 20 = 20 from rfl, show asUint32 65536 = 65536 from rfl]
  simp only [List.flatten_cons, List.flatten_nil, List.append_nil, List.append_assoc]

/-- The sizes are written when an 8SVX file is closed. -/
theorem svxClose_eq {size i j : Nat} {l b data : List UInt8}
    (hl : l = svxFormID ++ (ByteOrder.big.encode 4 0 ++ (b ++ (ByteOrder.big.encode 4 0 ++ data))))
    (hi : i = svxFormID.length) (hj : j = (svxFormID ++ (ByteOrder.big.encode 4 0 ++ b)).length) :
    svxCloseFile ⟨⟨l, l.length⟩, size, i, j, data.length⟩ = svxFormID ++ (ByteOrder.big.encode 4 (size + data.length) ++
      (b ++ (ByteOrder.big.encode 4 data.length ++ data))) := by
  unfold svxCloseFile
  dsimp only
  exact patched hl (by simp) (by simp) hi hj

theorem writeSvx (hsvx : s.fileFormat = .svx) (hne : s.comment ≠ []) (hn : s.comment.length + 2 < 2 ^ 31)
    (htracks : 0 < s.numTracks) (hformat : 0 < sizeofFormat s.dataFormat) (hblocks : ∀ b ∈ blocks, b.length < 2 ^ 31)
    (hsize : blocks.flatten.length + 1 < 2 ^ 32) (numSamples : Int) : ∃ w, writeSound host s numSamples blocks = .ok w ∧
      w.sound = s ∧ w.numSamples = wrap32 (samplesWritten s blocks : Nat) ∧
      soundCloseFile w = svxFile host s blocks.flatten := by
  have hopen : soundOpenFileForWriting host s numSamples = .ok ⟨s, svxOpenFileForWriting host s, 0⟩ := by
    unfold soundOpenFileForWriting
    rw [hsvx]
    rfl
  rw [svxOpenFileForWriting_eq hne hn] at hopen
  have hle := @samplesWritten_le s blocks
  obtain ⟨w, hw, hsound, hnum, hout⟩ := writeSound_ok hopen rfl rfl htracks hformat hblocks (by omega)
  refine ⟨w, hw, hsound, hnum, ?_⟩
  unfold soundCloseFile
  rw [hsound, hsvx, hout, Nat.mod_eq_of_lt (by omega)]
  dsimp only
  exact svxClose_eq (by simp only [List.append_assoc]) rfl rfl

theorem length_svxHead : (svxHead host s).length = 44 + s.comment.length := by
  have hid : svx8svxID.length = 4 ∧ svxNameID.length = 4 ∧ svxVhdrID.length = 4 ∧ svxBodyID.length = 4 :=
    ⟨rfl, rfl, rfl, rfl⟩
  unfold svxHead
  simp only [List.length_append, ByteOrder.length_encode, hid]
  omega

theorem svxFile_drop {data : List UInt8} : (svxFile host s data).drop (64 + s.comment.length) = data.drop 8 := by
  have hsplit : svxFile host s data = (svxFormID ++ (ByteOrder.big.encode 4 (48 + s.comment.length + data.length) ++
      (svxHead host s ++ ByteOrder.big.encode 4 data.length))) ++ data := by
    unfold svxFile
    simp only [List.append_assoc]
  have hlen : (svxFormID ++ (ByteOrder.big.encode 4 (48 + s.comment.length + data.length) ++
      (svxHead host s ++ ByteOrder.big.encode 4 data.length))).length = 56 + s.comment.length := by
    rw [List.length_append, List.length_append, List.length_append, ByteOrder.length_encode, ByteOrder.length_encode,
      length_svxHead, show svxFormID.length = 4 from rfl]
    omega
  rw [hsplit, show 64 + s.comment.length = 56 + s.comment.length + 8 by omega, ← List.drop_drop, List.drop_left' hlen]

section
variable {st : SvxWalk} {x left : Nat} {rest : List UInt8}

theorem svxTurn_name {text : List UInt8} (hmore : MoreChunks st.fileSize) (hmem : host.mem (text.length + 1))
    (htext : 0 < text.length) (hlt : text.length + 1 < 2 ^ 31)
    (h : st.si.fp.Rest (svxNameID ++ (ByteOrder.big.encode 4 text.length ++ (text ++ rest))))
    (hleft : wrap32 (st.fileSize - (8 + wrap32 text.length)) = wrap32 left) : Goes (svxTurn host name) st {
      si := { st.si with comment := some (text ++ [0]), fp := (st.si.fp.skip 8).skip text.length }
      fileSize := wrap32 left } := by
  have h₀ := h.body rfl
  have hsize : wrap32 text.length = text.length := wrap32_eq (by omega) (by omega)
  have hsize' : asSize (wrap32 (text.length + 1)) = text.length + 1 := by
    rw [wrap32_eq (by omega) (by omega)]
    unfold asSize
    omega
  have hlen : asSize text.length = text.length := by
    unfold asSize
    omega
  have hname : svxName host text.length (st.si.fp.skip 8) = .ok (some (text ++ [0], (st.si.fp.skip 8).skip text.length)) := by
    unfold svxName freadInto
    rw [hsize', hlen]
    dsimp only
    rw [if_pos hmem, h₀.fread rfl, h₀.freadItem rfl htext, if_neg (by dsimp only; omega)]
    rfl
  rw [hsize] at hleft
  have hchunk := h.readChunk rfl (by omega)
  rw [hsize] at hchunk
  unfold Goes svxTurn svxChunkTurn
  rw [if_pos hmore, hchunk]
  dsimp only
  rw [if_neg (by decide), if_neg (by decide), if_pos rfl, hname, hleft]
  rfl

theorem svxTurn_vhdr {n rate : Nat} (hmore : MoreChunks st.fileSize) (hn : n < 2 ^ 32) (hrate : rate < 2 ^ 16)
    (h : st.si.fp.Rest (svxVhdrID ++ (ByteOrder.big.encode 4 20 ++ (ByteOrder.big.encode 4 n ++ (ByteOrder.big.encode 4 0 ++
      (ByteOrder.big.encode 4 0 ++ (ByteOrder.big.encode 2 rate ++ (ByteOrder.big.encode 2 0 ++
      (ByteOrder.big.encode 4 65536 ++ rest)))))))))
    (hleft : wrap32 (st.fileSize - (8 + wrap32 (20 : Nat))) = wrap32 left) : Goes (svxTurn host name) st {
      si := { st.si with sampleRate := ⟨(rate : Nat), true⟩, fp := st.si.fp.skip 28 }
      fileSize := wrap32 left } := by
  have h₀ := h.body rfl
  have h₁ := h₀.skip ByteOrder.length_encode
  have h₂ := h₁.skip ByteOrder.length_encode
  have h₃ := h₂.skip ByteOrder.length_encode
  have h₄ := h₃.skip ByteOrder.length_encode
  -- no octaves and no compression
  rw [show ByteOrder.big.encode 2 0 = [0] ++ [0] from by decide, List.append_assoc] at h₄
  have h₅ := h₄.skip (n := 1) rfl
  have h₆ := h₅.skip (n := 1) rfl
  have hvhdr : svxVhdr host (st.si.fp.skip 8) = some (⟨(rate : Nat), true⟩, st.si.fp.skip 28) := by
    unfold svxVhdr
    rw [h₀.fileReadL hn]
    dsimp only
    rw [h₁.fileReadL (by decide)]
    dsimp only
    rw [h₂.fileReadL (by decide)]
    dsimp only
    rw [h₃.fileReadS hrate]
    dsimp only
    rw [Stream.Rest.fgetc h₄]
    dsimp only
    rw [Stream.Rest.fgetc h₅]
    dsimp only
    rw [h₆.fileReadL (by decide), if_pos (by rfl)]
    simp only [Stream.skip_skip]
    rfl
  unfold Goes svxTurn svxChunkTurn
  rw [if_pos hmore, h.readChunk rfl (by decide)]
  dsimp only
  rw [if_pos rfl, hvhdr, hleft]

theorem svxTurn_body (hmore : MoreChunks st.fileSize) (hx : x < 2 ^ 32)
    (h : st.si.fp.Rest (svxBodyID ++ (ByteOrder.big.encode 4 x ++ rest)))
    (hleft : wrap32 (st.fileSize - (8 + wrap32 x)) = wrap32 left) : Goes (svxTurn host name) st {
      si := { st.si with
        dataOffset := (st.si.fp.pos + 8) % 2 ^ 32, dataSize := asUint32 (wrap32 x)
        fp := (st.si.fp.skip 8).seekCur (wrap32 x) }
      fileSize := wrap32 left } := by
  unfold Goes svxTurn svxChunkTurn
  rw [if_pos hmore, h.readChunk rfl hx]
  dsimp only
  rw [if_neg (by decide), if_pos rfl, hleft, Stream.skip_pos]

end

theorem svxStart_file {R : Nat} {rest : List UInt8} (hmem : host.mem 48) (hR : R < 2 ^ 32) :
    svxStart host (svxFormID ++ (ByteOrder.big.encode 4 R ++ (svx8svxID ++ rest))) = some {
      si := { fp := ⟨svxFormID ++ (ByteOrder.big.encode 4 R ++ (svx8svxID ++ rest)), 12⟩, sampleRate := unset host 40 }
      fileSize := wrap32 (wrap32 R - 4) } := by
  have hrest : (Stream.mk (svxFormID ++ (ByteOrder.big.encode 4 R ++ (svx8svxID ++ rest))) 0).Rest
      (svxFormID ++ (ByteOrder.big.encode 4 R ++ (svx8svxID ++ rest))) := ⟨rfl, Nat.zero_le _⟩
  have hsvx := hrest.body rfl
  unfold svxStart
  rw [if_pos hmem, hrest.readChunk rfl hR]
  dsimp only
  rw [if_pos rfl, hsvx.freadItem (n := 4) rfl (by decide)]
  dsimp only
  rw [if_pos rfl]
  rfl

/-- A walk that has not come to the data. -/
def svxAt (fp : Stream) (comment : Option (List UInt8)) (sampleRate : Got Int) (left : Nat) : SvxWalk :=
  { si := { fp, comment, sampleRate }, fileSize := wrap32 left }

theorem svxAt_more {fp : Stream} {comment : Option (List UInt8)} {rate : Got Int} {left : Nat} (h : 8 < left)
    (h' : left < 2 ^ 32) : MoreChunks (svxAt fp comment rate left).fileSize := by
  unfold svxAt
  dsimp only
  exact (moreChunks_wrap32 h').2 h

theorem svxAt_left {fp : Stream} {comment : Option (List UInt8)} {rate : Got Int} {left left' c : Nat}
    (h : left = left' + (8 + c)) :
    wrap32 ((svxAt fp comment rate left).fileSize - (8 + wrap32 c)) = wrap32 left' := by
  unfold svxAt
  dsimp only
  exact left_nopad h

/-- An 8SVX file from its voice header on. -/
def svxBody (host : Host) (s : NewSound) (data : List UInt8) : List UInt8 :=
  let be (w n : Nat) : List UInt8 := ByteOrder.big.encode w n
  svxVhdrID ++ (be 4 20 ++ (be 4 (asUint32 (host.junk 61 0)) ++ (be 4 0 ++ (be 4 0 ++ (be 2 (asUint32 s.sampleRate) ++
    (be 2 0 ++ (be 4 65536 ++ (svxBodyID ++ (be 4 data.length ++ data)))))))))

/-- The voice header and the data behind the comment. A file without data is not opened; else the sound is behind the first
8 bytes of the data. -/
theorem svxTurns_behind {data : List UInt8} {g : Stream} {comment : Option (List UInt8)} {rate : Got Int}
    (hsize : 36 + data.length < 2 ^ 32) (hpos : g.pos + 36 < 2 ^ 32) (h : g.Rest (svxBody host s data)) :
    ∃ n t, after (svxTurn host name) n (svxAt g comment rate (36 + data.length)) = some t ∧
      svxTurn host name t = Turn.stop <$> .ok (if data = [] then none else some {
        fp := ⟨g.bytes, g.pos + 44⟩, comment := comment <|> fileCommentFromFilename host name
        sampleRate := ⟨(asUint32 s.sampleRate % 2 ^ 16 : Nat), true⟩, dataOffset := g.pos + 36, dataSize := data.length
        numSamples := data.length }) := by
  unfold svxBody at h
  dsimp only at h
  rw [← ByteOrder.encode_mod (w := 2) (n := asUint32 s.sampleRate)] at h
  have h₁ := (h.body rfl).skip ByteOrder.length_encode |>.skip ByteOrder.length_encode |>.skip ByteOrder.length_encode
    |>.skip ByteOrder.length_encode |>.skip ByteOrder.length_encode |>.skip ByteOrder.length_encode
  rw [Stream.skip_skip, Stream.skip_skip, Stream.skip_skip, Stream.skip_skip, Stream.skip_skip, Stream.skip_skip,
    show 8 + (4 + (4 + (4 + (2 + (2 + 4))))) = 28 from rfl] at h₁
  have hrate : asUint32 s.sampleRate % 256 ^ 2 < 2 ^ 16 := Nat.mod_lt _ (by decide)
  have go₁ : Goes (svxTurn host name) (svxAt g comment rate (36 + data.length))
      (svxAt (g.skip 28) comment ⟨(asUint32 s.sampleRate % 2 ^ 16 : Nat), true⟩ (8 + data.length)) :=
    svxTurn_vhdr (svxAt_more (by omega) (by omega)) (asUint32_lt _) hrate h (svxAt_left (by omega))
  by_cases hdata : data = []
  · have hend : ¬ MoreChunks (wrap32 ((8 + data.length : Nat) : Int)) := by
      rw [hdata]
      decide
    refine ⟨1, _, by rw [after_goes go₁]; rfl, ?_⟩
    rw [if_pos hdata]
    unfold svxTurn svxAt
    dsimp only
    rw [if_neg hend]
    rfl
  · have hlen : 0 < data.length := List.length_pos_iff.2 hdata
    obtain ⟨e, he⟩ : ∃ e, e = ((g.skip 28).skip 8).seekCur (wrap32 data.length) := ⟨_, rfl⟩
    have hebytes : e.bytes = g.bytes := by
      rw [he, Stream.seekCur_bytes, Stream.skip_bytes, Stream.skip_bytes]
    have go₂ : Goes (svxTurn host name)
        (svxAt (g.skip 28) comment ⟨(asUint32 s.sampleRate % 2 ^ 16 : Nat), true⟩ (8 + data.length)) {
          si := {
            fp := e, comment, sampleRate := ⟨(asUint32 s.sampleRate % 2 ^ 16 : Nat), true⟩
            dataOffset := ((g.skip 28).pos + 8) % 2 ^ 32, dataSize := asUint32 (wrap32 data.length) }
          fileSize := wrap32 ((0 : Nat) : Int) } := by
      rw [he]
      exact svxTurn_body (svxAt_more (by omega) (by omega)) (by omega) h₁ (svxAt_left (by omega))
    have hoffset : ((g.skip 28).pos + 8) % 2 ^ 32 = g.pos + 36 := by
      rw [Stream.skip_pos, Nat.mod_eq_of_lt (by omega)]
    have hread : asUint32 (wrap32 data.length) = data.length := by
      obtain ⟨k, hk⟩ := wrap32_exists data.length
      unfold asUint32
      omega
    rw [hoffset, hread] at go₂
    have hend : ¬ MoreChunks (wrap32 ((0 : Nat) : Int)) := by decide
    have hback : e.seekSet (((g.pos + 36 : Nat) : Int) + 8) = ⟨g.bytes, g.pos + 44⟩ :=
      seekSet_back hebytes (by dsimp only; omega)
    refine ⟨2, _, by rw [after_goes go₁, after_goes go₂]; rfl, ?_⟩
    rw [if_neg hdata]
    unfold svxTurn svxFinish svxRewindFile
    dsimp only
    rw [if_neg hend, if_neg (by omega), hback]
    rfl

/-- What is left of an 8SVX file behind its form. -/
theorem left_svx {n left : Nat} (h : n = left + 4) : wrap32 (wrap32 n - 4) = wrap32 left := by
  obtain ⟨k, hk⟩ := wrap32_exists n
  refine wrap32_congr (-k) ?_
  rw [hk]
  omega

theorem opened_svx {bytes : List UInt8} {start : Option SvxWalk} {fuel : Nat} {o : Option SvxInfo} {Q : Sound → Prop}
    (honly : ∀ n, soundOpenFileForReading host name n bytes = firstOf [openAs (walk (svxTurn host name) n start) svxToSound])
    (ho : walk (svxTurn host name) fuel start = .ok o) :
    (∃ n r, soundOpenFileForReading host name n bytes = .ok (some r) ∧ Q r) ↔
      ∃ p r, o = some p ∧ svxToSound p = .ok (some r) ∧ Q r := by
  rcases o with _ | p
  · refine ⟨fun h => absurd h (opened_none honly ho), ?_⟩
    rintro ⟨p, r, hp, -⟩
    cases hp
  · rw [opened_some honly ho rfl]
    constructor
    · exact fun h => ⟨p, _, rfl, rfl, h⟩
    · rintro ⟨p', r, hp, hr, hQ⟩
      cases hp
      cases hr
      exact hQ

/-- What is read of an 8SVX file. -/
def svxRead (host : Host) (s : NewSound) (data : List UInt8) : Option SvxInfo :=
  if data = [] then none else some {
    fp := ⟨svxFile host s data, 64 + s.comment.length⟩
    comment := some (s.comment ++ [0])
    sampleRate := ⟨(asUint32 s.sampleRate % 2 ^ 16 : Nat), true⟩
    dataOffset := 56 + s.comment.length
    dataSize := data.length
    numSamples := data.length }

theorem svxTurns {data : List UInt8} (hmem : ∀ n < 2 ^ 63, host.mem n) (hne : s.comment ≠ [])
    (hn : s.comment.length + 2 < 2 ^ 31) (hsize : 48 + s.comment.length + data.length < 2 ^ 32) {rate : Got Int} :
    ∃ n t, after (svxTurn host name) n
      (svxAt ⟨svxFile host s data, 12⟩ none rate (44 + s.comment.length + data.length)) = some t ∧
      svxTurn host name t = Turn.stop <$> (.ok (svxRead host s data)) := by
  have hlen : 0 < s.comment.length := List.length_pos_iff.2 hne
  have hwhole : (Stream.mk (svxFile host s data) 0).Rest (svxFile host s data) := ⟨rfl, Nat.zero_le _⟩
  have hhead := hwhole.body rfl
  unfold svxHead at hhead
  simp only [List.append_assoc] at hhead
  have h₀ := hhead.skip (n := 4) rfl
  obtain ⟨f, hf⟩ : ∃ f, f = Stream.mk (svxFile host s data) 12 := ⟨_, rfl⟩
  rw [show ((Stream.mk (svxFile host s data) 0).skip 8).skip 4 = f from hf.symm] at h₀
  have h₁ := (h₀.body rfl).skip (n := s.comment.length) rfl
  obtain ⟨g, hg⟩ : ∃ g, g = (f.skip 8).skip s.comment.length := ⟨_, rfl⟩
  have hgpos : g.pos = 20 + s.comment.length := by
    rw [hg, hf, Stream.skip_pos, Stream.skip_pos]
  have hgbytes : g.bytes = svxFile host s data := by
    rw [hg, hf, Stream.skip_bytes, Stream.skip_bytes]
  rw [← hg] at h₁
  have go₁ : Goes (svxTurn host name) (svxAt f none rate (44 + s.comment.length + data.length))
      (svxAt g (some (s.comment ++ [0])) rate (36 + data.length)) := by
    rw [hg]
    exact svxTurn_name (svxAt_more (by omega) (by omega)) (hmem _ (by omega)) hlen (by omega) h₀ (svxAt_left (by omega))
  obtain ⟨n, t, hafter, hturn⟩ := @svxTurns_behind host name s data g (some (s.comment ++ [0])) rate (by omega) (by omega) h₁
  rw [← hf]
  refine ⟨n + 1, t, by rw [after_goes go₁]; exact hafter, ?_⟩
  rw [hturn, hgbytes, hgpos, show 20 + s.comment.length + 44 = 64 + s.comment.length by omega,
    show 20 + s.comment.length + 36 = 56 + s.comment.length by omega]
  rfl

theorem drop_ne {data : List UInt8} {n : Nat} (hn : 0 < n) (hne : data ≠ []) : data.drop n ≠ data := by
  intro h
  have hlen := congrArg List.length h
  have hpos := List.length_pos_iff.2 hne
  rw [List.length_drop] at hlen
  omega

theorem not_readsData {r : Sound} {l data : List UInt8} (h : r.fp.bytes.drop r.fp.pos = l) (hne : l ≠ data) :
    ¬ ReadsData r data := by
  rintro ⟨hread, -⟩
  have htake : l.take (l.length + data.length) = data.take (l.length + data.length) := by
    rw [← hread, soundReadFile_rest h]
  rw [List.take_of_length_le (by omega), List.take_of_length_le (by omega)] at htake
  exact hne htake

/-- What is read of a written 8SVX file. -/
theorem svx_opened {data : List UInt8} (hmem : ∀ n < 2 ^ 63, host.mem n) (hne : s.comment ≠ [])
    (hn : s.comment.length + 2 < 2 ^ 31) (hsize : 48 + s.comment.length + data.length < 2 ^ 32) {Q : Sound → Prop} :
    (∃ n r, soundOpenFileForReading host name n (svxFile host s data) = .ok (some r) ∧ Q r) ↔
      ∃ p r, svxRead host s data = some p ∧ svxToSound p = .ok (some r) ∧ Q r := by
  have htake : (svxFile host s data).take 4 = svxFormID := List.take_left' rfl
  have hid : ((svxFile host s data).drop 8).take 4 = svx8svxID := by
    unfold svxFile svxHead
    simp only [List.append_assoc]
    rw [← List.append_assoc svxFormID, List.drop_left' (by simp; rfl)]
    exact List.take_left' rfl
  have honly := fun n => @only_svx host name _ (hmem 40 (by decide)) n htake hid
  have hstart : svxStart host (svxFile host s data) = some (svxAt ⟨svxFile host s data, 12⟩ none (unset host 40)
      (44 + s.comment.length + data.length)) := by
    unfold svxFile svxHead svxAt
    rw [← left_svx (n := 48 + s.comment.length + data.length) (by omega)]
    simp only [List.append_assoc]
    exact svxStart_file (hmem 48 (by decide)) hsize
  rw [hstart] at honly
  obtain ⟨n, t, hafter, hturn⟩ := @svxTurns _ name _ _ hmem hne hn hsize (unset host 40)
  obtain ⟨fuel, hloop⟩ := (loop_eq_iff (fun h => by cases h)).2 ⟨n, t, hafter, hturn⟩
  exact opened_svx honly hloop

/-- A written 8SVX file is never read back. -/
theorem svx_not_readsBack {w : Writing} {data : List UInt8} (hmem : ∀ n < 2 ^ 63, host.mem n) (hne : s.comment ≠ [])
    (hn : s.comment.length + 2 < 2 ^ 31) (hsize : 48 + s.comment.length + data.length < 2 ^ 32) :
    ¬ ∃ n r, soundOpenFileForReading host name n (svxFile host s data) = .ok (some r) ∧ ReadsBack w data r := by
  rw [svx_opened hmem hne hn hsize]
  unfold svxRead
  rintro ⟨p, r, hp, hr, -, -, -, -, hread⟩
  by_cases hdata : data = []
  · rw [if_pos hdata] at hp
    cases hp
  · rw [if_neg hdata] at hp
    cases hp
    cases hr
    refine not_readsData ?_ (drop_ne (n := 8) (by decide) hdata) hread
    exact svxFile_drop

/-! ### VOC -/

/-- The block that says that there are two tracks, if there are. -/
def vocExtendedBlock (s : NewSound) : List UInt8 :=
  if s.numTracks = 2 then
    let n : Int := 65536 - (256000000 / (asUint32 s.sampleRate * 2 % 2 ^ 32) : Nat)
    [8] ++ (ByteOrder.little.encode 3 4 ++ (ByteOrder.little.encode 1 (asUint32 n) ++
      (ByteOrder.little.encode 1 (asUint32 (n / 2 ^ 8)) ++ ([0] ++ [1]))))
  else []

/-- A `VocOpenFileForWriting` up to the size of the data. -/
def vocHead (s : NewSound) : List UInt8 :=
  vocID ++ (ByteOrder.little.encode 2 26 ++ (ByteOrder.little.encode 2 0x10a ++ (ByteOrder.little.encode 2 0x1129 ++ ([5] ++
    (ByteOrder.little.encode 3 (s.comment.length + 1) ++ (s.comment ++ [0] ++ (vocExtendedBlock s ++ [1])))))))

def vocRateByte (s : NewSound) : List UInt8 :=
  ByteOrder.little.encode 1 (asUint32 (256 - (1000000 / (asUint32 s.sampleRate % 2 ^ 32) : Nat)))

def vocFile (s : NewSound) (data : List UInt8) : List UInt8 :=
  vocHead s ++ (ByteOrder.little.encode 3 (data.length + 2) ++ (vocRateByte s ++ ([0] ++ (data ++ [0]))))

/-- The block with the comment, if there is one. -/
def vocTextBlock (s : NewSound) : List UInt8 :=
  if s.comment = [] then [] else [5] ++ (ByteOrder.little.encode 3 (s.comment.length + 1) ++ (s.comment ++ [0]))

/-- `vocHead`, with a comment or without. -/
def vocFront (s : NewSound) : List UInt8 :=
  vocID ++ (ByteOrder.little.encode 2 26 ++ (ByteOrder.little.encode 2 0x10a ++ (ByteOrder.little.encode 2 0x1129 ++
    (vocTextBlock s ++ (vocExtendedBlock s ++ [1])))))

/-- `vocFile`, with a comment or without. -/
def vocBytes (s : NewSound) (data : List UInt8) : List UInt8 :=
  vocFront s ++ (ByteOrder.little.encode 3 (data.length + 2) ++ (vocRateByte s ++ ([0] ++ (data ++ [0]))))

theorem vocFront_eq (hne : s.comment ≠ []) : vocFront s = vocHead s := by
  unfold vocFront vocHead vocTextBlock
  rw [if_neg hne]
  simp only [List.append_assoc]

theorem vocBytes_eq (hne : s.comment ≠ []) (data : List UInt8) : vocBytes s data = vocFile s data := by
  rw [vocBytes, vocFile, vocFront_eq hne]

theorem quotient_ok {n d : Nat} (h : d % 2 ^ 32 ≠ 0) : quotient n d = .ok (n / (d % 2 ^ 32)) := by
  unfold quotient
  rw [if_neg h]

theorem vocOpenFileForWriting_eq (hn : s.comment.length + 2 < 2 ^ 24)
    (hrate : 0 < s.sampleRate ∧ s.sampleRate < 2 ^ 31) : vocOpenFileForWriting s = .ok {
      fp := ⟨vocFront s ++ (ByteOrder.little.encode 3 0 ++ (vocRateByte s ++ [0])),
        (vocFront s ++ (ByteOrder.little.encode 3 0 ++ (vocRateByte s ++ [0]))).length⟩
      dataOffset := (vocFront s).length } := by
  have hrate₁ : asUint32 s.sampleRate % 2 ^ 32 ≠ 0 := by
    unfold asUint32
    omega
  have hrate₂ : asUint32 s.sampleRate * 2 % 2 ^ 32 ≠ 0 := by
    unfold asUint32
    omega
  have hlength : asUint32 ((s.comment.length : Int) + 1) = s.comment.length + 1 := by
    unfold asUint32
    omega
  -- the comment is written behind the version, or nothing is
  have htext : (if ((s.comment.length : Nat) : Int) ≠ 0 then
      ((Stream.mk [] 0).fwriteAll [vocID, ByteOrder.little.encode 2 26, ByteOrder.little.encode 2 0x10a,
        ByteOrder.little.encode 2 0x1129]).fwriteAll [ByteOrder.little.encode 1 5,
          ByteOrder.little.encode 3 (asUint32 ((s.comment.length : Int) + 1)), s.comment ++ [0]]
      else (Stream.mk [] 0).fwriteAll [vocID, ByteOrder.little.encode 2 26, ByteOrder.little.encode 2 0x10a,
        ByteOrder.little.encode 2 0x1129]) =
      ⟨vocID ++ (ByteOrder.little.encode 2 26 ++ (ByteOrder.little.encode 2 0x10a ++ (ByteOrder.little.encode 2 0x1129 ++
        vocTextBlock s))), (vocID ++ (ByteOrder.little.encode 2 26 ++ (ByteOrder.little.encode 2 0x10a ++
          (ByteOrder.little.encode 2 0x1129 ++ vocTextBlock s)))).length⟩ := by
    unfold vocTextBlock
    rw [hlength, fwriteAll_start]
    by_cases hne : s.comment = []
    · rw [if_pos hne, hne, if_neg (by simp)]
      simp only [List.flatten_cons, List.flatten_nil, List.append_nil]
    · rw [if_neg hne, if_pos (by simpa using hne), Stream.fwriteAll_end]
      simp only [List.flatten_cons, List.flatten_nil, List.append_nil, List.append_assoc]
      rfl
  have hfive : asUint32 5 = 5 ∧ asUint32 26 = 26 ∧ asUint32 0x10a = 0x10a ∧ asUint32 0x1129 = 0x1129 := by decide
  unfold vocOpenFileForWriting
  rw [quotient_ok hrate₁, quotient_ok hrate₂]
  dsimp only
  rw [hfive.1, hfive.2.1, hfive.2.2.1, hfive.2.2.2, htext]
  unfold vocFront vocRateByte vocExtendedBlock
  by_cases ht : s.numTracks = 2
  · rw [if_pos ht, if_pos ht, Exec.ok_bind, Exec.ok_bind, Exec.ok_bind, Stream.fwriteAll_end, Stream.fwrite_end,
      Stream.fwriteAll_end]
    simp only [List.flatten_cons, List.flatten_nil, List.append_nil, List.append_assoc]
    rfl
  · rw [if_neg ht, if_neg ht, Exec.ok_bind, Exec.ok_bind, Stream.fwrite_end, Stream.fwriteAll_end]
    simp only [List.flatten_cons, List.flatten_nil, List.append_nil, List.append_assoc, List.nil_append]
    rfl

theorem writeVoc (hvoc : s.fileFormat = .voc) (hn : s.comment.length + 2 < 2 ^ 24)
    (htracks : 0 < s.numTracks) (hformat : 0 < sizeofFormat s.dataFormat) (hrate : 0 < s.sampleRate ∧ s.sampleRate < 2 ^ 31)
    (hblocks : ∀ b ∈ blocks, b.length < 2 ^ 31) (hsize : blocks.flatten.length + 2 < 2 ^ 32) (numSamples : Int) :
    ∃ w, writeSound host s numSamples blocks = .ok w ∧ w.sound = s ∧
      w.numSamples = wrap32 (samplesWritten s blocks : Nat) ∧ soundCloseFile w = vocBytes s blocks.flatten := by
  have hopen : soundOpenFileForWriting host s numSamples = .ok ⟨s, {
      fp := ⟨vocFront s ++ (ByteOrder.little.encode 3 0 ++ (vocRateByte s ++ [0])),
        (vocFront s ++ (ByteOrder.little.encode 3 0 ++ (vocRateByte s ++ [0]))).length⟩
      dataOffset := (vocFront s).length }, 0⟩ := by
    unfold soundOpenFileForWriting
    rw [hvoc]
    dsimp only
    rw [vocOpenFileForWriting_eq hn hrate, Exec.ok_bind]
    rfl
  have hle := @samplesWritten_le s blocks
  obtain ⟨w, hw, hsound, hnum, hout⟩ := writeSound_ok hopen rfl rfl htracks hformat hblocks (by omega)
  refine ⟨w, hw, hsound, hnum, ?_⟩
  unfold soundCloseFile vocCloseFile vocBytes
  rw [hsound, hvoc, hout, Nat.mod_eq_of_lt (by omega)]
  dsimp only
  rw [Nat.mod_eq_of_lt hsize, Stream.fwrite_end]
  exact Stream.fwrite_over (by simp only [List.append_assoc]; rfl) (by simp)

section
variable {f : Stream} {x : Nat} {rest : List UInt8} {st : VocWalk}

theorem readSize_rest (h : f.Rest (ByteOrder.little.encode 3 x ++ rest)) (hx : x < 2 ^ 24) :
    readSize f = (⟨x, true⟩, f.skip 3) := by
  have hbytes : ByteOrder.little.encode 3 x ++ rest =
      UInt8.ofNat x :: UInt8.ofNat (x / 256) :: UInt8.ofNat (x / 256 / 256) :: rest := rfl
  rw [hbytes] at h
  have h₁ := Stream.Rest.skip (l := [_]) (n := 1) h rfl
  have h₂ := Stream.Rest.skip (l := [_]) (n := 1) h₁ rfl
  have hvalue : asUint32 (Stream.eofOr (some (UInt8.ofNat x)) + Stream.eofOr (some (UInt8.ofNat (x / 256))) * 2 ^ 8 +
      Stream.eofOr (some (UInt8.ofNat (x / 256 / 256))) * 2 ^ 16) = x := by
    unfold Stream.eofOr asUint32
    simp only [Option.map_some, Option.getD_some, UInt8.toNat_ofNat']
    omega
  unfold readSize
  rw [h.fgetc]
  dsimp only
  rw [h₁.fgetc]
  dsimp only
  rw [h₂.fgetc, hvalue]
  simp only [Stream.skip_skip]
  rfl

theorem vocTurn_text {text : List UInt8} (hmem : host.mem text.length) (htext : 0 < text.length)
    (hlt : text.length < 2 ^ 24)
    (h : st.vi.fp.Rest ([5] ++ (ByteOrder.little.encode 3 text.length ++ (text ++ rest)))) :
    Goes (vocTurn host name) st { st with
      vi := { st.vi with comment := some text, fp := (st.vi.fp.skip 4).skip text.length } } := by
  have h₁ := h.skip (n := 1) rfl
  have h₂ := h₁.skip ByteOrder.length_encode
  rw [Stream.skip_skip] at h₂
  have htext : vocText host st (st.vi.fp.skip 1) = some { st with
      vi := { st.vi with comment := some text, fp := (st.vi.fp.skip 4).skip text.length } } := by
    unfold vocText
    rw [readSize_rest h₁ hlt]
    dsimp only
    rw [if_pos hmem, Stream.skip_skip, h₂.freadItem rfl htext]
    rfl
  unfold Goes vocTurn
  rw [Stream.Rest.fgetc h]
  show Except.ok ((vocText host st (st.vi.fp.skip 1)).elim _ _) = _
  rw [htext]
  rfl

/-- Two tracks. -/
theorem vocTurn_extended {b₀ b₁ : UInt8}
    (h : st.vi.fp.Rest ([8] ++ (ByteOrder.little.encode 3 4 ++ ([b₀] ++ ([b₁] ++ ([0] ++ ([1] ++ rest))))))) :
    Goes (vocTurn host name) st {
      extended := true
      vi := { st.vi with
        sampleRate := ⟨256000000 / asUint32 (65536 - (asUint32 (b₀.toNat + b₁.toNat * 2 ^ 8) : Nat)) / 2, true⟩
        compression := ⟨0, true⟩, tracks := ⟨2, true⟩, fp := st.vi.fp.skip 8 } } := by
  have h₁ := h.skip (n := 1) rfl
  have h₂ := h₁.skip ByteOrder.length_encode
  have h₃ := h₂.skip (n := 1) rfl
  have h₄ := h₃.skip (n := 1) rfl
  have h₅ := h₄.skip (n := 1) rfl
  have hext : vocExtended st (st.vi.fp.skip 1) = some {
      extended := true
      vi := { st.vi with
        sampleRate := ⟨256000000 / asUint32 (65536 - (asUint32 (b₀.toNat + b₁.toNat * 2 ^ 8) : Nat)) / 2, true⟩
        compression := ⟨0, true⟩, tracks := ⟨2, true⟩, fp := st.vi.fp.skip 8 } } := by
    unfold vocExtended
    rw [readSize_rest h₁ (by decide)]
    dsimp only
    rw [if_pos rfl, Stream.Rest.fgetc h₂]
    dsimp only
    rw [Stream.Rest.fgetc h₃]
    unfold getByte
    dsimp only
    rw [Stream.Rest.fgetc h₄]
    dsimp only
    rw [Stream.Rest.fgetc h₅, if_pos (.inr rfl)]
    simp only [Stream.skip_skip]
    rfl
  unfold Goes vocTurn
  rw [Stream.Rest.fgetc h]
  show Except.ok ((vocExtended st (st.vi.fp.skip 1)).elim _ _) = _
  rw [hext]
  rfl

theorem vocTurn_data {b : UInt8} {n : Nat} (hn : n + 2 < 2 ^ 24)
    (h : st.vi.fp.Rest ([1] ++ (ByteOrder.little.encode 3 (n + 2) ++ ([b] ++ ([0] ++ rest))))) :
    ∃ compression : Got Nat, Goes (vocTurn host name) st { st with
      vi := { st.vi with
        sampleRate := if st.extended then st.vi.sampleRate else ⟨asUint32 (1000000 / (256 - b.toNat)), true⟩
        compression, dataSize := ⟨n, true⟩, dataOffset := (st.vi.fp.skip 6).pos % 2 ^ 32
        fp := (st.vi.fp.skip 6).skip n } } := by
  have h₁ := h.skip (n := 1) rfl
  have h₂ := h₁.skip ByteOrder.length_encode
  have h₃ := h₂.skip (n := 1) rfl
  have hsize : asUint32 (((n + 2 : Nat) : Int) - 2) = n := by
    unfold asUint32
    omega
  obtain ⟨compression, hdata⟩ : ∃ compression : Got Nat, vocData st (st.vi.fp.skip 1) = { st with
      vi := { st.vi with
        sampleRate := if st.extended then st.vi.sampleRate else ⟨asUint32 (1000000 / (256 - b.toNat)), true⟩
        compression, dataSize := ⟨n, true⟩, dataOffset := (st.vi.fp.skip 6).pos % 2 ^ 32
        fp := (st.vi.fp.skip 6).skip n } } := by
    unfold vocData
    rw [readSize_rest h₁ hn]
    dsimp only [Got.map]
    rw [hsize]
    split
    · have hto : ((st.vi.fp.skip 1).skip 3).seekCur 2 = st.vi.fp.skip 6 := by
        rw [show (2 : Int) = ((2 : Nat) : Int) from rfl, Stream.seekCur_nat, Stream.skip_skip, Stream.skip_skip]
      rw [hto, Stream.seekCur_nat]
      exact ⟨_, rfl⟩
    · unfold getByte
      rw [Stream.Rest.fgetc h₂]
      dsimp only
      rw [Stream.Rest.fgetc h₃]
      have hto : (((st.vi.fp.skip 1).skip 3).skip 1).skip 1 = st.vi.fp.skip 6 := by simp only [Stream.skip_skip]
      dsimp only
      rw [hto, Stream.seekCur_nat]
      exact ⟨_, rfl⟩
  refine ⟨compression, ?_⟩
  unfold Goes vocTurn
  rw [Stream.Rest.fgetc h]
  show Except.ok (Turn.next (vocData st (st.vi.fp.skip 1))) = _
  rw [hdata]

theorem vocTurn_stop (h : st.vi.fp.Rest ([0] ++ rest)) :
    vocTurn host name st = Turn.stop <$> .ok (vocFinish host name { st.vi with fp := st.vi.fp.skip 1 }) := by
  unfold vocTurn
  rw [Stream.Rest.fgetc h]
  rfl

end

theorem vocStart_file {rest : List UInt8} (hmem : host.mem 40) :
    vocStart host (vocID ++ (ByteOrder.little.encode 2 26 ++ (ByteOrder.little.encode 2 0x10a ++
      (ByteOrder.little.encode 2 0x1129 ++ rest)))) = some {
      vi := { fp := ⟨vocID ++ (ByteOrder.little.encode 2 26 ++ (ByteOrder.little.encode 2 0x10a ++
                (ByteOrder.little.encode 2 0x1129 ++ rest))), 26⟩
              sampleRate := ⟨host.junk 53 0 % 2 ^ 32, false⟩, compression := ⟨host.junk 54 0 % 2 ^ 32, false⟩ } } := by
  have hrest : (Stream.mk (vocID ++ (ByteOrder.little.encode 2 26 ++ (ByteOrder.little.encode 2 0x10a ++
      (ByteOrder.little.encode 2 0x1129 ++ rest)))) 0).Rest (vocID ++ (ByteOrder.little.encode 2 26 ++
      (ByteOrder.little.encode 2 0x10a ++ (ByteOrder.little.encode 2 0x1129 ++ rest)))) := ⟨rfl, Nat.zero_le _⟩
  have h₁ := hrest.skip (n := 20) rfl
  have h₂ := h₁.skip ByteOrder.length_encode
  have h₃ := h₂.skip ByteOrder.length_encode
  unfold vocStart
  rw [if_pos hmem, hrest.freadItem (n := 20) rfl (by decide)]
  dsimp only
  rw [h₁.fileReadS (by decide)]
  dsimp only
  rw [h₂.fileReadS (by decide)]
  dsimp only
  rw [h₃.fileReadS (by decide)]
  dsimp only
  rw [if_pos ⟨rfl, rfl, rfl, rfl⟩]
  rfl

/-- The rate that is read back from the block for two tracks, or else from the data block. -/
def vocRateRead (s : NewSound) : Nat :=
  if s.numTracks = 2 then
    let n : Int := 65536 - (256000000 / (asUint32 s.sampleRate * 2 % 2 ^ 32) : Nat)
    256000000 / asUint32 (65536 - (asUint32 ((UInt8.ofNat (asUint32 n)).toNat +
      (UInt8.ofNat (asUint32 (n / 2 ^ 8))).toNat * 2 ^ 8) : Nat)) / 2
  else
    asUint32 (1000000 / (256 - (UInt8.ofNat (asUint32 (256 -
      (1000000 / (asUint32 s.sampleRate % 2 ^ 32) : Nat)))).toNat))

/-- The blocks behind the text, up to the end of the file. The file is opened 3 bytes behind the start of its data. -/
theorem vocTurns_behind {data : List UInt8} {g : Stream} {comment : Option (List UInt8)} {rate compression : Got Nat}
    (htracks : s.numTracks = 1 ∨ s.numTracks = 2) (hsize : data.length + 2 < 2 ^ 24) (hgpos : g.pos + 8 < 2 ^ 26)
    (h : g.Rest (vocExtendedBlock s ++ ([1] ++ (ByteOrder.little.encode 3 (data.length + 2) ++ (vocRateByte s ++ ([0] ++
      (data ++ [0]))))))) :
    ∃ n t p, after (vocTurn host name) n { vi := { fp := g, comment, sampleRate := rate, compression } } = some t ∧
      vocTurn host name t = Turn.stop <$> .ok (some p) ∧ p.comment = (comment <|> fileCommentFromFilename host name) ∧
      p.tracks = ⟨s.numTracks.toNat, true⟩ ∧ p.sampleRate = ⟨vocRateRead s, true⟩ ∧ p.dataSize = ⟨data.length, true⟩ ∧
      p.fp.bytes = g.bytes ∧ p.fp.pos = asUint32 (p.dataOffset + 3) ∧ g.bytes.drop p.fp.pos = (data ++ [0]).drop 3 := by
  -- the block for two tracks
  obtain ⟨m, u, hafter, hcomment, htracks', hrate, hbytes, hpos, hrest⟩ : ∃ m u, after (vocTurn host name) m
      { vi := { fp := g, comment, sampleRate := rate, compression } } = some u ∧
      u.vi.comment = comment ∧ u.vi.tracks = ⟨s.numTracks.toNat, true⟩ ∧
      (if u.extended then u.vi.sampleRate else ⟨asUint32 (1000000 / (256 - (UInt8.ofNat (asUint32 (256 -
        (1000000 / (asUint32 s.sampleRate % 2 ^ 32) : Nat)))).toNat)), true⟩) = ⟨vocRateRead s, true⟩ ∧
      u.vi.fp.bytes = g.bytes ∧ u.vi.fp.pos < 2 ^ 26 ∧
      u.vi.fp.Rest ([1] ++ (ByteOrder.little.encode 3 (data.length + 2) ++ (vocRateByte s ++ ([0] ++ (data ++ [0]))))) := by
    unfold vocExtendedBlock at h
    unfold vocRateRead
    rcases htracks with ht | ht
    · have hne : ¬ s.numTracks = 2 := by omega
      rw [if_neg hne, List.nil_append] at h
      exact ⟨0, _, rfl, rfl, by rw [ht]; rfl, by rw [if_neg hne]; rfl, rfl, by dsimp only; omega, h⟩
    · rw [if_pos ht] at h
      simp only [List.append_assoc] at h
      have go₂ := @vocTurn_extended host name _ { vi := { fp := g, comment, sampleRate := rate, compression } } _ _ h
      have h₂ := (h.skip (n := 1) rfl).skip ByteOrder.length_encode |>.skip (n := 1) rfl |>.skip (n := 1) rfl
        |>.skip (n := 1) rfl |>.skip (n := 1) rfl
      simp only [Stream.skip_skip] at h₂
      exact ⟨1, _, after_goes go₂, rfl, by rw [ht]; rfl, by rw [if_pos ht]; rfl, rfl,
        by dsimp only [Stream.skip_pos]; omega, h₂⟩
  obtain ⟨compression', go₃⟩ := @vocTurn_data host name _ u (UInt8.ofNat (asUint32 (256 - (1000000 / (asUint32 s.sampleRate % 2 ^ 32) : Nat)))) _ hsize hrest
  rw [hrate] at go₃
  have h₃ := (hrest.skip (n := 1) rfl).skip ByteOrder.length_encode |>.skip (n := 1) rfl |>.skip (n := 1) rfl
  rw [show (((u.vi.fp.skip 1).skip 3).skip 1).skip 1 = u.vi.fp.skip 6 from rfl] at h₃
  have h₄ := h₃.skip (n := data.length) rfl
  have hrun : after (vocTurn host name) (m + 1) { vi := { fp := g, comment, sampleRate := rate, compression } } = some { u with
      vi := { u.vi with
        sampleRate := ⟨vocRateRead s, true⟩, compression := compression', dataSize := ⟨data.length, true⟩
        dataOffset := (u.vi.fp.skip 6).pos % 2 ^ 32, fp := (u.vi.fp.skip 6).skip data.length } } := by
    rw [after_add, hafter, Option.bind_some, after_goes go₃]
    rfl
  have hoffset : (u.vi.fp.skip 6).pos % 2 ^ 32 = u.vi.fp.pos + 6 := by
    rw [Stream.skip_pos, Nat.mod_eq_of_lt (by omega)]
  have hback : asUint32 ((u.vi.fp.pos + 6 : Nat) + 3) = u.vi.fp.pos + 9 := by
    unfold asUint32
    omega
  rw [hoffset] at hrun
  obtain ⟨p, hp, hpc, hpt, hpr, hps, hpb, hpp, hpo⟩ : ∃ p, vocFinish host name { u.vi with
      sampleRate := ⟨vocRateRead s, true⟩, compression := compression', dataSize := ⟨data.length, true⟩
      dataOffset := u.vi.fp.pos + 6, fp := ((u.vi.fp.skip 6).skip data.length).skip 1 } = some p ∧
      p.comment = (comment <|> fileCommentFromFilename host name) ∧ p.tracks = ⟨s.numTracks.toNat, true⟩ ∧
      p.sampleRate = ⟨vocRateRead s, true⟩ ∧ p.dataSize = ⟨data.length, true⟩ ∧ p.fp.bytes = g.bytes ∧
      p.fp.pos = u.vi.fp.pos + 9 ∧ p.dataOffset = u.vi.fp.pos + 6 := by
    unfold vocFinish vocRewindFile
    dsimp only
    rw [if_neg (by omega), hback, hcomment]
    refine ⟨_, rfl, rfl, htracks', rfl, rfl, ?_, ?_, rfl⟩
    · rw [Stream.seekSet_bytes, Stream.skip_bytes, Stream.skip_bytes, Stream.skip_bytes, hbytes]
    · dsimp only
      unfold Stream.seekSet
      rw [if_pos (by omega)]
      rfl
  refine ⟨_, _, p, hrun, ?_, hpc, hpt, hpr, hps, hpb, ?_, ?_⟩
  · rw [@vocTurn_stop _ _ [] _ (by rw [List.append_nil]; exact h₄), hp]
  · rw [hpp, hpo, hback]
  · have hdata := h₃.1
    rw [Stream.skip_bytes, hbytes, Stream.skip_pos] at hdata
    rw [hpp, show u.vi.fp.pos + 9 = u.vi.fp.pos + 6 + 3 from rfl, ← List.drop_drop, hdata]

/-- What the comment block leaves for the comment. -/
def vocComment (s : NewSound) : Option (List UInt8) := if s.comment = [] then none else some (s.comment ++ [0])

/-- A VOC file is opened 3 bytes behind the start of its data. -/
theorem vocTurns {data : List UInt8} (hmem : ∀ n < 2 ^ 63, host.mem n) (hn : s.comment.length + 2 < 2 ^ 24)
    (htracks : s.numTracks = 1 ∨ s.numTracks = 2) (hsize : data.length + 2 < 2 ^ 24) {rate compression : Got Nat} :
    ∃ n t p, after (vocTurn host name) n { vi := { fp := ⟨vocBytes s data, 26⟩, sampleRate := rate, compression } } = some t ∧
      vocTurn host name t = Turn.stop <$> .ok (some p) ∧
      p.comment = (vocComment s <|> fileCommentFromFilename host name) ∧
      p.tracks = ⟨s.numTracks.toNat, true⟩ ∧ p.sampleRate = ⟨vocRateRead s, true⟩ ∧ p.dataSize = ⟨data.length, true⟩ ∧
      p.fp.bytes = vocBytes s data ∧ p.fp.pos = asUint32 (p.dataOffset + 3) ∧
      (vocBytes s data).drop p.fp.pos = (data ++ [0]).drop 3 := by
  have htext : (s.comment ++ [0]).length = s.comment.length + 1 := by simp
  obtain ⟨w, hw⟩ : ∃ w, w = Stream.mk (vocBytes s data) 0 := ⟨_, rfl⟩
  have hhead : w.Rest (vocBytes s data) := by
    rw [hw]
    exact ⟨rfl, Nat.zero_le _⟩
  unfold vocBytes vocFront at hhead
  simp only [List.append_assoc] at hhead
  have h₀ := (hhead.skip (n := 20) rfl).skip ByteOrder.length_encode |>.skip ByteOrder.length_encode
    |>.skip ByteOrder.length_encode
  obtain ⟨f, hf⟩ : ∃ f, f = Stream.mk (vocBytes s data) 26 := ⟨_, rfl⟩
  have hskip : w.skip (20 + 2 + 2 + 2) = f := by
    rw [hf, hw]
    rfl
  rw [Stream.skip_skip, Stream.skip_skip, Stream.skip_skip, hskip] at h₀
  rw [← hf]
  unfold vocTextBlock at h₀
  unfold vocComment
  by_cases hne : s.comment = []
  · rw [if_pos hne, List.nil_append] at h₀
    rw [if_pos hne]
    obtain ⟨n, t, p, hafter, hturn, hpc, hpt, hpr, hps, hpb, hpp, hdrop⟩ := @vocTurns_behind host name _ _ f
      none rate compression htracks hsize (by rw [hf]; dsimp only; omega) h₀
    have hbytes : f.bytes = vocBytes s data := by rw [hf]
    exact ⟨n, t, p, hafter, hturn, hpc, hpt, hpr, hps, hpb.trans hbytes, hpp, hbytes ▸ hdrop⟩
  · rw [if_neg hne] at h₀
    rw [if_neg hne]
    simp only [List.append_assoc] at h₀
    rw [← List.append_assoc s.comment [0], ← htext] at h₀
    have go₁ := @vocTurn_text host name _ { vi := { fp := f, sampleRate := rate, compression } } _ (hmem _ (by omega)) (by omega) (by omega) h₀
    dsimp only at go₁
    have h₁ := (h₀.skip (n := 1) rfl).skip ByteOrder.length_encode |>.skip (n := (s.comment ++ [0]).length) rfl
    obtain ⟨g, hg⟩ : ∃ g, g = (f.skip 4).skip (s.comment ++ [0]).length := ⟨_, rfl⟩
    have hgpos : g.pos = 31 + s.comment.length := by
      rw [hg, hf, Stream.skip_pos, Stream.skip_pos, htext]
      dsimp only
      omega
    have hgbytes : g.bytes = vocBytes s data := by rw [hg, hf, Stream.skip_bytes, Stream.skip_bytes]
    rw [show (f.skip 1).skip 3 = f.skip 4 from rfl, ← hg] at h₁
    rw [← hg] at go₁
    obtain ⟨n, t, p, hafter, hturn, hpc, hpt, hpr, hps, hpb, hpp, hdrop⟩ := @vocTurns_behind host name _ _ g
      (some (s.comment ++ [0])) rate compression htracks hsize (by omega) h₁
    refine ⟨1 + n, t, p, ?_, hturn, hpc, hpt, hpr, hps, hpb.trans hgbytes, hpp, hgbytes ▸ hdrop⟩
    rw [Nat.add_comm 1, after_goes go₁]
    exact hafter

/-- Where the readers start. -/
theorem vocStart_bytes {data : List UInt8} (hmem : host.mem 40) :
    (∀ n, soundOpenFileForReading host name n (vocBytes s data) =
      firstOf [openAs (walk (vocTurn host name) n (vocStart host (vocBytes s data))) vocToSound]) ∧
    vocStart host (vocBytes s data) = some {
      vi := { fp := ⟨vocBytes s data, 26⟩
              sampleRate := ⟨host.junk 53 0 % 2 ^ 32, false⟩, compression := ⟨host.junk 54 0 % 2 ^ 32, false⟩ } } := by
  have htake : (vocBytes s data).take 4 = vocID.take 4 := by
    unfold vocBytes vocFront
    simp only [List.append_assoc]
    exact List.take_append_of_le_length (by decide)
  refine ⟨fun n => only_voc hmem n htake, ?_⟩
  unfold vocBytes vocFront
  simp only [List.append_assoc]
  exact vocStart_file hmem

theorem vocToSound_some {p : VocInfo} {t : Nat} (ht : p.tracks = ⟨t, true⟩) (h0 : 0 < t) : ∃ r, vocToSound p = .ok (some r) ∧
    r.numTracks = p.tracks.map (fun n : Nat => wrap32 n) ∧ r.dataFormat = ⟨2, true⟩ ∧ r.comment = p.comment ∧
    r.numSamples.val = wrap32 (p.dataSize.val / t / sizeofFormat 2 : Nat) ∧ r.formatInfo = .voc p := by
  unfold vocToSound
  rw [ht, if_neg (by dsimp only; omega)]
  refine ⟨_, rfl, rfl, rfl, rfl, ?_, rfl⟩
  dsimp only

theorem fp_of_voc {r : Sound} {p : VocInfo} (h : r.formatInfo = .voc p) : r.fp = p.fp := by
  unfold Sound.fp
  rw [h]

theorem drop_end_eq {data : List UInt8} : (data ++ [0]).drop 3 = data ↔ data = [] := by
  constructor
  · intro h
    have hlen := congrArg List.length h
    rw [List.length_drop, List.length_append, List.length_singleton] at hlen
    rw [← List.length_eq_zero_iff]
    omega
  · rintro rfl
    rfl

/-- A written VOC file is read back just when it has no data. -/
theorem voc_readsBack_iff {w : Writing} {data : List UInt8} (hmem : ∀ n < 2 ^ 63, host.mem n) (hw : w.sound = s)
    (hn : w.numSamples = wrap32 (samplesWritten s blocks : Nat)) (hdata : data = blocks.flatten)
    (hdataFormat : s.dataFormat ∈ FileFormat.voc.dataFormats) (htracks : s.numTracks = 1 ∨ s.numTracks = 2)
    (hne : s.comment ≠ []) (hcomment : s.comment.length + 2 < 2 ^ 24) (hsize : data.length + 2 < 2 ^ 24) :
    (∃ n r, soundOpenFileForReading host name n (vocBytes s data) = .ok (some r) ∧ ReadsBack w data r) ↔ data = [] := by
  have hformat : s.dataFormat = 2 := by simpa [FileFormat.dataFormats] using hdataFormat
  obtain ⟨honly, hstart⟩ := @vocStart_bytes host name s data (hmem 40 (by decide))
  rw [hstart] at honly
  obtain ⟨n, t, p, hafter, hturn, hpc, hpt, -, hps, hpb, hpp, hdrop⟩ := @vocTurns _ name _ _ hmem hcomment htracks hsize ⟨host.junk 53 0 % 2 ^ 32, false⟩ ⟨host.junk 54 0 % 2 ^ 32, false⟩
  obtain ⟨fuel, hloop⟩ := (loop_eq_iff (fun h => by cases h)).2 ⟨n, t, hafter, hturn⟩
  obtain ⟨r, hr, hrt, hrf, hrc, hrn, hinfo⟩ := vocToSound_some hpt (by omega)
  have hle : data.length / s.numTracks.toNat / sizeofFormat 2 ≤ data.length :=
    Nat.le_trans (Nat.div_le_self _ _) (Nat.div_le_self _ _)
  have hle' : samplesWritten s blocks ≤ data.length := hdata ▸ samplesWritten_le
  have hback : ReadsBack w data r ↔ samplesWritten s blocks = data.length / s.numTracks.toNat / sizeofFormat 2 ∧
      (data ++ [0]).drop 3 = data := by
    refine readsBack_iff ?_ ?_ ?_ ?_ (by omega) hn (by omega) ?_ (rewound_voc hinfo hpp)
    · rw [hrt, hpt, Got.map_val, hw, wrap32_eq (by dsimp only; omega) (by dsimp only; omega)]
      dsimp only
      omega
    · rw [hrf, hw, hformat]
      rfl
    · rw [hrc, hpc, hw, vocComment, if_neg hne]
      rfl
    · rw [hrn, hps]
    · rw [fp_of_voc hinfo, hpb, hdrop]
  rw [opened_some honly hloop hr, hback, drop_end_eq]
  constructor
  · exact fun h => h.2
  · intro h
    refine ⟨?_, h⟩
    rw [h, List.length_nil] at hle' ⊢
    rw [Nat.zero_div, Nat.zero_div]
    omega

/-! ### The formats -/

/-- What a format can represent: the tracks, and the sizes of the comment and the data. -/
def Representable (s : NewSound) (data : List UInt8) : Prop :=
  match s.fileFormat with
  | .wave => 0 < s.numTracks ∧ s.numTracks < 2 ^ 15 ∧ s.comment.length + 2 < 2 ^ 31 ∧
      56 + textSize s + (data.length + data.length % 2) < 2 ^ 32
  | .aiff => 0 < s.numTracks ∧ s.numTracks < 2 ^ 15 ∧ s.comment.length + 1 < 2 ^ 16 ∧
      64 + textSize s + (data.length + data.length % 2) < 2 ^ 32
  | .svx => s.numTracks = 1 ∧ 0 ≤ s.sampleRate ∧ s.sampleRate < 2 ^ 16 ∧ s.comment.length + 2 < 2 ^ 31 ∧
      48 + s.comment.length + data.length + 1 < 2 ^ 32
  | .voc => (s.numTracks = 1 ∨ s.numTracks = 2) ∧ 0 < s.sampleRate ∧ s.sampleRate < 2 ^ 31 ∧
      s.comment.length + 2 < 2 ^ 24 ∧ data.length + 2 < 2 ^ 24
  | .snd => False

/-- When a file is read back as it was written. The samples of a block are those that are whole in it. -/
def Survives (s : NewSound) (blocks : List (List UInt8)) : Prop :=
  match s.fileFormat with
  | .wave => 52 + textSize s + (blocks.flatten.length + blocks.flatten.length % 2) < 2 ^ 31 ∧
      blocks.flatten.length % 2 = 0 ∧
      samplesWritten s blocks = blocks.flatten.length / s.numTracks.toNat / sizeofFormat s.dataFormat
  | .aiff => 8 ≤ blocks.flatten.length ∧ blocks.flatten.length % 2 = 0 ∧
      samplesWritten s blocks = (blocks.flatten.length - 8) / s.numTracks.toNat / sizeofFormat s.dataFormat
  | .voc => blocks.flatten = []
  | .svx | .snd => False

theorem roundTrips_of_written {w : Writing} {bytes : List UInt8} {numSamples : Int} {P : Prop}
    (hw : writeSound host s numSamples blocks = .ok w) (hclose : soundCloseFile w = bytes)
    (h : (∃ n r, soundOpenFileForReading host name n bytes = .ok (some r) ∧ ReadsBack w blocks.flatten r) ↔ P) :
    RoundTrips host name s numSamples blocks ↔ P := by
  rw [← h]
  constructor
  · rintro ⟨w', hw', hread⟩
    obtain rfl := Except.ok.inj (hw.symm.trans hw')
    rwa [hclose] at hread
  · intro hread
    refine ⟨w, hw, ?_⟩
    rwa [hclose]

/-- Sound files are read back as they were written only in some cases: never from an 8SVX file, from a VOC file only without
data, from a WAVE or AIFF file only with an even number of bytes, and from an AIFF file only if 8 bytes more or less make no
difference to the number of samples. -/
theorem roundTrips_iff (host : Host) (name : List UInt8) (s : NewSound) (numSamples : Int) (blocks : List (List UInt8))
    (hmem : ∀ n < 2 ^ 63, host.mem n) (hcreate : soundCreate host s) (hcomment : s.comment ≠ [])
    (hblocks : ∀ b ∈ blocks, b.length < 2 ^ 31) (hrep : Representable s blocks.flatten) :
    RoundTrips host name s numSamples blocks ↔ Survives s blocks := by
  have hformats : s.dataFormat ∈ s.fileFormat.dataFormats := by
    unfold soundCreate at hcreate
    simp only [Bool.and_eq_true, List.contains_iff_mem] at hcreate
    exact hcreate.1.2
  unfold Representable at hrep
  unfold Survives
  rcases hfile : s.fileFormat with _ | _ | _ | _ | _
  · rw [hfile] at hrep
    exact absurd hrep id
  · rw [hfile] at hrep hformats
    obtain ⟨htracks, hrate, hrate', hlen, hsize⟩ := hrep
    have hformat : s.dataFormat = 2 := by simpa [FileFormat.dataFormats] using hformats
    obtain ⟨w, hw, hsound, hn, hclose⟩ := @writeVoc host _ _ hfile hlen (by omega) (by rw [hformat]; decide) ⟨hrate, hrate'⟩ hblocks (by omega) numSamples
    exact roundTrips_of_written hw hclose (voc_readsBack_iff hmem hsound hn rfl hformats htracks hcomment hlen hsize)
  · rw [hfile] at hrep hformats
    obtain ⟨htracks, htracks', hlen, hsize⟩ := hrep
    obtain ⟨w, hw, hsound, hn, hclose⟩ := @writeWave host _ _ hfile hcomment hlen htracks (waveFormat hformats).1 hblocks (by omega) numSamples
    exact roundTrips_of_written hw hclose (wave_readsBack_iff hmem hsound hn rfl hformats htracks htracks' hsize)
  · rw [hfile] at hrep hformats
    obtain ⟨htracks, htracks', hlen, hsize⟩ := hrep
    obtain ⟨w, hw, hsound, hn, hclose⟩ := @writeAiff host _ _ hfile hcomment (by omega) htracks (aiffFormat hformats).1 hblocks (by omega) numSamples
    exact roundTrips_of_written hw hclose (aiff_readsBack_iff hmem hsound hn rfl hformats htracks htracks' hlen hsize)
  · rw [hfile] at hrep hformats
    obtain ⟨htracks, hrate, hrate', hlen, hsize⟩ := hrep
    have hformat : s.dataFormat = 3 := by simpa [FileFormat.dataFormats] using hformats
    obtain ⟨w, hw, hsound, hn, hclose⟩ := @writeSvx host _ _ hfile hcomment hlen (by omega) (by rw [hformat]; decide) hblocks (by omega) numSamples
    exact roundTrips_of_written hw hclose ⟨fun h => absurd h
      (svx_not_readsBack hmem hcomment hlen (by omega)), fun h => absurd h id⟩

/-- A stereo WAVE file. -/
def shortWave : NewSound := ⟨.wave, 6, 2, 44100, [104, 105], by decide⟩

theorem shortWave_roundTrips : RoundTrips plainHost [] shortWave 0 [[1, 2, 3, 4], [5, 6, 7, 8]] :=
  (roundTrips_iff plainHost [] shortWave 0 [[1, 2, 3, 4], [5, 6, 7, 8]] (fun n hn => by simpa [plainHost] using hn)
    (by decide) (by decide) (by decide) ⟨by decide, by decide, by decide, by decide⟩).2 ⟨by decide, by decide, by decide⟩

/-- An 8SVX file. -/
def shortSvx : NewSound := ⟨.svx, 3, 1, 8000, [104, 105], by decide⟩

theorem shortSvx_not_roundTrips : soundCreate plainHost shortSvx ∧ Representable shortSvx [1, 2, 3, 4] ∧
    ¬ RoundTrips plainHost [] shortSvx 0 [[1, 2, 3, 4]] := by
  refine ⟨by decide, ⟨by decide, by decide, by decide, by decide, by decide⟩, ?_⟩
  rintro ⟨w, hw, hread⟩
  obtain ⟨w', hw', -, -, hclose⟩ := @writeSvx plainHost shortSvx [[1, 2, 3, 4]] rfl (by decide) (by decide) (by decide) (by decide) (by decide) (by decide) 0
  obtain rfl := Except.ok.inj (hw'.symm.trans hw)
  rw [hclose] at hread
  exact svx_not_readsBack (fun n hn => by simpa [plainHost] using hn) (by decide) (by decide) (by decide) hread

end Nas.SoundFile
