import Nas.SoundReaders
import Mathlib.Data.Int.Interval
import Mathlib.Order.Interval.Finset.Nat
import Mathlib.Order.Interval.Set.Infinite

/-!
# Opening a sound file ends

What a turn of a chunk walk does with its position depends on little: the position, the sizes that are left and, in WAVE,
whether there was a format and a data chunk. The walks of WAVE, AIFF and 8SVX end if that does not come twice; a chunk
whose size is negative can bring it back. SND has no loop, and VOC only goes forward.
-/

namespace Nas.SoundFile
open Stdio Turn
variable {host : Host} {name bytes : List UInt8}

def int32 : Set Int := {x | -2 ^ 31 ≤ x ∧ x ≤ 2 ^ 31 - 1}

theorem wrap32_mem (x : Int) : wrap32 x ∈ int32 :=
  ⟨(wrap32_bounds x).1, by have := (wrap32_bounds x).2; omega⟩

theorem zero_mem : (0 : Int) ∈ int32 := ⟨by decide, by decide⟩

theorem int32_finite : int32.Finite := Set.finite_Icc (-2 ^ 31 : Int) (2 ^ 31 - 1)

/-- The positions inside a file. -/
def places (bytes : List UInt8) : Set Stream := {f | f.bytes = bytes ∧ f.pos ≤ bytes.length}

theorem places_finite : (places bytes).Finite := by
  refine ((Set.finite_Iic bytes.length).image (Stream.mk bytes)).subset ?_
  rintro ⟨bytes', pos⟩ ⟨rfl, hpos⟩
  exact ⟨pos, hpos, rfl⟩

/-! ### WAVE -/

def waveKey (s : WaveWalk) : Stream × Int × Int × Bool × Bool :=
  (s.wi.fp, s.fileSize, s.info, s.wi.fmt.format = 0, s.wi.dataOffset = 0)

theorem waveKey_eq {s t : WaveWalk} : waveKey s = waveKey t ↔ s.wi.fp = t.wi.fp ∧ s.fileSize = t.fileSize ∧
    s.info = t.info ∧ (s.wi.fmt.format = 0 ↔ t.wi.fmt.format = 0) ∧ (s.wi.dataOffset = 0 ↔ t.wi.dataOffset = 0) := by
  simp [waveKey, Prod.ext_iff, decide_eq_decide]

theorem waveInfoTurn_key {s t : WaveWalk} (h : waveKey s = waveKey t) :
    nextKey waveKey (.ok (waveInfoTurn host s)) = nextKey waveKey (.ok (waveInfoTurn host t)) := by
  obtain ⟨hfp, hsize, hinfo, hfmt, hdata⟩ := waveKey_eq.1 h
  unfold waveInfoTurn
  rw [hfp, hinfo]
  split
  · rfl
  · split
    · split
      · split
        · rfl
        · exact congrArg some (waveKey_eq.2 ⟨rfl, hsize, rfl, hfmt, hdata⟩)
      · rfl
    · exact congrArg some (waveKey_eq.2 ⟨rfl, hsize, rfl, hfmt, hdata⟩)

@[simp] theorem waveData_fmt {ckSize : Int} {wi : WaveInfo} : (waveData ckSize wi).fmt = wi.fmt := by
  unfold waveData
  dsimp only
  split <;> rfl

theorem waveData_congr {ckSize : Int} {wi wi' : WaveInfo} (h : wi.fp = wi'.fp) :
    (waveData ckSize wi).fp = (waveData ckSize wi').fp ∧
      (waveData ckSize wi).dataOffset = (waveData ckSize wi').dataOffset := by
  unfold waveData
  rw [h]
  dsimp only
  split <;> exact ⟨rfl, rfl⟩

theorem waveChunkTurn_key {s t : WaveWalk} (h : waveKey s = waveKey t) :
    nextKey waveKey (.ok (waveChunkTurn host s)) = nextKey waveKey (.ok (waveChunkTurn host t)) := by
  obtain ⟨hfp, hsize, hinfo, hfmt, hdata⟩ := waveKey_eq.1 h
  unfold waveChunkTurn
  rw [hfp, hsize]
  split
  · rfl
  · simp only [hfmt, hdata]
    split
    · split
      · rfl
      · split
        · exact congrArg some (waveKey_eq.2 ⟨rfl, rfl, rfl, hfmt, hdata⟩)
        · exact congrArg some (waveKey_eq.2 ⟨rfl, rfl, hinfo, hfmt, hdata⟩)
    · split
      · split
        · exact congrArg some (waveKey_eq.2 ⟨rfl, rfl, hinfo, Iff.rfl, hdata⟩)
        · rfl
      · split
        · rename_i c fp _ _ _ _
          obtain ⟨hnext, hoffset⟩ :=
            @waveData_congr c.ckSize { s.wi with fp } { t.wi with fp } rfl
          refine congrArg some (waveKey_eq.2 ⟨hnext, rfl, hinfo, ?_, by rw [hoffset]⟩)
          rw [waveData_fmt, waveData_fmt]
          exact hfmt
        · exact congrArg some (waveKey_eq.2 ⟨rfl, rfl, hinfo, hfmt, hdata⟩)

theorem waveTurn_decides : Decides (waveTurn host name) waveKey := by
  refine Decides.of_nextKey fun s t h => ?_
  obtain ⟨-, hsize, hinfo, -, -⟩ := waveKey_eq.1 h
  unfold waveTurn
  rw [hsize, hinfo]
  split
  · exact waveInfoTurn_key h
  · split
    · exact waveChunkTurn_key h
    · rw [nextKey_stop, nextKey_stop]

theorem waveFmt_bytes {fp : Stream} : (waveFmt host fp).2.bytes = fp.bytes := by
  simp only [waveFmt, Stream.fileReadS_bytes, Stream.fileReadL_bytes]

theorem waveData_bytes {ckSize : Int} {wi : WaveInfo} : (waveData ckSize wi).fp.bytes = wi.fp.bytes := by
  unfold waveData
  dsimp only
  split
  · exact Stream.seekEnd_bytes
  · exact Stream.seekSet_bytes

/-- A walk over the file whose sizes are `AuInt32`s. -/
structure WaveOver (bytes : List UInt8) (s : WaveWalk) : Prop where
  bytes : s.wi.fp.bytes = bytes
  fileSize : s.fileSize ∈ int32
  info : s.info ∈ int32

theorem waveInfoTurn_over {s t : WaveWalk} (hs : WaveOver bytes s) (h : waveInfoTurn host s = .next t) :
    s.wi.fp ∈ places bytes ∧ WaveOver bytes t := by
  unfold waveInfoTurn at h
  split at h
  · cases h
  · rename_i c fp hc
    have hplace : s.wi.fp.pos + 8 ≤ s.wi.fp.bytes.length := (readChunk_some (congrArg Prod.fst hc)).1
    have hfp : fp.bytes = bytes := by rw [readChunk_eq_bytes hc, hs.bytes]
    refine ⟨⟨hs.bytes, by rw [← hs.bytes]; omega⟩, ?_⟩
    dsimp only at h
    split at h
    · split at h
      · split at h
        · cases h
        · rename_i l fp' hl
          have hfp' : fp'.bytes = bytes := by rw [Stream.freadItem_eq_bytes hl, hfp]
          cases h
          refine ⟨?_, hs.fileSize, wrap32_mem _⟩
          change (if _ then _ else _ : Stream).bytes = _
          split
          · rw [Stream.fgetc_bytes, hfp']
          · exact hfp'
      · cases h
    · cases h
      exact ⟨by rw [WaveWalk.seek, Stream.seekCur_bytes, hfp], hs.fileSize, wrap32_mem _⟩

theorem waveChunkTurn_over {s t : WaveWalk} (hs : WaveOver bytes s) (h : waveChunkTurn host s = .next t) :
    s.wi.fp ∈ places bytes ∧ WaveOver bytes t := by
  unfold waveChunkTurn at h
  split at h
  · cases h
  · rename_i c fp hc
    have hplace : s.wi.fp.pos + 8 ≤ s.wi.fp.bytes.length := (readChunk_some (congrArg Prod.fst hc)).1
    have hfp : fp.bytes = bytes := by rw [readChunk_eq_bytes hc, hs.bytes]
    refine ⟨⟨hs.bytes, by rw [← hs.bytes]; omega⟩, ?_⟩
    dsimp only at h
    split at h
    · split at h
      · cases h
      · rename_i l fp' hl
        have hfp' : fp'.bytes = bytes := by rw [Stream.freadItem_eq_bytes hl, hfp]
        split at h
        · cases h
          exact ⟨hfp', wrap32_mem _, wrap32_mem _⟩
        · cases h
          exact ⟨by rw [WaveWalk.seek, Stream.seekCur_bytes, hfp'], wrap32_mem _, hs.info⟩
    · split at h
      · split at h
        · cases h
          exact ⟨by rw [Stream.seekCur_bytes, waveFmt_bytes, hfp], wrap32_mem _, hs.info⟩
        · cases h
      · split at h
        · cases h
          exact ⟨by rw [waveData_bytes, hfp], wrap32_mem _, hs.info⟩
        · cases h
          exact ⟨by rw [WaveWalk.seek, Stream.seekCur_bytes, hfp], wrap32_mem _, hs.info⟩

theorem waveTurn_over {s t : WaveWalk} (hs : WaveOver bytes s) (h : Goes (waveTurn host name) s t) :
    s.wi.fp ∈ places bytes ∧ WaveOver bytes t := by
  unfold Goes waveTurn at h
  split at h
  · exact waveInfoTurn_over hs (Except.ok.inj h)
  · split at h
    · exact waveChunkTurn_over hs (Except.ok.inj h)
    · obtain ⟨a, -, ha⟩ := Exec.map_eq_ok.1 h
      cases ha

/-! ### AIFF -/

def aiffKey (s : AiffWalk) : Stream × Int := (s.ai.fp, s.fileSize)

theorem aiffComment_congr {ckSize : Int} {ai ai' : AiffInfo} (h : ai.fp = ai'.fp) :
    (aiffComment host ckSize ai).map (·.fp) = (aiffComment host ckSize ai').map (·.fp) := by
  unfold aiffComment
  rw [h]
  dsimp only
  split
  · split
    · split
      · split <;> rfl
      · rfl
    · rfl
  · rfl

theorem aiffTurn_decides : Decides (aiffTurn host name) aiffKey := by
  refine Decides.of_nextKey fun s t h => ?_
  obtain ⟨hfp, hsize⟩ : s.ai.fp = t.ai.fp ∧ s.fileSize = t.fileSize := Prod.ext_iff.1 h
  unfold aiffTurn aiffChunkTurn
  rw [hfp, hsize]
  split
  · split
    · rfl
    · dsimp only
      split
      · split <;> rfl
      · split
        · rfl
        · split
          · rename_i c fp _ _ _ _
            have hnext := @aiffComment_congr host c.ckSize { s.ai with fp } { t.ai with fp } rfl
            rcases hs : aiffComment host c.ckSize { s.ai with fp } with _ | ai <;>
              rcases ht : aiffComment host c.ckSize { t.ai with fp } with _ | ai' <;> rw [hs, ht] at hnext
            · cases hnext
            · cases hnext
            · exact congrArg some (Prod.ext (Option.some.inj hnext) rfl)
          · rfl
  · rw [nextKey_stop, nextKey_stop]

theorem aiffCommon_bytes {fp : Stream} : (aiffCommon host fp).2.bytes = fp.bytes := by
  simp only [aiffCommon, Stream.fileReadS_bytes, Stream.fileReadL_bytes, Stream.freadItem_bytes]

theorem aiffSoundData_bytes {ckSize : Int} {ai : AiffInfo} : (aiffSoundData host ckSize ai).fp.bytes = ai.fp.bytes := by
  simp only [aiffSoundData, Stream.seekCur_bytes, Stream.fileReadL_bytes]

theorem aiffComment_bytes {ckSize : Int} {ai ai' : AiffInfo} (h : aiffComment host ckSize ai = some ai') :
    ai'.fp.bytes = ai.fp.bytes := by
  have hskip : ∀ (n : Int) (fp : Stream), (if n ≠ 0 then fp.seekCur n else fp).bytes = fp.bytes := fun n fp => by
    split
    · exact Stream.seekCur_bytes
    · rfl
  unfold aiffComment at h
  dsimp only at h
  split at h
  · split at h
    · split at h
      · split at h
        · cases h
        · rename_i l fp hl
          cases h
          have hfp := Stream.freadItem_eq_bytes hl
          rw [hskip]
          simp only [Stream.fileReadS_bytes, Stream.fileReadL_bytes] at hfp
          split
          · rw [Stream.fgetc_bytes, hfp]
          · exact hfp
      · cases h
    · cases h
      rw [hskip]
      simp only [Stream.fileReadS_bytes, Stream.fileReadL_bytes]
  · cases h
    rw [hskip, Stream.fileReadS_bytes]

theorem waveTurn_ne_fuel (s : WaveWalk) : waveTurn host name s ≠ .error .fuel := by
  unfold waveTurn waveFinish samples
  intro h
  split at h
  · cases h
  · split at h
    · cases h
    · rw [Exec.map_eq_error] at h
      split at h
      · cases h
      · split at h <;> cases h

theorem waveTurn_halts_iff {s : WaveWalk} (hs : WaveOver bytes s) :
    Halts (waveTurn host name) s ↔ ¬ ComesBack (waveTurn host name) waveKey s := by
  have hfinite : (places bytes ×ˢ int32 ×ˢ int32 ×ˢ (Set.univ : Set (Bool × Bool))).Finite :=
    places_finite.prod (int32_finite.prod (int32_finite.prod Set.finite_univ))
  refine halts_iff waveTurn_ne_fuel waveTurn_decides hfinite fun n t u ht htu => ?_
  have hover : WaveOver bytes t := after_inv hs (fun t u ht htu => (waveTurn_over ht htu).2) ht
  exact ⟨(waveTurn_over hover htu).1, hover.fileSize, hover.info, trivial⟩

structure AiffOver (bytes : List UInt8) (s : AiffWalk) : Prop where
  bytes : s.ai.fp.bytes = bytes
  fileSize : s.fileSize ∈ int32

theorem aiffTurn_over {s t : AiffWalk} (hs : AiffOver bytes s) (h : Goes (aiffTurn host name) s t) :
    s.ai.fp ∈ places bytes ∧ AiffOver bytes t := by
  unfold Goes aiffTurn at h
  split at h
  · have h := Except.ok.inj h
    unfold aiffChunkTurn at h
    split at h
    · cases h
    · rename_i c fp hc
      have hplace : s.ai.fp.pos + 8 ≤ s.ai.fp.bytes.length := (readChunk_some (congrArg Prod.fst hc)).1
      have hfp : fp.bytes = bytes := by rw [readChunk_eq_bytes hc, hs.bytes]
      refine ⟨⟨hs.bytes, by rw [← hs.bytes]; omega⟩, ?_⟩
      dsimp only at h
      split at h
      · split at h
        · cases h
        · rename_i common fp' hcommon
          cases h
          refine ⟨?_, wrap32_mem _⟩
          have := @aiffCommon_bytes host fp
          rwa [hcommon, hfp] at this
      · split at h
        · cases h
          exact ⟨by rw [aiffSoundData_bytes, hfp], wrap32_mem _⟩
        · split at h
          · split at h
            · cases h
            · rename_i ai hcomment
              cases h
              exact ⟨by rw [aiffComment_bytes hcomment, hfp], wrap32_mem _⟩
          · cases h
            exact ⟨by rw [Stream.seekCur_bytes, hfp], wrap32_mem _⟩
  · obtain ⟨a, -, ha⟩ := Exec.map_eq_ok.1 h
    cases ha

theorem aiffTurn_ne_fuel (s : AiffWalk) : aiffTurn host name s ≠ .error .fuel := by
  unfold aiffTurn aiffFinish samples
  intro h
  split at h
  · cases h
  · rw [Exec.map_eq_error] at h
    split at h
    · cases h
    · split at h <;> cases h

theorem aiffTurn_halts_iff {s : AiffWalk} (hs : AiffOver bytes s) :
    Halts (aiffTurn host name) s ↔ ¬ ComesBack (aiffTurn host name) aiffKey s := by
  have hfinite : (places bytes ×ˢ int32).Finite := places_finite.prod int32_finite
  refine halts_iff aiffTurn_ne_fuel aiffTurn_decides hfinite fun n t u ht htu => ?_
  have hover : AiffOver bytes t := after_inv hs (fun t u ht htu => (aiffTurn_over ht htu).2) ht
  exact ⟨(aiffTurn_over hover htu).1, hover.fileSize⟩

/-! ### 8SVX -/

def svxKey (s : SvxWalk) : Stream × Int := (s.si.fp, s.fileSize)

theorem svxTurn_decides : Decides (svxTurn host name) svxKey := by
  refine Decides.of_nextKey fun s t h => ?_
  obtain ⟨hfp, hsize⟩ : s.si.fp = t.si.fp ∧ s.fileSize = t.fileSize := Prod.ext_iff.1 h
  unfold svxTurn svxChunkTurn
  rw [hfp, hsize]
  split
  · split
    · rfl
    · split
      · split <;> rfl
      · split
        · rfl
        · split
          · rename_i c fp _ _ _ _
            rcases svxName host c.ckSize fp with e | (_ | ⟨comment, fp'⟩) <;> rfl
          · rfl
  · rfl

theorem svxVhdr_bytes {fp fp' : Stream} {rate : Got Int} (h : svxVhdr host fp = some (rate, fp')) :
    fp'.bytes = fp.bytes := by
  unfold svxVhdr at h
  dsimp only at h
  split at h
  · cases h
    simp only [Stream.fileReadL_bytes, Stream.fgetc_bytes, Stream.fileReadS_bytes]
  · cases h

theorem svxName_bytes {ckSize : Int} {fp fp' : Stream} {l : List UInt8} (h : svxName host ckSize fp = .ok (some (l, fp'))) :
    fp'.bytes = fp.bytes := by
  unfold svxName freadInto at h
  dsimp only at h
  split at h
  · split at h
    · cases h
    · rcases hitem : fp.freadItem (asSize ckSize) with ⟨_ | l', fp''⟩
      · rw [hitem] at h
        cases h
      · rw [hitem] at h
        cases h
        exact Stream.freadItem_eq_bytes hitem
  · cases h

structure SvxOver (bytes : List UInt8) (s : SvxWalk) : Prop where
  bytes : s.si.fp.bytes = bytes
  fileSize : s.fileSize ∈ int32

theorem svxTurn_over {s t : SvxWalk} (hs : SvxOver bytes s) (h : Goes (svxTurn host name) s t) :
    s.si.fp ∈ places bytes ∧ SvxOver bytes t := by
  unfold Goes svxTurn at h
  split at h
  · unfold svxChunkTurn at h
    split at h
    · cases h
    · rename_i c fp hc
      have hplace : s.si.fp.pos + 8 ≤ s.si.fp.bytes.length := (readChunk_some (congrArg Prod.fst hc)).1
      have hfp : fp.bytes = bytes := by rw [readChunk_eq_bytes hc, hs.bytes]
      refine ⟨⟨hs.bytes, by rw [← hs.bytes]; omega⟩, ?_⟩
      dsimp only at h
      split at h
      · split at h
        · cases h
        · rename_i hvhdr
          cases h
          exact ⟨by rw [svxVhdr_bytes hvhdr, hfp], wrap32_mem _⟩
      · split at h
        · cases h
          exact ⟨by rw [Stream.seekCur_bytes, hfp], wrap32_mem _⟩
        · split at h
          · obtain ⟨r, hname, hr⟩ := Exec.bind_eq_ok.1 h
            rcases r with _ | ⟨l, fp'⟩
            · cases hr
            · cases hr
              exact ⟨by rw [svxName_bytes hname, hfp], wrap32_mem _⟩
          · cases h
            exact ⟨by rw [Stream.seekCur_bytes, hfp], wrap32_mem _⟩
  · cases h

theorem svxName_ne_fuel {ckSize : Int} {fp : Stream} : svxName host ckSize fp ≠ .error .fuel := by
  unfold svxName freadInto
  intro h
  dsimp only at h
  split at h
  · split at h
    · cases h
    · cases h
  · cases h

theorem svxTurn_ne_fuel (s : SvxWalk) : svxTurn host name s ≠ .error .fuel := by
  unfold svxTurn svxChunkTurn
  intro h
  split at h
  · split at h
    · cases h
    · rename_i c fp _
      dsimp only at h
      split at h
      · split at h <;> cases h
      · split at h
        · cases h
        · split at h
          · rcases hname : svxName host c.ckSize fp with e | (_ | ⟨l, fp'⟩)
            · rw [hname] at h
              cases h
              exact svxName_ne_fuel hname
            · rw [hname] at h
              cases h
            · rw [hname] at h
              cases h
          · cases h
  · cases h

theorem svxTurn_halts_iff {s : SvxWalk} (hs : SvxOver bytes s) :
    Halts (svxTurn host name) s ↔ ¬ ComesBack (svxTurn host name) svxKey s := by
  have hfinite : (places bytes ×ˢ int32).Finite := places_finite.prod int32_finite
  refine halts_iff svxTurn_ne_fuel svxTurn_decides hfinite fun n t u ht htu => ?_
  have hover : SvxOver bytes t := after_inv hs (fun t u ht htu => (svxTurn_over ht htu).2) ht
  exact ⟨(svxTurn_over hover htu).1, hover.fileSize⟩

/-! ### VOC -/

/-- Not before another position of the same file. -/
def Ahead (f g : Stream) : Prop := g.bytes = f.bytes ∧ f.pos ≤ g.pos

namespace Ahead
variable {f g h : Stream}

theorem refl : Ahead f f := ⟨rfl, Nat.le_refl _⟩

theorem trans (h₁ : Ahead f g) (h₂ : Ahead g h) : Ahead f h := ⟨h₂.1.trans h₁.1, h₁.2.trans h₂.2⟩

theorem fgetc (h : Ahead f g) : Ahead f g.fgetc.2 := h.trans ⟨Stream.fgetc_bytes, Stream.pos_le_fgetc⟩

theorem freadItem {n : Nat} (h : Ahead f g) : Ahead f (g.freadItem n).2 :=
  h.trans ⟨Stream.freadItem_bytes, Stream.pos_le_fread⟩

theorem seekCur {off : Nat} (h : Ahead f g) : Ahead f (g.seekCur off) :=
  h.trans ⟨Stream.seekCur_bytes, Stream.pos_le_seekCur (by omega)⟩

theorem readSize (h : Ahead f g) : Ahead f (readSize g).2 := h.fgetc.fgetc.fgetc

theorem getByte (h : Ahead f g) : Ahead f (getByte g).2 := h.fgetc

end Ahead

variable {s t : VocWalk}

theorem eofOr_some {b c : UInt8} : Stream.eofOr (some b) = c.toNat ↔ b = c := by
  rw [show Stream.eofOr (some b) = (b.toNat : Int) from rfl, Int.natCast_inj, UInt8.toNat_inj]

theorem vocTurn_goes (h : Goes (vocTurn host name) s t) : ∃ b, s.vi.fp.fgetc.1 = some b ∧ b ≠ 0 ∧
    (b = 1 ∧ t = vocData s s.vi.fp.fgetc.2 ∨ b = 5 ∧ vocText host s s.vi.fp.fgetc.2 = some t ∨
      b = 8 ∧ vocExtended s s.vi.fp.fgetc.2 = some t ∨ b ≠ 1 ∧ b ≠ 5 ∧ t = vocSkip s s.vi.fp.fgetc.2) := by
  have horErr : ∀ {x : Option VocWalk}, (x.elim (.stop none) .next : Turn VocWalk (Option VocInfo)) = .next t →
      x = some t := by
    intro x hx
    rcases x with _ | u
    · cases hx
    · cases hx
      rfl
  have h := Except.ok.inj h
  dsimp only at h
  rcases hc : s.vi.fp.fgetc.1 with _ | b
  · rw [hc] at h
    cases h
  · rw [hc] at h
    refine ⟨b, rfl, ?_⟩
    split at h
    · cases h
    · rename_i hb
      obtain rfl := eofOr_some (c := 1).1 hb
      cases h
      exact ⟨by decide, .inl ⟨rfl, rfl⟩⟩
    · rename_i hb
      obtain rfl := eofOr_some (c := 5).1 hb
      exact ⟨by decide, .inr (.inl ⟨rfl, horErr h⟩)⟩
    · rename_i hb
      obtain rfl := eofOr_some (c := 8).1 hb
      exact ⟨by decide, .inr (.inr (.inl ⟨rfl, horErr h⟩))⟩
    iterate 5
      · rename_i hb
        first
          | obtain rfl := eofOr_some (c := 2).1 hb
          | obtain rfl := eofOr_some (c := 3).1 hb
          | obtain rfl := eofOr_some (c := 4).1 hb
          | obtain rfl := eofOr_some (c := 6).1 hb
          | obtain rfl := eofOr_some (c := 7).1 hb
        cases h
        exact ⟨by decide, .inr (.inr (.inr ⟨by decide, by decide, rfl⟩))⟩
    · cases h

theorem vocData_ahead {fp : Stream} : Ahead fp (vocData s fp).vi.fp := by
  unfold vocData
  dsimp only
  split
  · exact Ahead.refl.readSize.seekCur.seekCur
  · exact Ahead.refl.readSize.fgetc.getByte.seekCur

theorem vocText_ahead {fp : Stream} (h : vocText host s fp = some t) : Ahead fp t.vi.fp := by
  unfold vocText at h
  dsimp only at h
  split at h
  · obtain ⟨l, -, hl⟩ := Option.map_eq_some_iff.1 h
    rw [← hl]
    exact Ahead.refl.readSize.freadItem
  · cases h

theorem vocExtended_ahead {fp : Stream} (h : vocExtended s fp = some t) : Ahead fp t.vi.fp := by
  unfold vocExtended at h
  dsimp only at h
  split at h
  · split at h
    · cases h
      exact Ahead.refl.readSize.fgetc.fgetc.getByte.getByte
    · cases h
  · cases h

theorem vocSkip_ahead {fp : Stream} : Ahead fp (vocSkip s fp).vi.fp := Ahead.refl.readSize.seekCur

/-- VOC only goes forward. -/
theorem vocTurn_forward (h : Goes (vocTurn host name) s t) :
    s.vi.fp.pos < s.vi.fp.bytes.length ∧ t.vi.fp.bytes = s.vi.fp.bytes ∧ s.vi.fp.pos < t.vi.fp.pos := by
  obtain ⟨b, hb, -, hcase⟩ := vocTurn_goes h
  obtain ⟨hlt, hpos⟩ := Stream.fgetc_some hb
  have hahead : Ahead s.vi.fp.fgetc.2 t.vi.fp := by
    rcases hcase with ⟨-, rfl⟩ | ⟨-, ht⟩ | ⟨-, ht⟩ | ⟨-, -, rfl⟩
    · exact vocData_ahead
    · exact vocText_ahead ht
    · exact vocExtended_ahead ht
    · exact vocSkip_ahead
  obtain ⟨hbytes, hle⟩ := hahead
  exact ⟨hlt, hbytes, by omega⟩

theorem vocTurn_ne_fuel (s : VocWalk) : vocTurn host name s ≠ .error .fuel := fun h => by cases h

theorem vocTurn_halts : Halts (vocTurn host name) s := by
  refine halts_of_measure (I := fun _ => True) vocTurn_ne_fuel
    (fun s => s.vi.fp.bytes.length - s.vi.fp.pos) trivial fun t u _ htu => ⟨trivial, ?_⟩
  obtain ⟨hlt, hbytes, hpos⟩ := vocTurn_forward htu
  rw [hbytes]
  omega

/-! ### The start of a file -/

theorem chunkStart {order : ByteOrder} {c : Chunk} {f : Stream} {l : List UInt8} {n : Nat}
    (hc : readChunk order ⟨bytes, 0⟩ = (some c, f)) (hl : (f.freadItem n).1 = some l) :
    c.ckID = bytes.take 4 ∧ l = (bytes.drop 8).take n := by
  obtain ⟨-, hf, hid, -⟩ := readChunk_some (congrArg Prod.fst hc)
  rw [hc] at hf
  obtain ⟨hl, -, -, -⟩ := Stream.freadItem_some hl
  rw [show f = _ from hf] at hl
  refine ⟨?_, hl⟩
  rw [hid, List.drop_zero, List.take_take]
  rfl

theorem waveStart_some {s : WaveWalk} (h : waveStart host bytes = some s) :
    bytes.take 4 = riffRiffID ∧ WaveOver bytes s := by
  unfold waveStart at h
  split at h
  · split at h
    · cases h
    · rename_i c fp hc
      split at h
      · rename_i hid
        split at h
        · cases h
        · rename_i l fp' hl
          split at h
          · cases h
            have hbytes : fp'.bytes = bytes := by rw [Stream.freadItem_eq_bytes hl, readChunk_eq_bytes hc]
            exact ⟨by rw [← hid, (chunkStart hc (congrArg Prod.fst hl)).1], hbytes, wrap32_mem _, zero_mem⟩
          · cases h
      · cases h
  · cases h

theorem aiffStart_some {s : AiffWalk} (h : aiffStart host bytes = some s) :
    bytes.take 4 = aiffFormID ∧ (bytes.drop 8).take 4 = aiffAiffID ∧ AiffOver bytes s := by
  unfold aiffStart at h
  split at h
  · split at h
    · cases h
    · rename_i c fp hc
      split at h
      · rename_i hform
        split at h
        · cases h
        · rename_i l fp' hl
          split at h
          · rename_i hid
            cases h
            obtain ⟨hc', hl'⟩ := chunkStart hc (congrArg Prod.fst hl)
            have hbytes : fp'.bytes = bytes := by rw [Stream.freadItem_eq_bytes hl, readChunk_eq_bytes hc]
            exact ⟨by rw [← hform, hc'], by rw [← hid, hl'], hbytes, wrap32_mem _⟩
          · cases h
      · cases h
  · cases h

theorem svxStart_some {s : SvxWalk} (h : svxStart host bytes = some s) :
    bytes.take 4 = svxFormID ∧ (bytes.drop 8).take 4 = svx8svxID ∧ SvxOver bytes s := by
  unfold svxStart at h
  split at h
  · split at h
    · cases h
    · rename_i c fp hc
      split at h
      · rename_i hform
        split at h
        · cases h
        · rename_i l fp' hl
          split at h
          · rename_i hid
            cases h
            obtain ⟨hc', hl'⟩ := chunkStart hc (congrArg Prod.fst hl)
            have hbytes : fp'.bytes = bytes := by rw [Stream.freadItem_eq_bytes hl, readChunk_eq_bytes hc]
            exact ⟨by rw [← hform, hc'], by rw [← hid, hl'], hbytes, wrap32_mem _⟩
          · cases h
      · cases h
  · cases h

theorem vocStart_some (h : vocStart host bytes = some s) : bytes.take 4 = vocID.take 4 := by
  unfold vocStart at h
  split at h
  · split at h
    · cases h
    · rename_i buf fp hbuf
      dsimp only at h
      split at h
      · rename_i hid
        obtain ⟨hbuf, -, -, -⟩ := Stream.freadItem_some (congrArg Prod.fst hbuf)
        rw [← hid.1, hbuf, List.drop_zero, List.take_take]
        rfl
      · cases h
  · cases h

theorem sndOpen_other (h : bytes.take 4 ≠ [0x2e, 0x73, 0x6e, 0x64]) : sndOpenFileForReading host name bytes = .ok none := by
  unfold sndOpenFileForReading
  split
  · split
    · rfl
    · rename_i l fp hl
      split
      · rename_i hmagic
        exfalso
        obtain ⟨hl, -, -, hlen⟩ := Stream.freadItem_some (congrArg Prod.fst hl)
        have hfour : (bytes.take 4).length = 4 := by
          rw [List.length_take]
          exact Nat.min_eq_left (Nat.le_trans (show 4 ≤ 0 + 24 by decide) hlen)
        have hdecode : ByteOrder.big.decode (bytes.take 4) = 0x2e736e64 := by
          rw [← hmagic, hl]
          simp [sndHeader, List.take_take]
        refine h ?_
        rw [← ByteOrder.encode_decode (o := .big) hfour, hdecode]
        decide
      · rfl
  · rfl

/-! ### `SoundOpenFileForReading` -/

theorem openAs_ne_fuel {α : Type} {o : Exec (Option α)} {toSound : α → Exec (Option Sound)} (ho : o ≠ .error .fuel)
    (ht : ∀ p, toSound p ≠ .error .fuel) : openAs o toSound ≠ .error .fuel := by
  intro h
  rcases o with e | (_ | p)
  · cases h
    exact ho rfl
  · cases h
  · rcases hp : toSound p with e | s
    · rw [openAs, Exec.ok_bind] at h
      dsimp only at h
      rw [hp] at h
      cases h
      exact ht p hp
    · rw [openAs, Exec.ok_bind] at h
      dsimp only at h
      rw [hp] at h
      cases h

theorem firstOf_ne_fuel {os : List (Exec (Option (Option Sound)))} (h : ∀ o ∈ os, o ≠ .error .fuel) :
    firstOf os ≠ .error .fuel := by
  induction os with
  | nil =>
    intro he
    cases he
  | cons o os ih =>
    intro he
    rcases o with e | (_ | s)
    · cases he
      exact h _ List.mem_cons_self rfl
    · exact ih (fun o ho => h o (List.mem_cons_of_mem _ ho)) he
    · cases he

theorem sndOpen_ne_fuel : sndOpenFileForReading host name bytes ≠ .error .fuel := by
  unfold sndOpenFileForReading sndComment
  intro h
  split at h
  · split at h
    · cases h
    · split at h
      · rw [Exec.map_eq_error] at h
        dsimp only at h
        split at h
        · split at h
          · split at h
            · cases h
            · split at h <;> cases h
          · cases h
        · cases h
      · cases h
  · cases h

theorem sndToSound_ne_fuel (p : SndInfo) : sndToSound p ≠ .error .fuel := by
  unfold sndToSound
  intro h
  dsimp only at h
  split at h
  · cases h
  · split at h
    · cases h
    · split at h <;> cases h

theorem vocToSound_ne_fuel (p : VocInfo) : vocToSound p ≠ .error .fuel := by
  unfold vocToSound
  intro h
  split at h <;> cases h

theorem walk_ends {σ α : Type} {turn : σ → Exec (Turn σ (Option α))} {start : Option σ}
    (h : ∀ s, start = some s → Halts turn s) : ∃ n, ∀ m, n ≤ m → walk turn m start ≠ .error .fuel := by
  rcases start with _ | s
  · exact ⟨0, fun m _ he => by cases he⟩
  · exact (h s rfl).of_le

theorem walk_circles {σ α : Type} {turn : σ → Exec (Turn σ (Option α))} {s : σ} (h : ¬ Halts turn s) (fuel : Nat) :
    walk turn fuel (some s) = .error .fuel := by
  by_contra hne
  exact h ⟨fuel, hne⟩

/-- From its header on, following the sizes in the file comes to a place where it was before, with as much left. -/
def GoesInCircles (host : Host) (name bytes : List UInt8) : Prop :=
  (∃ s, waveStart host bytes = some s ∧ ComesBack (waveTurn host name) waveKey s) ∨
  (∃ s, aiffStart host bytes = some s ∧ ComesBack (aiffTurn host name) aiffKey s) ∨
  ∃ s, svxStart host bytes = some s ∧ ComesBack (svxTurn host name) svxKey s

theorem readers_end (h : ¬ GoesInCircles host name bytes) : ∃ fuel,
    vocOpenFileForReading host name fuel bytes ≠ .error .fuel ∧ waveOpenFileForReading host name fuel bytes ≠ .error .fuel ∧
      aiffOpenFileForReading host name fuel bytes ≠ .error .fuel ∧
      svxOpenFileForReading host name fuel bytes ≠ .error .fuel := by
  obtain ⟨hwave, haiff, hsvx⟩ := not_or.1 h |>.imp id not_or.1
  obtain ⟨n₁, h₁⟩ := @walk_ends _ _ (vocTurn host name) (vocStart host bytes) fun s _ => vocTurn_halts
  obtain ⟨n₂, h₂⟩ := @walk_ends _ _ (waveTurn host name) (waveStart host bytes) fun s hs => (waveTurn_halts_iff (waveStart_some hs).2).2 fun hback => hwave ⟨s, hs, hback⟩
  obtain ⟨n₃, h₃⟩ := @walk_ends _ _ (aiffTurn host name) (aiffStart host bytes) fun s hs => (aiffTurn_halts_iff (aiffStart_some hs).2.2).2 fun hback => haiff ⟨s, hs, hback⟩
  obtain ⟨n₄, h₄⟩ := @walk_ends _ _ (svxTurn host name) (svxStart host bytes) fun s hs => (svxTurn_halts_iff (svxStart_some hs).2.2).2 fun hback => hsvx ⟨s, hs, hback⟩
  exact ⟨n₁ + n₂ + n₃ + n₄, h₁ _ (by omega), h₂ _ (by omega), h₃ _ (by omega), h₄ _ (by omega)⟩

theorem soundOpen_ends (h : ¬ GoesInCircles host name bytes) :
    ∃ fuel, soundOpenFileForReading host name fuel bytes ≠ .error .fuel := by
  obtain ⟨fuel, hvoc, hwave, haiff, hsvx⟩ := readers_end h
  refine ⟨fuel, ?_⟩
  unfold soundOpenFileForReading
  split
  · refine firstOf_ne_fuel fun o ho => ?_
    simp only [List.mem_cons, List.not_mem_nil, or_false] at ho
    rcases ho with rfl | rfl | rfl | rfl | rfl
    · exact openAs_ne_fuel sndOpen_ne_fuel sndToSound_ne_fuel
    · exact openAs_ne_fuel hvoc vocToSound_ne_fuel
    · exact openAs_ne_fuel hwave fun p h => by cases h
    · exact openAs_ne_fuel haiff fun p h => by cases h
    · exact openAs_ne_fuel hsvx fun p h => by cases h
  · intro h
    cases h

/-- Which readers open a file at all is decided by how it starts. -/
theorem start_none_of_ne {l : List UInt8} (h : bytes.take 4 = l) :
    (l ≠ [0x2e, 0x73, 0x6e, 0x64] → sndOpenFileForReading host name bytes = .ok none) ∧
      (l ≠ vocID.take 4 → vocStart host bytes = none) ∧ (l ≠ riffRiffID → waveStart host bytes = none) := by
  subst h
  refine ⟨sndOpen_other, fun hne => ?_, fun hne => ?_⟩
  · by_contra hs
    obtain ⟨s, hs⟩ := Option.ne_none_iff_exists'.1 hs
    exact hne (vocStart_some hs)
  · by_contra hs
    obtain ⟨s, hs⟩ := Option.ne_none_iff_exists'.1 hs
    exact hne (waveStart_some hs).1

theorem soundOpen_circles (hmem : host.mem 40) (h : GoesInCircles host name bytes) (fuel : Nat) :
    soundOpenFileForReading host name fuel bytes = .error .fuel := by
  rw [soundOpenFileForReading, if_pos hmem]
  rcases h with ⟨s, hs, hback⟩ | ⟨s, hs, hback⟩ | ⟨s, hs, hback⟩
  · have hcircle := walk_circles (hback.not_halts waveTurn_ne_fuel waveTurn_decides) fuel
    obtain ⟨hsnd, hvoc, -⟩ := @start_none_of_ne host name _ _ (waveStart_some hs).1
    rw [hsnd (by decide), vocOpenFileForReading, hvoc (by decide), waveOpenFileForReading, hs, hcircle]
    rfl
  · have hcircle := walk_circles (hback.not_halts aiffTurn_ne_fuel aiffTurn_decides) fuel
    obtain ⟨hsnd, hvoc, hwave⟩ := @start_none_of_ne host name _ _ (aiffStart_some hs).1
    rw [hsnd (by decide), vocOpenFileForReading, hvoc (by decide), waveOpenFileForReading, hwave (by decide),
      aiffOpenFileForReading, hs, hcircle]
    rfl
  · have hcircle := walk_circles (hback.not_halts svxTurn_ne_fuel svxTurn_decides) fuel
    obtain ⟨hsnd, hvoc, hwave⟩ := @start_none_of_ne host name _ _ (svxStart_some hs).1
    have haiff : aiffStart host bytes = none := by
      by_contra ha
      obtain ⟨a, ha⟩ := Option.ne_none_iff_exists'.1 ha
      have hids : aiffAiffID = svx8svxID := (aiffStart_some ha).2.1.symm.trans (svxStart_some hs).2.1
      exact absurd hids (by decide)
    rw [hsnd (by decide), vocOpenFileForReading, hvoc (by decide), waveOpenFileForReading, hwave (by decide),
      aiffOpenFileForReading, haiff, svxOpenFileForReading, hs, hcircle]
    rfl

/-- A host that always has memory. -/
def plainHost : Host where
  mem n := decide (n < 2 ^ 63)
  mem_lt n h := by simpa using h
  junk _ _ := 0
  fromIeeeExtended _ := 0
  toIeeeExtended _ := List.replicate 10 0
  length_toIeeeExtended _ := rfl

/-- A WAVE file with one chunk of size -8. -/
def loopingWave : List UInt8 :=
  riffRiffID ++ [12, 0, 0, 0] ++ riffWaveID ++ fourcc 'J' 'U' 'N' 'K' ++ [0xf8, 0xff, 0xff, 0xff]

/-- In front of that chunk. -/
def loopingWalk : WaveWalk where
  wi := { fp := ⟨loopingWave, 12⟩, fmt := ⟨0, ⟨0, false⟩, ⟨0, false⟩, ⟨0, false⟩⟩ }
  fileSize := 8

end Nas.SoundFile
