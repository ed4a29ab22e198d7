import Nas.SoundTermination

/-!
# Opening a sound file is safe

`Safe` is what opening a file should be: no undefined division, no comment buffer overrun, and a `Sound` only with
fields that were in the file and that make sense (`WellRead`). The readers do not check what they read. What the files
must be like for them to be safe is said about the chunks they go by, in `SndGood`, `VocGood`, `WaveGood`, `AiffGood` and
`SvxGood`.
-/

namespace Nas.SoundFile
open Stdio Turn
variable {host : Host} {name bytes : List UInt8}

/-- A comment that ends. -/
def Terminated (comment : Option (List UInt8)) : Prop := ∀ l, comment = some l → 0 ∈ l

def FormatInfo.dataOffset : FormatInfo → Got Nat
  | .snd p => ⟨p.h.dataOffset, true⟩
  | .voc p => ⟨p.dataOffset, true⟩
  | .wave p => ⟨p.dataOffset, true⟩
  | .aiff p => p.dataOffset
  | .svx p => ⟨p.dataOffset, true⟩

/-- What is reported was in the file, and makes sense. -/
structure WellRead (s : Sound) : Prop where
  dataFormat : s.dataFormat.read
  numTracks : s.numTracks.read
  sampleRate : s.sampleRate.read
  numSamples : s.numSamples.read
  dataOffset : s.formatInfo.dataOffset.read
  known : 1 ≤ s.dataFormat.val ∧ s.dataFormat.val ≤ 7
  tracks : 1 ≤ s.numTracks.val
  bytesPerSample : 1 ≤ sizeofFormat s.dataFormat.val.toNat
  comment : Terminated s.comment

def Safe (r : Exec (Option Sound)) : Prop := r ≠ .error .fault ∧ ∀ s, r = .ok (some s) → WellRead s

/-- One format of the table is safe. -/
def SafeAs (o : Exec (Option (Option Sound))) : Prop := o ≠ .error .fault ∧ ∀ s, o = .ok (some (some s)) → WellRead s

theorem safeAs_none : SafeAs (.ok none) := ⟨fun h => (by cases h), fun s h => (by cases h)⟩

theorem safeAs_openAs_none {α : Type} {toSound : α → Exec (Option Sound)} : SafeAs (openAs (.ok none) toSound) := safeAs_none

theorem safeAs_openAs_some {α : Type} {toSound : α → Exec (Option Sound)} {p : α} :
    SafeAs (openAs (.ok (some p)) toSound) ↔ Safe (toSound p) := by
  unfold SafeAs Safe
  rw [openAs, Exec.ok_bind]
  dsimp only
  rcases toSound p with e | s
  · simp
  · simp [pure, Except.pure]

theorem safeAs_openAs_error {α : Type} {toSound : α → Exec (Option Sound)} {e : Stop} :
    SafeAs (openAs (.error e : Exec (Option α)) toSound) ↔ e ≠ .fault := by
  unfold SafeAs
  rw [openAs, Exec.error_bind]
  simp

/-- At most one format of the table opens a file. -/
theorem safe_firstOf {os : List (Exec (Option (Option Sound)))}
    (h : os.Pairwise fun o o' => o = .ok none ∨ o' = .ok none) : Safe (firstOf os) ↔ ∀ o ∈ os, SafeAs o := by
  induction os with
  | nil => simp [firstOf, Safe]
  | cons o os ih =>
    obtain ⟨hhead, htail⟩ := List.pairwise_cons.1 h
    rw [List.forall_mem_cons]
    rcases ho : o with e | (_ | s)
    · have hall : ∀ o' ∈ os, SafeAs o' := by
        intro o' ho'
        rcases hhead o' ho' with h' | h'
        · rw [ho] at h'
          cases h'
        · rw [h']
          exact safeAs_none
      rw [and_iff_left hall]
      simp [firstOf, Safe, SafeAs]
    · rw [show firstOf (.ok none :: os) = firstOf os from rfl, ih htail]
      exact ⟨fun h => ⟨safeAs_none, h⟩, fun h => h.2⟩
    · have hall : ∀ o' ∈ os, SafeAs o' := by
        intro o' ho'
        rcases hhead o' ho' with h' | h'
        · rw [ho] at h'
          cases h'
        · rw [h']
          exact safeAs_none
      rw [and_iff_left hall]
      simp [firstOf, Safe, SafeAs, pure, Except.pure]

/-- The results of a reader are those of the last turn of its walk. -/
theorem safeAs_walk {σ α : Type} {turn : σ → Exec (Turn σ (Option α))} {start : Option σ}
    {toSound : α → Exec (Option Sound)} : (∀ fuel, SafeAs (openAs (walk turn fuel start) toSound)) ↔
      ∀ s, start = some s → ∀ n t, after turn n s = some t → ∀ r, turn t = Turn.stop <$> r → SafeAs (openAs r toSound) := by
  rcases start with _ | s
  · exact ⟨fun _ s hs => (by cases hs), fun _ fuel => safeAs_openAs_none⟩
  · constructor
    · intro h s' hs' n t ht r hr
      cases hs'
      by_cases hfuel : r = .error .fuel
      · rw [hfuel, safeAs_openAs_error]
        decide
      · obtain ⟨fuel, hloop⟩ := (loop_eq_iff hfuel).2 ⟨n, t, ht, hr⟩
        have := h fuel
        rwa [walk, hloop] at this
    · intro h fuel
      by_cases hfuel : loop turn fuel s = .error .fuel
      · rw [walk, hfuel, safeAs_openAs_error]
        decide
      · obtain ⟨n, t, ht, hr⟩ := (loop_eq_iff hfuel).1 ⟨fuel, rfl⟩
        exact h s rfl n t ht _ hr

theorem stop_map_inj {σ α : Type} {r r' : Exec α} (h : (Turn.stop <$> r : Exec (Turn σ α)) = Turn.stop <$> r') : r = r' := by
  rcases r with e | a <;> rcases r' with e' | a' <;> cases h <;> rfl

theorem fileComment_terminated : Terminated (fileCommentFromFilename host name) := by
  intro l h
  unfold fileCommentFromFilename at h
  generalize (if name = [45] then [] else (name.reverse.takeWhile (· ≠ 47)).reverse) = base at h
  dsimp only at h
  split at h
  · cases h
    exact List.mem_append_right _ (List.mem_singleton.2 rfl)
  · cases h

theorem terminated_or_fileComment {comment : Option (List UInt8)} :
    Terminated (comment <|> fileCommentFromFilename host name) ↔ Terminated comment := by
  rcases comment with _ | l
  · exact ⟨fun _ l h => (by cases h), fun _ => fileComment_terminated⟩
  · exact Iff.rfl

/-! ### WAVE -/

/-- The format chunk at the position of a walk. -/
def waveFmtAt (host : Host) (s : WaveWalk) : Option WaveFmt :=
  match readChunk .little s.wi.fp with
  | (some ck, fp) =>
    if s.info = 0 ∧ ck.ckID = riffWaveFmtID ∧ s.wi.fmt.format = 0 then some (waveFmt host fp).1 else none
  | (none, _) => none

/-- The offset of the data chunk at the position of a walk. -/
def waveDataAt (s : WaveWalk) : Option Nat :=
  match readChunk .little s.wi.fp with
  | (some ck, fp) =>
    if s.info = 0 ∧ ck.ckID = riffWaveDataID ∧ s.wi.dataOffset = 0 then some (asUint32 (fp.pos % 2 ^ 32 - 8)) else none
  | (none, _) => none

/-- The comment at the position of a walk. -/
def waveCommentAt (s : WaveWalk) : Option (List UInt8) :=
  match readChunk .little s.wi.fp with
  | (some c, fp) => if s.info ≠ 0 ∧ c.ckID = riffInfoIcmtID then (fp.freadItem (asSize c.ckSize)).1 else none
  | (none, _) => none

theorem waveData_dataOffset {ckSize : Int} {wi : WaveInfo} :
    (waveData ckSize wi).dataOffset = asUint32 (wi.fp.pos % 2 ^ 32 - 8) := by
  unfold waveData
  dsimp only
  split <;> rfl

@[simp] theorem waveData_comment {ckSize : Int} {wi : WaveInfo} : (waveData ckSize wi).comment = wi.comment := by
  unfold waveData
  dsimp only
  split <;> rfl

theorem waveInfoTurn_next {s t : WaveWalk} (hinfo : s.info ≠ 0) (h : waveInfoTurn host s = .next t) :
    t.wi.fmt = s.wi.fmt ∧ t.wi.dataOffset = s.wi.dataOffset ∧ t.wi.comment = (waveCommentAt s <|> s.wi.comment) := by
  unfold waveInfoTurn at h
  unfold waveCommentAt
  split at h
  · cases h
  · rename_i c fp hc
    rw [hc]
    dsimp only at h ⊢
    split at h
    · rename_i hid
      rw [if_pos ⟨hinfo, hid⟩]
      split at h
      · split at h
        · cases h
        · rename_i l fp' hl
          cases h
          refine ⟨rfl, rfl, ?_⟩
          rw [hl]
          rfl
      · cases h
    · rename_i hid
      rw [if_neg fun h => hid h.2]
      cases h
      exact ⟨rfl, rfl, rfl⟩

theorem waveChunkTurn_next {s t : WaveWalk} (hinfo : s.info = 0) (h : waveChunkTurn host s = .next t) :
    t.wi.fmt = (waveFmtAt host s).getD s.wi.fmt ∧ t.wi.dataOffset = (waveDataAt s).getD s.wi.dataOffset ∧
      t.wi.comment = s.wi.comment := by
  unfold waveChunkTurn at h
  unfold waveFmtAt waveDataAt
  split at h
  · cases h
  · rename_i c fp hc
    rw [hc]
    dsimp only at h ⊢
    split at h
    · rename_i hid
      rw [if_neg fun h => absurd (hid.symm.trans h.2.1) (by decide),
        if_neg fun h => absurd (hid.symm.trans h.2.1) (by decide)]
      split at h
      · cases h
      · split at h <;> cases h <;> exact ⟨rfl, rfl, rfl⟩
    · split at h
      · rename_i hid
        rw [if_pos ⟨hinfo, hid⟩, if_neg fun h => absurd (hid.1.symm.trans h.2.1) (by decide)]
        split at h
        · cases h
          exact ⟨rfl, rfl, rfl⟩
        · cases h
      · rename_i hfmt
        rw [if_neg fun h => hfmt h.2]
        split at h
        · rename_i hid
          rw [if_pos ⟨hinfo, hid⟩]
          cases h
          exact ⟨waveData_fmt, waveData_dataOffset, waveData_comment⟩
        · rename_i hdata
          rw [if_neg fun h => hdata h.2]
          cases h
          exact ⟨rfl, rfl, rfl⟩

theorem waveInfo_puts_nothing {s : WaveWalk} (hinfo : s.info ≠ 0) : waveFmtAt host s = none ∧ waveDataAt s = none := by
  unfold waveFmtAt waveDataAt
  split
  · exact ⟨if_neg fun h => hinfo h.1, if_neg fun h => hinfo h.1⟩
  · exact ⟨rfl, rfl⟩

theorem waveChunk_no_comment {s : WaveWalk} (hinfo : s.info = 0) : waveCommentAt s = none := by
  unfold waveCommentAt
  split
  · exact if_neg fun h => h.1 hinfo
  · rfl

theorem some_getD_orElse {α : Type} (x : Option α) (a : α) : some (x.getD a) = (x <|> some a) := by
  rcases x with _ | b <;> rfl

/-- What one turn leaves in the record. -/
theorem waveTurn_puts {s t : WaveWalk} (h : Goes (waveTurn host name) s t) :
    some t.wi.fmt = (waveFmtAt host s <|> some s.wi.fmt) ∧
      some t.wi.dataOffset = (waveDataAt s <|> some s.wi.dataOffset) ∧
      t.wi.comment = (waveCommentAt s <|> s.wi.comment) := by
  unfold Goes waveTurn at h
  split at h
  · rename_i hinfo
    obtain ⟨hfmt, hdata, hcomment⟩ := waveInfoTurn_next hinfo (Except.ok.inj h)
    obtain ⟨hno, hno'⟩ := @waveInfo_puts_nothing host _ hinfo
    rw [hno, hno', hfmt, hdata]
    exact ⟨rfl, rfl, hcomment⟩
  · rename_i hinfo
    split at h
    · obtain ⟨hfmt, hdata, hcomment⟩ := waveChunkTurn_next (not_not.1 hinfo) (Except.ok.inj h)
      rw [waveChunk_no_comment (not_not.1 hinfo), hfmt, hdata, some_getD_orElse, some_getD_orElse]
      exact ⟨rfl, rfl, hcomment⟩
    · obtain ⟨r, -, hr⟩ := Exec.map_eq_ok.1 h
      cases hr

/-- A complete format chunk of a known format. -/
structure WaveFmt.Good (fmt : WaveFmt) : Prop where
  channels_read : fmt.channels.read
  sampleRate_read : fmt.sampleRate.read
  bitsPerSample_read : fmt.bitsPerSample.read
  channels : 1 ≤ fmt.channels.val
  bitsPerSample : fmt.bitsPerSample.val = 8 ∨ fmt.bitsPerSample.val = 16

theorem bitsToSoundFormat_known {x y b : Int} (hx : 1 ≤ x ∧ x ≤ 7) (hy : 1 ≤ y ∧ y ≤ 7) :
    (1 ≤ bitsToSoundFormat x y b ∧ bitsToSoundFormat x y b ≤ 7) ↔ b = 8 ∨ b = 16 := by
  unfold bitsToSoundFormat
  split
  · simp [*]
  · split
    · simp [*]
    · simp [*]

theorem sizeofFormat_pos {x : Int} (hx : 1 ≤ x ∧ x ≤ 7) : 1 ≤ sizeofFormat x.toNat := by
  obtain ⟨n, rfl⟩ := Int.eq_ofNat_of_zero_le (Int.le_trans (by decide) hx.1)
  obtain ⟨h₁, h₂⟩ := hx
  rw [Int.toNat_natCast]
  have h₁ : 1 ≤ n := by exact_mod_cast h₁
  have h₂ : n ≤ 7 := by exact_mod_cast h₂
  exact (by decide : ∀ n < 8, 1 ≤ n → 1 ≤ sizeofFormat n) n (by omega) h₁

theorem samples_eq_ok {dataSize : Nat} {channels bits : Got Int} {r : Got Nat} (h : samples dataSize channels bits = .ok r) :
    channels.val ≠ 0 ∧ bits.val / 8 ≠ 0 ∧ r.read = (channels.read && bits.read) := by
  unfold samples at h
  split at h
  · cases h
  · rename_i hne
    cases h
    exact ⟨fun h => hne (.inl h), fun h => hne (.inr h), rfl⟩

theorem samples_eq_error {dataSize : Nat} {channels bits : Got Int} {e : Stop}
    (h : samples dataSize channels bits = .error e) : e = .fault ∧ (channels.val = 0 ∨ bits.val / 8 = 0) := by
  unfold samples at h
  split at h
  · rename_i h0
    cases h
    exact ⟨rfl, h0⟩
  · cases h

theorem waveFinish_safe {wi : WaveInfo} : SafeAs (openAs (waveFinish host name wi) waveToSound) ↔
    (wi.dataOffset ≠ 0 → wi.fmt.Good ∧ Terminated wi.comment) := by
  unfold waveFinish
  split
  · rename_i h0
    exact ⟨fun _ h => absurd h0 h, fun _ => safeAs_none⟩
  · rename_i h0
    rw [imp_iff_right h0]
    rcases hs : samples wi.dataSize wi.fmt.channels wi.fmt.bitsPerSample with e | r
    · obtain ⟨rfl, h0⟩ := samples_eq_error hs
      rw [Exec.error_bind, safeAs_openAs_error]
      refine ⟨fun h => absurd rfl h, fun h => ?_⟩
      have hchannels := h.1.channels
      have hbits := h.1.bitsPerSample
      omega
    · obtain ⟨-, -, hread⟩ := samples_eq_ok hs
      rw [Exec.ok_bind, show ∀ x : Option WaveInfo, (pure x : Exec _) = .ok x from fun _ => rfl, safeAs_openAs_some]
      constructor
      · intro h
        have hsafe := h.2 _ rfl
        exact ⟨⟨hsafe.numTracks, hsafe.sampleRate, hsafe.dataFormat, hsafe.tracks,
          (bitsToSoundFormat_known (by decide) (by decide)).1 hsafe.known⟩, terminated_or_fileComment.1 hsafe.comment⟩
      · rintro ⟨hfmt, hcomment⟩
        refine ⟨fun h => (by cases h), fun s h => ?_⟩
        cases h
        have hknown := (bitsToSoundFormat_known (x := 2) (y := 6) (by decide) (by decide)).2 hfmt.bitsPerSample
        exact {
          dataFormat := hfmt.bitsPerSample_read, numTracks := hfmt.channels_read, sampleRate := hfmt.sampleRate_read
          numSamples := by
            change r.read = true
            rw [hread, hfmt.channels_read, hfmt.bitsPerSample_read]
            rfl
          dataOffset := rfl, known := hknown, tracks := hfmt.channels, bytesPerSample := sizeofFormat_pos hknown
          comment := terminated_or_fileComment.2 hcomment }

/-- The file has no data chunk, or it has a format chunk and the comment ends. -/
def WaveGood (host : Host) (name bytes : List UInt8) : Prop :=
  ∀ s, waveStart host bytes = some s → ∀ n t, after (waveTurn host name) n s = some t → t.info = 0 → t.fileSize < 8 →
    (lastPut waveDataAt (visited (waveTurn host name) n s)).getD 0 ≠ 0 →
      (∃ fmt, lastPut (waveFmtAt host) (visited (waveTurn host name) n s) = some fmt ∧ fmt.Good) ∧
        Terminated (lastPut waveCommentAt (visited (waveTurn host name) n s))

theorem waveStart_fields {s : WaveWalk} (h : waveStart host bytes = some s) :
    s.wi.dataOffset = 0 ∧ s.wi.comment = none ∧ ¬ s.wi.fmt.Good := by
  unfold waveStart at h
  split at h
  · split at h
    · cases h
    · split at h
      · split at h
        · cases h
        · split at h
          · cases h
            exact ⟨rfl, rfl, fun h => by cases h.channels_read⟩
          · cases h
      · cases h
  · cases h

theorem waveInfoTurn_stop {s : WaveWalk} {r : Option WaveInfo} (h : waveInfoTurn host s = .stop r) : r = none := by
  unfold waveInfoTurn at h
  split at h
  · cases h
    rfl
  · dsimp only at h
    split at h
    · split at h
      · split at h
        · cases h
          rfl
        · cases h
      · cases h
        rfl
    · cases h

theorem waveChunkTurn_stop {s : WaveWalk} {r : Option WaveInfo} (h : waveChunkTurn host s = .stop r) : r = none := by
  unfold waveChunkTurn at h
  split at h
  · cases h
    rfl
  · dsimp only at h
    split at h
    · split at h
      · cases h
        rfl
      · split at h <;> cases h
    · split at h
      · split at h
        · cases h
        · cases h
          rfl
      · split at h <;> cases h

theorem waveTurn_end {s : WaveWalk} : (∀ r, waveTurn host name s = Turn.stop <$> r → SafeAs (openAs r waveToSound)) ↔
    (s.info = 0 → s.fileSize < 8 → SafeAs (openAs (waveFinish host name s.wi) waveToSound)) := by
  constructor
  · intro h hinfo hsize
    exact h _ (by rw [waveTurn, if_neg (not_not.2 hinfo), if_neg (by omega)])
  · intro h r hr
    unfold waveTurn at hr
    split at hr
    · obtain ⟨a, rfl, ha⟩ := Exec.map_eq_ok.1 hr.symm
      rw [waveInfoTurn_stop ha.symm]
      exact safeAs_openAs_none
    · rename_i hinfo
      split at hr
      · obtain ⟨a, rfl, ha⟩ := Exec.map_eq_ok.1 hr.symm
        rw [waveChunkTurn_stop ha.symm]
        exact safeAs_openAs_none
      · rename_i hsize
        rw [← stop_map_inj hr]
        exact h (not_not.1 hinfo) (by omega)

theorem orElse_none' {α : Type} (x : Option α) : (x <|> none) = x := by
  rcases x with _ | a <;> rfl

theorem getD_of_orElse {α : Type} {x : Option α} {a b : α} (h : some a = (x <|> some b)) : a = x.getD b := by
  rcases x with _ | c <;> cases h <;> rfl

/-- A good value is one that was put there, if the first one is not good. -/
theorem good_iff_put {α : Type} {P : α → Prop} {x : Option α} {a b : α} (h : some a = (x <|> some b)) (hb : ¬ P b) :
    P a ↔ ∃ c, x = some c ∧ P c := by
  rcases x with _ | c
  · cases h
    simp [hb]
  · cases h
    simp

theorem waveOpen_safe_iff :
    (∀ fuel, SafeAs (openAs (waveOpenFileForReading host name fuel bytes) waveToSound)) ↔ WaveGood host name bytes := by
  unfold waveOpenFileForReading
  rw [safeAs_walk]
  refine forall₂_congr fun s hs => forall₂_congr fun n t => forall_congr' fun ht => ?_
  obtain ⟨hoffset, hnone, hbad⟩ := waveStart_fields hs
  have hfmt := @after_lastPut _ _ _ _ _ _ _ (fun s => some s.wi.fmt) _ (fun t u htu => (waveTurn_puts htu).1) ht
  have hdata := @after_lastPut _ _ _ _ _ _ _ (fun s => some s.wi.dataOffset) _ (fun t u htu => (waveTurn_puts htu).2.1) ht
  have hcomment := @after_lastPut _ _ _ _ _ _ _ (fun s => s.wi.comment) _ (fun t u htu => (waveTurn_puts htu).2.2) ht
  rw [hnone, orElse_none'] at hcomment
  rw [waveTurn_end, waveFinish_safe, getD_of_orElse hdata, good_iff_put hfmt hbad, hcomment, hoffset]

/-! ### AIFF -/

/-- The common chunk at the position of a walk. -/
def aiffCommonAt (host : Host) (s : AiffWalk) : Option AiffCommon :=
  match readChunk .big s.ai.fp with
  | (some ck, fp) => if ck.ckID = aiffCommonID then (aiffCommon host fp).1 else none
  | (none, _) => none

/-- The data's offset by the sound data chunk at the position of a walk. -/
def aiffOffsetAt (host : Host) (s : AiffWalk) : Option (Got Nat) :=
  match readChunk .big s.ai.fp with
  | (some ck, fp) =>
    let offset := fp.fileReadL host .big 13
    let blockSize := offset.2.fileReadL host .big 14
    if ck.ckID = aiffSoundDataID then some (offset.1.map fun n : Nat => asUint32 (blockSize.2.pos - 24 + wrap32 n))
    else none
  | (none, _) => none

/-- The first comment of the comment chunk at the position of a walk. -/
def aiffCommentAt (host : Host) (s : AiffWalk) : Option (List UInt8) :=
  match readChunk .big s.ai.fp with
  | (some ck, fp) =>
    let numComments := fp.fileReadS host .big 15
    let timeStamp := numComments.2.fileReadL host .big 16
    let marker := timeStamp.2.fileReadS host .big 17
    let count := marker.2.fileReadS host .big 18
    if ck.ckID = aiffCommentID ∧ numComments.1.val ≠ 0 then (count.2.freadItem count.1.val).1 else none
  | (none, _) => none

theorem freadItem_zero {f : Stream} : (f.freadItem 0).1 = none := by
  simp [Stream.freadItem]

theorem aiffComment_some {ckSize : Int} {ai ai' : AiffInfo} (h : aiffComment host ckSize ai = some ai') :
    ai'.common = ai.common ∧ ai'.dataOffset = ai.dataOffset ∧
      ai'.comment = ((if (ai.fp.fileReadS host .big 15).1.val ≠ 0 then
        let timeStamp := (ai.fp.fileReadS host .big 15).2.fileReadL host .big 16
        let marker := timeStamp.2.fileReadS host .big 17
        let count := marker.2.fileReadS host .big 18
        (count.2.freadItem count.1.val).1 else none) <|> ai.comment) := by
  unfold aiffComment at h
  dsimp only at h ⊢
  split at h
  · rename_i hnum
    rw [if_pos hnum]
    split at h
    · split at h
      · split at h
        · cases h
        · rename_i l fp hl
          cases h
          refine ⟨rfl, rfl, ?_⟩
          rw [hl]
          rfl
      · cases h
    · rename_i hcount
      cases h
      refine ⟨rfl, rfl, ?_⟩
      rw [not_not.1 hcount, freadItem_zero]
      rfl
  · rename_i hnum
    cases h
    rw [if_neg hnum]
    exact ⟨rfl, rfl, rfl⟩

theorem aiffTurn_puts {s t : AiffWalk} (h : Goes (aiffTurn host name) s t) :
    some t.ai.common = (aiffCommonAt host s <|> some s.ai.common) ∧
      some t.ai.dataOffset = (aiffOffsetAt host s <|> some s.ai.dataOffset) ∧
      t.ai.comment = (aiffCommentAt host s <|> s.ai.comment) := by
  unfold Goes aiffTurn at h
  split at h
  · have h := Except.ok.inj h
    unfold aiffChunkTurn at h
    unfold aiffCommonAt aiffOffsetAt aiffCommentAt
    split at h
    · cases h
    · rename_i c fp hc
      rw [hc]
      dsimp only at h ⊢
      split at h
      · rename_i hid
        rw [if_pos hid, if_neg fun h => absurd (hid.symm.trans h) (by decide),
          if_neg fun h => absurd (hid.symm.trans h.1) (by decide)]
        split at h
        · cases h
        · rename_i common fp' hcommon
          cases h
          rw [hcommon]
          exact ⟨rfl, rfl, rfl⟩
      · rename_i hcommon
        rw [if_neg hcommon]
        split at h
        · rename_i hid
          rw [if_pos hid, if_neg fun h => absurd (hid.symm.trans h.1) (by decide)]
          cases h
          exact ⟨rfl, rfl, rfl⟩
        · rename_i hdata
          rw [if_neg hdata]
          split at h
          · rename_i hid
            split at h
            · cases h
            · rename_i ai hai
              cases h
              obtain ⟨h₁, h₂, h₃⟩ := aiffComment_some hai
              refine ⟨congrArg some h₁, congrArg some h₂, ?_⟩
              rw [h₃]
              by_cases hnum : (fp.fileReadS host .big 15).1.val ≠ 0
              · rw [if_pos hnum, if_pos ⟨hid, hnum⟩]
              · rw [if_neg hnum, if_neg fun h => hnum h.2]
          · rename_i hcomment
            rw [if_neg fun h => hcomment h.1]
            cases h
            exact ⟨rfl, rfl, rfl⟩
  · obtain ⟨r, -, hr⟩ := Exec.map_eq_ok.1 h
    cases hr

/-- A complete common chunk of a known format. -/
structure AiffCommon.Good (common : AiffCommon) : Prop where
  channels_read : common.channels.read
  sampleRate_read : common.sampleRate.read
  bitsPerSample_read : common.bitsPerSample.read
  channels : 1 ≤ common.channels.val
  bitsPerSample : common.bitsPerSample.val = 8 ∨ common.bitsPerSample.val = 16

theorem aiffFinish_safe {ai : AiffInfo} : SafeAs (openAs (aiffFinish host name ai) aiffToSound) ↔
    (ai.dataOffset.val ≠ 0 → ai.dataOffset.read ∧ ai.common.Good ∧ Terminated ai.comment) := by
  unfold aiffFinish
  split
  · rename_i h0
    exact ⟨fun _ h => absurd h0 h, fun _ => safeAs_none⟩
  · rename_i h0
    rw [imp_iff_right h0]
    rcases hs : samples ai.dataSize ai.common.channels ai.common.bitsPerSample with e | r
    · obtain ⟨rfl, h0⟩ := samples_eq_error hs
      rw [Exec.error_bind, safeAs_openAs_error]
      refine ⟨fun h => absurd rfl h, fun h => ?_⟩
      have hchannels := h.2.1.channels
      have hbits := h.2.1.bitsPerSample
      omega
    · obtain ⟨-, -, hread⟩ := samples_eq_ok hs
      rw [Exec.ok_bind, show ∀ x : Option AiffInfo, (pure x : Exec _) = .ok x from fun _ => rfl, safeAs_openAs_some]
      constructor
      · intro h
        have hsafe := h.2 _ rfl
        exact ⟨hsafe.dataOffset, ⟨hsafe.numTracks, hsafe.sampleRate, hsafe.dataFormat, hsafe.tracks,
          (bitsToSoundFormat_known (by decide) (by decide)).1 hsafe.known⟩, terminated_or_fileComment.1 hsafe.comment⟩
      · rintro ⟨hoffset, hcommon, hcomment⟩
        refine ⟨fun h => (by cases h), fun s h => ?_⟩
        cases h
        have hknown := (bitsToSoundFormat_known (x := 3) (y := 4) (by decide) (by decide)).2 hcommon.bitsPerSample
        exact {
          dataFormat := hcommon.bitsPerSample_read, numTracks := hcommon.channels_read
          sampleRate := hcommon.sampleRate_read
          numSamples := by
            change r.read = true
            rw [hread, hcommon.channels_read, hcommon.bitsPerSample_read]
            rfl
          dataOffset := hoffset, known := hknown, tracks := hcommon.channels, bytesPerSample := sizeofFormat_pos hknown
          comment := terminated_or_fileComment.2 hcomment }

/-- The file has no sound data chunk, or that chunk and a common chunk are complete and the comment ends. -/
def AiffGood (host : Host) (name bytes : List UInt8) : Prop :=
  ∀ s, aiffStart host bytes = some s → ∀ n t, after (aiffTurn host name) n s = some t → ¬ MoreChunks t.fileSize →
    ∀ offset, lastPut (aiffOffsetAt host) (visited (aiffTurn host name) n s) = some offset → offset.val ≠ 0 →
      offset.read ∧
        (∃ common, lastPut (aiffCommonAt host) (visited (aiffTurn host name) n s) = some common ∧ common.Good) ∧
        Terminated (lastPut (aiffCommentAt host) (visited (aiffTurn host name) n s))

theorem aiffStart_fields {s : AiffWalk} (h : aiffStart host bytes = some s) :
    s.ai.dataOffset = ⟨0, false⟩ ∧ s.ai.comment = none ∧ ¬ s.ai.common.Good := by
  unfold aiffStart at h
  split at h
  · split at h
    · cases h
    · split at h
      · split at h
        · cases h
        · split at h
          · cases h
            exact ⟨rfl, rfl, fun h => by cases h.channels_read⟩
          · cases h
      · cases h
  · cases h

theorem aiffChunkTurn_stop {s : AiffWalk} {r : Option AiffInfo} (h : aiffChunkTurn host s = .stop r) : r = none := by
  unfold aiffChunkTurn at h
  split at h
  · cases h
    rfl
  · dsimp only at h
    split at h
    · split at h
      · cases h
        rfl
      · cases h
    · split at h
      · cases h
      · split at h
        · split at h
          · cases h
            rfl
          · cases h
        · cases h

theorem aiffTurn_end {s : AiffWalk} : (∀ r, aiffTurn host name s = Turn.stop <$> r → SafeAs (openAs r aiffToSound)) ↔
    (¬ MoreChunks s.fileSize → SafeAs (openAs (aiffFinish host name s.ai) aiffToSound)) := by
  constructor
  · intro h hsize
    exact h _ (by rw [aiffTurn, if_neg hsize])
  · intro h r hr
    unfold aiffTurn at hr
    split at hr
    · obtain ⟨a, rfl, ha⟩ := Exec.map_eq_ok.1 hr.symm
      rw [aiffChunkTurn_stop ha.symm]
      exact safeAs_openAs_none
    · rename_i hsize
      rw [← stop_map_inj hr]
      exact h hsize

theorem aiffOpen_safe_iff :
    (∀ fuel, SafeAs (openAs (aiffOpenFileForReading host name fuel bytes) aiffToSound)) ↔ AiffGood host name bytes := by
  unfold aiffOpenFileForReading
  rw [safeAs_walk]
  refine forall₂_congr fun s hs => forall₂_congr fun n t => forall_congr' fun ht => ?_
  obtain ⟨hoffset, hnone, hbad⟩ := aiffStart_fields hs
  have hcommon := @after_lastPut _ _ _ _ _ _ _ (fun s => some s.ai.common) _ (fun t u htu => (aiffTurn_puts htu).1) ht
  have hdata := @after_lastPut _ _ _ _ _ _ _ (fun s => some s.ai.dataOffset) _ (fun t u htu => (aiffTurn_puts htu).2.1) ht
  have hcomment := @after_lastPut _ _ _ _ _ _ _ (fun s => s.ai.comment) _ (fun t u htu => (aiffTurn_puts htu).2.2) ht
  rw [hnone, orElse_none'] at hcomment
  rw [aiffTurn_end, aiffFinish_safe, good_iff_put hcommon hbad, hcomment, getD_of_orElse hdata, hoffset]
  refine imp_congr_right fun _ => ?_
  rcases lastPut (aiffOffsetAt host) (visited (aiffTurn host name) n s) with _ | offset
  · exact ⟨fun _ _ h => (by cases h), fun _ h => absurd rfl h⟩
  · exact ⟨fun h _ ho hne => by cases ho; exact h hne, fun h hne => h offset rfl hne⟩

/-! ### 8SVX -/

/-- The sample rate by the voice header at the position of a walk. -/
def svxRateAt (host : Host) (s : SvxWalk) : Option (Got Int) :=
  match readChunk .big s.si.fp with
  | (some ck, fp) => if ck.ckID = svxVhdrID then (svxVhdr host fp).map (·.1) else none
  | (none, _) => none

/-- The data's offset by the body chunk at the position of a walk. -/
def svxOffsetAt (s : SvxWalk) : Option Nat :=
  match readChunk .big s.si.fp with
  | (some ck, fp) => if ck.ckID = svxBodyID then some (fp.pos % 2 ^ 32) else none
  | (none, _) => none

/-- A name chunk of size -1, with something behind it. -/
def NameOverrun (host : Host) (s : SvxWalk) : Prop :=
  ∃ ck, (readChunk .big s.si.fp).1 = some ck ∧ ck.ckID = svxNameID ∧ ck.ckSize = -1 ∧ host.mem 0 ∧
    s.si.fp.pos + 8 < s.si.fp.bytes.length

theorem asSize_of_nonneg {x : Int} (h : 0 ≤ x) (hx : x < 2 ^ 64) : (asSize x : Int) = x := by
  unfold asSize
  rw [Int.emod_eq_of_lt h hx, Int.toNat_of_nonneg h]

theorem asSize_of_neg {x : Int} (h : x < 0) (hx : -2 ^ 64 ≤ x) : (asSize x : Int) = x + 2 ^ 64 := by
  unfold asSize
  rw [← Int.add_emod_right, Int.emod_eq_of_lt (by omega) (by omega), Int.toNat_of_nonneg (by omega)]

theorem wrap32_succ {x : Int} (hx : x ∈ int32) : wrap32 (x + 1) = x + 1 ∨ wrap32 (x + 1) < 0 := by
  obtain ⟨hlo, hhi⟩ := hx
  by_cases htop : x = 2 ^ 31 - 1
  · rw [htop]
    exact .inr (by decide)
  · exact .inl (wrap32_eq (by omega) (by omega))

/-- A buffer of `x + 1` bytes is too small for `x` bytes only if `x` is -1. -/
theorem overrun_iff {x : Int} (hx : x ∈ int32) {rest : Nat} :
    (host.mem (asSize (wrap32 (x + 1))) ∧ asSize (wrap32 (x + 1)) < min (asSize x) rest) ↔
      x = -1 ∧ host.mem 0 ∧ 0 < rest := by
  constructor
  · rintro ⟨hmem, hlt⟩
    have hsize := host.mem_lt _ hmem
    have hle : asSize (wrap32 (x + 1)) < asSize x := Nat.lt_of_lt_of_le hlt (Nat.min_le_left _ _)
    have hrest : 0 < rest := Nat.lt_of_le_of_lt (Nat.zero_le _) (Nat.lt_of_lt_of_le hlt (Nat.min_le_right _ _))
    obtain ⟨hlo, hhi⟩ := hx
    have hb := wrap32_bounds (x + 1)
    by_cases hneg : wrap32 (x + 1) < 0
    · have := asSize_of_neg hneg (by omega)
      omega
    · have heq := (wrap32_succ ⟨hlo, hhi⟩).resolve_right hneg
      have h₁ := asSize_of_nonneg (Int.not_lt.1 hneg) (by omega)
      by_cases hx : x < 0
      · obtain rfl : x = -1 := by omega
        exact ⟨rfl, hmem, hrest⟩
      · have h₂ := asSize_of_nonneg (Int.not_lt.1 hx) (by omega)
        omega
  · rintro ⟨rfl, hmem, hrest⟩
    refine ⟨hmem, ?_⟩
    exact Nat.lt_min.2 ⟨by decide, hrest⟩

theorem svxName_error {ckSize : Int} {fp : Stream} {e : Stop} (hsize : ckSize ∈ int32) :
    svxName host ckSize fp = .error e ↔ e = .fault ∧ ckSize = -1 ∧ host.mem 0 ∧ fp.pos < fp.bytes.length := by
  have hlen : (fp.fread (asSize ckSize)).1.length = min (asSize ckSize) (fp.bytes.length - fp.pos) := by
    simp [Stream.fread]
  have hover := @overrun_iff host _ hsize (fp.bytes.length - fp.pos)
  rw [Nat.sub_pos_iff_lt] at hover
  unfold svxName freadInto
  rw [hlen]
  dsimp only
  split
  · rename_i hmem
    split
    · rename_i hlt
      rw [Exec.error_bind]
      exact ⟨fun h => ⟨by cases h; rfl, hover.1 ⟨hmem, hlt⟩⟩, fun h => by rw [h.1]⟩
    · rename_i hlt
      exact ⟨fun h => (by cases h), fun h => absurd (hover.2 h.2).2 hlt⟩
  · rename_i hmem
    exact ⟨fun h => (by cases h), fun h => absurd (hover.2 h.2).1 hmem⟩

theorem svxName_terminated {ckSize : Int} {fp fp' : Stream} {l : List UInt8}
    (h : svxName host ckSize fp = .ok (some (l, fp'))) : 0 ∈ l := by
  unfold svxName at h
  dsimp only at h
  split at h
  · obtain ⟨r, -, hr⟩ := Exec.bind_eq_ok.1 h
    obtain ⟨l', -, hl'⟩ := Option.map_eq_some_iff.1 (Except.ok.inj hr)
    cases hl'
    exact List.mem_append_right _ (List.mem_singleton.2 rfl)
  · cases h

theorem svxTurn_puts {s t : SvxWalk} (h : Goes (svxTurn host name) s t) :
    some t.si.sampleRate = (svxRateAt host s <|> some s.si.sampleRate) ∧
      some t.si.dataOffset = (svxOffsetAt s <|> some s.si.dataOffset) ∧
      (Terminated s.si.comment → Terminated t.si.comment) := by
  unfold Goes svxTurn at h
  split at h
  · unfold svxChunkTurn at h
    unfold svxRateAt svxOffsetAt
    split at h
    · cases h
    · rename_i c fp hc
      rw [hc]
      dsimp only at h ⊢
      split at h
      · rename_i hid
        rw [if_pos hid, if_neg fun h => absurd (hid.symm.trans h) (by decide)]
        split at h
        · cases h
        · rename_i rate fp' hvhdr
          cases h
          rw [hvhdr]
          exact ⟨rfl, rfl, id⟩
      · rename_i hvhdr
        rw [if_neg hvhdr]
        split at h
        · rename_i hid
          rw [if_pos hid]
          cases h
          exact ⟨rfl, rfl, id⟩
        · rename_i hbody
          rw [if_neg hbody]
          split at h
          · obtain ⟨r, hname, hr⟩ := Exec.bind_eq_ok.1 h
            rcases r with _ | ⟨l, fp'⟩
            · cases hr
            · cases hr
              refine ⟨rfl, rfl, fun _ l' hl' => ?_⟩
              cases hl'
              exact svxName_terminated hname
          · cases h
            exact ⟨rfl, rfl, id⟩
  · cases h

theorem svxChunkTurn_stop {s : SvxWalk} {r : Option SvxInfo} (h : svxChunkTurn host s = .ok (.stop r)) : r = none := by
  unfold svxChunkTurn at h
  split at h
  · cases h
    rfl
  · dsimp only at h
    split at h
    · split at h
      · cases h
        rfl
      · cases h
    · split at h
      · cases h
      · split at h
        · obtain ⟨x, -, hx⟩ := Exec.bind_eq_ok.1 h
          rcases x with _ | ⟨l, fp⟩
          · cases hx
            rfl
          · cases hx
        · cases h

theorem svxChunkTurn_error {s : SvxWalk} {e : Stop} :
    svxChunkTurn host s = .error e ↔ e = .fault ∧ NameOverrun host s := by
  unfold svxChunkTurn NameOverrun
  split
  · rename_i hc
    rw [hc]
    exact ⟨fun h => (by cases h), fun ⟨_, _, h, _⟩ => (by cases h)⟩
  · rename_i c fp hc
    obtain ⟨-, hfp, -, hsize⟩ := readChunk_some (congrArg Prod.fst hc)
    rw [hc] at hfp ⊢
    have hfp : fp = { s.si.fp with pos := s.si.fp.pos + 8 } := hfp
    have hname := @svxName_error host _ fp e (hsize ▸ wrap32_mem _)
    have honly : (∃ ck, (some c, fp).1 = some ck ∧ ck.ckID = svxNameID ∧ ck.ckSize = -1 ∧ host.mem 0 ∧
        s.si.fp.pos + 8 < s.si.fp.bytes.length) ↔
        c.ckID = svxNameID ∧ c.ckSize = -1 ∧ host.mem 0 ∧ fp.pos < fp.bytes.length := by
      rw [hfp]
      exact ⟨fun ⟨_, h, h'⟩ => by cases h; exact h', fun h => ⟨c, rfl, h⟩⟩
    rw [honly]
    dsimp only
    split
    · rename_i hid
      refine ⟨fun h => ?_, fun h => absurd (hid.symm.trans h.2.1) (by decide)⟩
      split at h <;> cases h
    · split
      · rename_i hid
        exact ⟨fun h => (by cases h), fun h => absurd (hid.symm.trans h.2.1) (by decide)⟩
      · split
        · rename_i hid
          rcases hn : svxName host c.ckSize fp with e' | (_ | ⟨l, fp'⟩)
          · rw [Exec.error_bind, and_iff_right hid, ← hname, hn]
            exact ⟨fun h => (by cases h; rfl), fun h => (by cases h; rfl)⟩
          · refine ⟨fun h => (by cases h), fun h => ?_⟩
            have := hname.2 ⟨h.1, h.2.2⟩
            rw [hn] at this
            cases this
          · refine ⟨fun h => (by cases h), fun h => ?_⟩
            have := hname.2 ⟨h.1, h.2.2⟩
            rw [hn] at this
            cases this
        · rename_i hid
          exact ⟨fun h => (by cases h), fun h => absurd h.2.1 hid⟩

theorem svxFinish_safe {si : SvxInfo} : SafeAs (openAs (.ok (svxFinish host name si)) svxToSound) ↔
    (si.dataOffset ≠ 0 → si.sampleRate.read ∧ Terminated si.comment) := by
  unfold svxFinish
  split
  · rename_i h0
    exact ⟨fun _ h => absurd h0 h, fun _ => safeAs_none⟩
  · rename_i h0
    rw [imp_iff_right h0, safeAs_openAs_some]
    constructor
    · intro h
      have hsafe := h.2 _ rfl
      exact ⟨hsafe.sampleRate, terminated_or_fileComment.1 hsafe.comment⟩
    · rintro ⟨hrate, hcomment⟩
      refine ⟨fun h => (by cases h), fun s h => ?_⟩
      cases h
      exact {
        dataFormat := rfl, numTracks := rfl, sampleRate := hrate, numSamples := rfl, dataOffset := rfl
        known := show (1 : Int) ≤ 3 ∧ (3 : Int) ≤ 7 by decide, tracks := show (1 : Int) ≤ 1 by decide
        bytesPerSample := show 1 ≤ sizeofFormat 3 by decide
        comment := terminated_or_fileComment.2 hcomment }

/-- No name overruns its buffer, and the file has no body or a complete voice header. -/
def SvxGood (host : Host) (name bytes : List UInt8) : Prop :=
  ∀ s, svxStart host bytes = some s → ∀ n t, after (svxTurn host name) n s = some t →
    (MoreChunks t.fileSize → ¬ NameOverrun host t) ∧
    (¬ MoreChunks t.fileSize → (lastPut svxOffsetAt (visited (svxTurn host name) n s)).getD 0 ≠ 0 →
      ∃ rate, lastPut (svxRateAt host) (visited (svxTurn host name) n s) = some rate ∧ rate.read)

theorem svxStart_fields {s : SvxWalk} (h : svxStart host bytes = some s) :
    s.si.dataOffset = 0 ∧ s.si.comment = none ∧ ¬ s.si.sampleRate.read := by
  unfold svxStart at h
  split at h
  · split at h
    · cases h
    · split at h
      · split at h
        · cases h
        · split at h
          · cases h
            exact ⟨rfl, rfl, fun h => by cases h⟩
          · cases h
      · cases h
  · cases h

theorem svxTurn_end {s : SvxWalk} : (∀ r, svxTurn host name s = Turn.stop <$> r → SafeAs (openAs r svxToSound)) ↔
    (MoreChunks s.fileSize → ¬ NameOverrun host s) ∧
      (¬ MoreChunks s.fileSize → SafeAs (openAs (.ok (svxFinish host name s.si)) svxToSound)) := by
  constructor
  · refine fun h => ⟨fun hmore hover => ?_, fun hmore => h _ (by rw [svxTurn, if_neg hmore]; rfl)⟩
    have hfault := svxChunkTurn_error.2 ⟨rfl, hover⟩
    have := h (.error .fault) (by rw [svxTurn, if_pos hmore, hfault]; rfl)
    rw [safeAs_openAs_error] at this
    exact this rfl
  · rintro ⟨hmore, hend⟩ r hr
    by_cases hsize : MoreChunks s.fileSize
    · rw [svxTurn, if_pos hsize] at hr
      rcases r with e | r
      · rw [safeAs_openAs_error]
        intro he
        exact hmore hsize (svxChunkTurn_error.1 (hr.trans (by rw [he]; rfl))).2
      · rw [svxChunkTurn_stop hr]
        exact safeAs_openAs_none
    · rw [svxTurn, if_neg hsize] at hr
      rw [← stop_map_inj (r := .ok (svxFinish host name s.si)) hr]
      exact hend hsize

theorem svxOpen_safe_iff :
    (∀ fuel, SafeAs (openAs (svxOpenFileForReading host name fuel bytes) svxToSound)) ↔ SvxGood host name bytes := by
  unfold svxOpenFileForReading
  rw [safeAs_walk]
  refine forall₂_congr fun s hs => forall₂_congr fun n t => forall_congr' fun ht => ?_
  obtain ⟨hoffset, hnone, hbad⟩ := svxStart_fields hs
  have hrate := @after_lastPut _ _ _ _ _ _ _ (fun s => some s.si.sampleRate) _ (fun t u htu => (svxTurn_puts htu).1) ht
  have hdata := @after_lastPut _ _ _ _ _ _ _ (fun s => some s.si.dataOffset) _ (fun t u htu => (svxTurn_puts htu).2.1) ht
  have hcomment : Terminated t.si.comment := by
    refine after_inv (I := fun s => Terminated s.si.comment) ?_ (fun t u ht htu => (svxTurn_puts htu).2.2 ht) ht
    rw [hnone]
    exact fun l h => by cases h
  rw [svxTurn_end, svxFinish_safe, and_iff_left hcomment, getD_of_orElse hdata, hoffset,
    good_iff_put (P := fun rate => rate.read = true) hrate hbad]

/-! ### VOC -/

/-- The data's offset by the data block at the position of a walk. -/
def vocOffsetAt (s : VocWalk) : Option Nat :=
  if s.vi.fp.fgetc.1 = some 1 then some (vocData s s.vi.fp.fgetc.2).vi.dataOffset else none

/-- The text block at the position of a walk. -/
def vocTextAt (s : VocWalk) : Option (List UInt8) :=
  let n := readSize s.vi.fp.fgetc.2
  if s.vi.fp.fgetc.1 = some 5 then (n.2.freadItem n.1.val).1 else none

theorem vocData_puts {s : VocWalk} {fp : Stream} : (vocData s fp).vi.comment = s.vi.comment := by
  unfold vocData
  dsimp only
  split <;> rfl

theorem vocText_puts {s t : VocWalk} {fp : Stream} (h : vocText host s fp = some t) :
    t = { s with vi := { s.vi with comment := ((readSize fp).2.freadItem (readSize fp).1.val).1
                                   fp := ((readSize fp).2.freadItem (readSize fp).1.val).2 } } ∧
      t.vi.comment.isSome := by
  unfold vocText at h
  dsimp only at h
  split at h
  · obtain ⟨l, hl, ht⟩ := Option.map_eq_some_iff.1 h
    rw [← ht, hl]
    exact ⟨rfl, rfl⟩
  · cases h

theorem vocExtended_puts {s t : VocWalk} {fp : Stream} (h : vocExtended s fp = some t) :
    t.vi.dataOffset = s.vi.dataOffset ∧ t.vi.dataSize = s.vi.dataSize ∧ t.vi.comment = s.vi.comment := by
  unfold vocExtended at h
  dsimp only at h
  split at h
  · split at h
    · cases h
      exact ⟨rfl, rfl, rfl⟩
    · cases h
  · cases h

theorem vocSkip_puts {s : VocWalk} {fp : Stream} : ∃ fp', vocSkip s fp = { s with vi := { s.vi with fp := fp' } } :=
  ⟨_, rfl⟩

theorem vocTurn_puts {s t : VocWalk} (h : Goes (vocTurn host name) s t) :
    some t.vi.dataOffset = (vocOffsetAt s <|> some s.vi.dataOffset) ∧
      t.vi.comment = (vocTextAt s <|> s.vi.comment) := by
  obtain ⟨b, hb, -, hcase⟩ := vocTurn_goes h
  unfold vocOffsetAt vocTextAt
  rw [hb]
  dsimp only
  rcases hcase with ⟨rfl, rfl⟩ | ⟨rfl, ht⟩ | ⟨rfl, ht⟩ | ⟨h₁, h₅, ht⟩
  · exact ⟨rfl, vocData_puts⟩
  · obtain ⟨rfl, hsome⟩ := vocText_puts ht
    obtain ⟨l, hl⟩ := Option.isSome_iff_exists.1 hsome
    have hl : ((readSize s.vi.fp.fgetc.2).2.freadItem (readSize s.vi.fp.fgetc.2).1.val).1 = some l := hl
    refine ⟨rfl, ?_⟩
    dsimp only
    rw [if_pos rfl, hl]
    rfl
  · obtain ⟨hoffset, -, hcomment⟩ := vocExtended_puts ht
    rw [hoffset, hcomment]
    exact ⟨rfl, rfl⟩
  · obtain ⟨fp, hskip⟩ := @vocSkip_puts s s.vi.fp.fgetc.2
    rw [if_neg fun h => h₁ (Option.some.inj h), if_neg fun h => h₅ (Option.some.inj h), ht, hskip]
    exact ⟨rfl, rfl⟩

def AtEnd (f : Stream) : Prop := f.bytes.length ≤ f.pos

theorem AtEnd.ahead {f g : Stream} (h : AtEnd f) (hg : Ahead f g) : AtEnd g := by
  unfold AtEnd
  rw [hg.1]
  exact Nat.le_trans h hg.2

theorem fgetc_atEnd {f : Stream} (h : f.fgetc.1.isSome ≠ true) : AtEnd f := by
  unfold AtEnd
  by_contra hlt
  refine h ?_
  have hdrop : (f.bytes.drop f.pos).length ≠ 0 := by
    rw [List.length_drop]
    omega
  change ((f.bytes.drop f.pos).take 1).head?.isSome = true
  rcases hl : f.bytes.drop f.pos with _ | ⟨b, l⟩
  · rw [hl] at hdrop
    exact absurd rfl hdrop
  · rfl

/-- What is not read of a VOC file is behind its end, where there is no terminator. -/
structure VocRead (s : VocWalk) : Prop where
  tracks : s.vi.tracks.read ∧ (s.vi.tracks.val = 1 ∨ s.vi.tracks.val = 2)
  sampleRate : s.extended ∨ s.vi.dataOffset ≠ 0 → s.vi.sampleRate.read ∨ AtEnd s.vi.fp
  dataSize : s.vi.dataOffset ≠ 0 → s.vi.dataSize.read ∨ AtEnd s.vi.fp

theorem readSize_read {fp g : Stream} (h : Ahead (readSize fp).2 g) : (readSize fp).1.read ∨ AtEnd g := by
  by_cases hsome : (fp.fgetc.2.fgetc.2.fgetc.1).isSome = true
  · exact .inl hsome
  · exact .inr ((fgetc_atEnd hsome).ahead (Ahead.trans ⟨Stream.fgetc_bytes, Stream.pos_le_fgetc⟩ h))

theorem getByte_read {fp : Stream} (h : (getByte fp).1.val = 0 ∨ (getByte fp).1.val = 1) : (getByte fp).1.read := by
  have heof : asUint32 (Stream.eofOr none) = 2 ^ 32 - 1 := by decide
  unfold getByte at h ⊢
  dsimp only at h ⊢
  rcases hc : fp.fgetc.1 with _ | b
  · rw [hc, heof] at h
    omega
  · rfl

theorem vocExtended_read {s t : VocWalk} {fp : Stream} (h : vocExtended s fp = some t) :
    t.vi.tracks.read ∧ (t.vi.tracks.val = 1 ∨ t.vi.tracks.val = 2) ∧ (t.vi.sampleRate.read ∨ AtEnd t.vi.fp) := by
  unfold vocExtended at h
  dsimp only at h
  split at h
  · split at h
    · rename_i hmode
      have hrate : (((readSize fp).2.fgetc.2.fgetc).1.isSome = true) ∨
          AtEnd (getByte (getByte (readSize fp).2.fgetc.2.fgetc.2).2).2 := by
        by_cases hsome : ((readSize fp).2.fgetc.2.fgetc).1.isSome = true
        · exact .inl hsome
        · exact .inr ((fgetc_atEnd hsome).ahead Ahead.refl.fgetc.getByte.getByte)
      rw [← Option.some.inj h]
      dsimp only
      rw [Got.map_read, Got.map_val]
      refine ⟨getByte_read hmode, ?_, hrate⟩
      omega
    · cases h
  · cases h

theorem vocData_read {s : VocWalk} {fp : Stream} : (vocData s fp).extended = s.extended ∧
    (vocData s fp).vi.tracks = s.vi.tracks ∧
    ((vocData s fp).vi.dataSize.read ∨ AtEnd (vocData s fp).vi.fp) ∧
    ((vocData s fp).vi.sampleRate.read ∨ AtEnd (vocData s fp).vi.fp ∨
      s.extended ∧ (vocData s fp).vi.sampleRate = s.vi.sampleRate) := by
  unfold vocData
  dsimp only
  split
  · rename_i hext
    exact ⟨rfl, rfl, readSize_read Ahead.refl.seekCur.seekCur, .inr (.inr ⟨hext, rfl⟩)⟩
  · refine ⟨rfl, rfl, readSize_read Ahead.refl.fgetc.getByte.seekCur, ?_⟩
    dsimp only
    by_cases hsome : ((readSize fp).2.fgetc.1).isSome = true
    · exact .inl hsome
    · exact .inr (.inl ((fgetc_atEnd hsome).ahead Ahead.refl.fgetc.getByte.seekCur))

theorem VocRead.turn {s t : VocWalk} (hs : VocRead s) (h : Goes (vocTurn host name) s t) : VocRead t := by
  obtain ⟨b, hb, -, hcase⟩ := vocTurn_goes h
  have hmore : ¬ AtEnd s.vi.fp := Nat.not_le.2 (Stream.fgetc_some hb).1
  rcases hcase with ⟨-, rfl⟩ | ⟨-, ht⟩ | ⟨-, ht⟩ | ⟨-, -, ht⟩
  · obtain ⟨-, htracks, hsize, hrate⟩ := @vocData_read s s.vi.fp.fgetc.2
    refine ⟨by rw [htracks]; exact hs.tracks, fun _ => ?_, fun _ => hsize⟩
    rcases hrate with hrate | hend | ⟨hext, hrate⟩
    · exact .inl hrate
    · exact .inr hend
    · rw [hrate]
      exact .inl ((hs.sampleRate (.inl hext)).resolve_right hmore)
  · obtain ⟨rfl, -⟩ := vocText_puts ht
    exact ⟨hs.tracks, fun h => .inl ((hs.sampleRate h).resolve_right hmore),
      fun h => .inl ((hs.dataSize h).resolve_right hmore)⟩
  · obtain ⟨hread, hval, hrate⟩ := vocExtended_read ht
    obtain ⟨hoffset, hsize, -⟩ := vocExtended_puts ht
    refine ⟨⟨hread, hval⟩, fun _ => hrate, fun h => ?_⟩
    rw [hsize]
    rw [hoffset] at h
    exact .inl ((hs.dataSize h).resolve_right hmore)
  · obtain ⟨fp, hskip⟩ := @vocSkip_puts s s.vi.fp.fgetc.2
    rw [ht, hskip]
    exact ⟨hs.tracks, fun h => .inl ((hs.sampleRate h).resolve_right hmore),
      fun h => .inl ((hs.dataSize h).resolve_right hmore)⟩

theorem vocStart_read {s : VocWalk} (h : vocStart host bytes = some s) :
    VocRead s ∧ s.vi.dataOffset = 0 ∧ s.vi.comment = none := by
  unfold vocStart at h
  split at h
  · split at h
    · cases h
    · dsimp only at h
      split at h
      · cases h
        refine ⟨⟨⟨rfl, .inl rfl⟩, fun h => ?_, fun h => absurd rfl h⟩, rfl, rfl⟩
        rcases h with h | h
        · cases h
        · exact absurd rfl h
      · cases h
  · cases h

theorem vocFinish_safe {s : VocWalk} {fp : Stream} (hs : VocRead s) (hmore : ¬ AtEnd s.vi.fp) :
    SafeAs (openAs (.ok (vocFinish host name { s.vi with fp })) vocToSound) ↔
      (s.vi.dataOffset ≠ 0 → Terminated s.vi.comment) := by
  unfold vocFinish
  dsimp only
  split
  · rename_i h0
    exact ⟨fun _ h => absurd h0 h, fun _ => safeAs_none⟩
  · rename_i h0
    rw [imp_iff_right h0, safeAs_openAs_some]
    have htracks : (vocRewindFile { s.vi with fp, comment := s.vi.comment <|> fileCommentFromFilename host name }).tracks.val ≠ 0 := by
      have := hs.tracks.2
      change s.vi.tracks.val ≠ 0
      omega
    unfold vocToSound
    rw [if_neg htracks]
    constructor
    · intro h
      exact terminated_or_fileComment.1 (h.2 _ rfl).comment
    · intro hcomment
      refine ⟨fun h => (by cases h), fun sound h => ?_⟩
      rw [← Option.some.inj (Except.ok.inj h)]
      have hpos : (1 : Int) ≤ (s.vi.tracks.map fun n : Nat => wrap32 n).val := by
        rw [Got.map_val]
        rcases hs.tracks.2 with h | h <;> rw [h] <;> decide
      exact {
        dataFormat := rfl, numTracks := hs.tracks.1
        sampleRate := (hs.sampleRate (.inr h0)).resolve_right hmore
        numSamples := by
          change (s.vi.dataSize.read && s.vi.tracks.read) = true
          rw [(hs.dataSize h0).resolve_right hmore, hs.tracks.1]
          rfl
        dataOffset := rfl, known := show (1 : Int) ≤ 2 ∧ (2 : Int) ≤ 7 by decide
        tracks := hpos
        bytesPerSample := show 1 ≤ sizeofFormat 2 by decide, comment := terminated_or_fileComment.2 hcomment }

/-- The file has no data block before its terminator, or the comment ends. -/
def VocGood (host : Host) (name bytes : List UInt8) : Prop :=
  ∀ s, vocStart host bytes = some s → ∀ n t, after (vocTurn host name) n s = some t → t.vi.fp.fgetc.1 = some 0 →
    (lastPut vocOffsetAt (visited (vocTurn host name) n s)).getD 0 ≠ 0 →
      Terminated (lastPut vocTextAt (visited (vocTurn host name) n s))

theorem vocTurn_end {s : VocWalk} : (∀ r, vocTurn host name s = Turn.stop <$> r → SafeAs (openAs r vocToSound)) ↔
    (s.vi.fp.fgetc.1 = some 0 →
      SafeAs (openAs (.ok (vocFinish host name { s.vi with fp := s.vi.fp.fgetc.2 })) vocToSound)) := by
  constructor
  · intro h hc
    refine h _ ?_
    unfold vocTurn
    dsimp only
    rw [hc]
    rfl
  · intro h r hr
    have horErr : ∀ {x : Option VocWalk} {r : Option VocInfo},
        (x.elim (.stop none) .next : Turn VocWalk (Option VocInfo)) = .stop r → r = none := by
      intro x r hx
      rcases x with _ | u
      · cases hx
        rfl
      · cases hx
    obtain ⟨a, rfl, ha⟩ := Exec.map_eq_ok.1 hr.symm
    rcases hc : s.vi.fp.fgetc.1 with _ | b
    · rw [hc] at ha
      cases ha
      exact safeAs_openAs_none
    · rw [hc] at h ha
      dsimp only at ha
      have ha := ha.symm
      split at ha
      · rename_i hb
        obtain rfl := eofOr_some (c := 0).1 hb
        cases ha
        exact h rfl
      · cases ha
      · rw [horErr ha]
        exact safeAs_openAs_none
      · rw [horErr ha]
        exact safeAs_openAs_none
      iterate 5
        · cases ha
      · cases ha
        exact safeAs_openAs_none

theorem vocOpen_safe_iff :
    (∀ fuel, SafeAs (openAs (vocOpenFileForReading host name fuel bytes) vocToSound)) ↔ VocGood host name bytes := by
  unfold vocOpenFileForReading
  rw [safeAs_walk]
  refine forall₂_congr fun s hs => forall₂_congr fun n t => forall_congr' fun ht => ?_
  obtain ⟨hread, hoffset, hnone⟩ := vocStart_read hs
  have hdata := @after_lastPut _ _ _ _ _ _ _ (fun s => some s.vi.dataOffset) _ (fun t u htu => (vocTurn_puts htu).1) ht
  have hcomment := @after_lastPut _ _ _ _ _ _ _ (fun s => s.vi.comment) _ (fun t u htu => (vocTurn_puts htu).2) ht
  rw [hnone, orElse_none'] at hcomment
  rw [vocTurn_end]
  refine imp_congr_right fun hc => ?_
  have hmore : ¬ AtEnd t.vi.fp := Nat.not_le.2 (Stream.fgetc_some hc).1
  rw [vocFinish_safe (after_inv hread (fun t u ht htu => ht.turn htu) ht) hmore, getD_of_orElse hdata, hoffset, hcomment]

/-! ### SND -/

/-- Whether there is memory, and enough in the file, for the comment. -/
def CommentFits (host : Host) (h : SndHeader) (rest : Nat) : Prop :=
  let size := wrap32 (h.dataOffset - 24)
  size ≠ 0 → host.mem (asSize (wrap32 (size + 1))) ∧ asSize size ≤ rest

theorem size_eq_neg_one {d : Nat} (hd : d < 2 ^ 32) : wrap32 ((d : Int) - 24) = -1 ↔ d = 23 := by
  constructor
  · intro h
    by_cases hlt : (d : Int) - 24 < 2 ^ 31
    · rw [wrap32_eq (by omega) hlt] at h
      omega
    · rw [← wrap32_sub, wrap32_eq (by omega) (by omega)] at h
      omega
  · rintro rfl
    decide

theorem sndComment_error {si : SndInfo} {e : Stop} (hd : si.h.dataOffset < 2 ^ 32) : sndComment host name si = .error e ↔
    e = .fault ∧ si.h.dataOffset = 23 ∧ host.mem 0 ∧ si.fp.pos < si.fp.bytes.length := by
  have hlen : ∀ n, (si.fp.fread n).1.length = min n (si.fp.bytes.length - si.fp.pos) := fun n => by simp [Stream.fread]
  have hover := @overrun_iff host _ (wrap32_mem (si.h.dataOffset - 24)) (si.fp.bytes.length - si.fp.pos)
  rw [Nat.sub_pos_iff_lt, size_eq_neg_one hd] at hover
  unfold sndComment
  dsimp only
  split
  · split
    · rename_i hmem
      rw [hlen]
      split
      · rename_i hlt
        exact ⟨fun h => ⟨by cases h; rfl, hover.1 ⟨hmem, hlt⟩⟩, fun h => by rw [h.1]⟩
      · rename_i hlt
        refine ⟨fun h => ?_, fun h => absurd (hover.2 h.2).2 hlt⟩
        split at h <;> cases h
    · rename_i hmem
      exact ⟨fun h => (by cases h), fun h => absurd (hover.2 h.2).1 hmem⟩
  · rename_i hzero
    refine ⟨fun h => (by cases h), fun h => absurd ?_ hzero⟩
    rw [(size_eq_neg_one hd).2 h.2.1]
    decide

theorem sndComment_ok {si : SndInfo} {r : Option SndInfo} (h : sndComment host name si = .ok r) :
    (r.isSome ↔ CommentFits host si.h (si.fp.bytes.length - si.fp.pos)) ∧
      ∀ p, r = some p → p.h = si.h ∧ Terminated p.comment := by
  unfold sndComment at h
  unfold CommentFits
  dsimp only at h ⊢
  have hlen : ∀ n, (si.fp.fread n).1.length = min n (si.fp.bytes.length - si.fp.pos) := fun n => by simp [Stream.fread]
  split at h
  · rename_i hsize
    rw [imp_iff_right hsize]
    split at h
    · rename_i hmem
      rw [hlen] at h
      split at h
      · cases h
      · split at h
        · rename_i hne
          cases h
          refine ⟨⟨fun h => (by cases h), fun h => absurd (Nat.min_eq_left h.2) hne⟩, fun p hp => (by cases hp)⟩
        · rename_i heq
          cases h
          have hle := (not_not.1 heq).symm.le.trans (Nat.min_le_right _ _)
          refine ⟨⟨fun _ => ⟨hmem, hle⟩, fun _ => rfl⟩, fun p hp => ?_⟩
          cases hp
          refine ⟨rfl, fun l hl => ?_⟩
          cases hl
          exact List.mem_append_right _ (List.mem_singleton.2 rfl)
    · rename_i hmem
      cases h
      exact ⟨⟨fun h => (by cases h), fun h => absurd h.1 hmem⟩, fun p hp => (by cases hp)⟩
  · rename_i hzero
    cases h
    refine ⟨⟨fun _ h => absurd h hzero, fun _ => rfl⟩, fun p hp => ?_⟩
    cases hp
    exact ⟨rfl, fileComment_terminated⟩

theorem sndToSound_safe {p : SndInfo} (hcomment : Terminated p.comment) :
    Safe (sndToSound p) ↔ (sndToSoundFormat p.h.format ≠ 0 → 1 ≤ wrap32 p.h.tracks) := by
  have hknown : sndToSoundFormat p.h.format ≠ 0 →
      1 ≤ sndToSoundFormat p.h.format ∧ sndToSoundFormat p.h.format ≤ 7 := by
    unfold sndToSoundFormat
    split <;> decide
  have hsound : sndToSoundFormat p.h.format ≠ 0 → ∀ n : Nat, Safe (.ok (some {
      dataFormat := ⟨sndToSoundFormat p.h.format, true⟩, numTracks := ⟨wrap32 p.h.tracks, true⟩
      sampleRate := ⟨wrap32 p.h.sampleRate, true⟩, numSamples := ⟨wrap32 n, true⟩, comment := p.comment
      formatInfo := .snd p })) ↔ 1 ≤ wrap32 p.h.tracks := fun h0 n => by
    constructor
    · intro h
      have htracks := (h.2 _ rfl).tracks
      dsimp only at htracks
      exact htracks
    · intro htracks
      refine ⟨fun h => (by cases h), fun s h => ?_⟩
      rw [← Option.some.inj (Except.ok.inj h)]
      exact {
        dataFormat := rfl, numTracks := rfl, sampleRate := rfl, numSamples := rfl, dataOffset := rfl, known := hknown h0
        tracks := by
          dsimp only
          exact htracks
        bytesPerSample := sizeofFormat_pos (hknown h0), comment := hcomment }
  unfold sndToSound
  dsimp only
  split
  · rename_i h0
    exact ⟨fun _ h => absurd h0 h, fun _ => ⟨fun h => (by cases h), fun s h => (by cases h)⟩⟩
  · rename_i h0
    rw [imp_iff_right h0]
    split
    · rw [Exec.ok_bind]
      exact hsound h0 _
    · split
      · rename_i htracks
        rw [htracks]
        exact ⟨fun h => absurd rfl h.1, fun h => absurd h (by decide)⟩
      · rw [Exec.ok_bind]
        exact hsound h0 _

/-- A SND file's header does not make the comment overrun its buffer, and there are tracks if the rest can be used. -/
def SndGood (host : Host) (bytes : List UInt8) : Prop :=
  let h := sndHeader (bytes.take 24)
  host.mem 48 → 24 ≤ bytes.length → h.magic = 0x2e736e64 →
    ¬ (h.dataOffset = 23 ∧ host.mem 0 ∧ 24 < bytes.length) ∧
    (sndToSoundFormat h.format ≠ 0 → CommentFits host h (bytes.length - 24) → 1 ≤ wrap32 h.tracks)

theorem sndDataSize_fields {si : SndInfo} : (sndDataSize si).h.format = si.h.format ∧
    (sndDataSize si).h.tracks = si.h.tracks ∧ (sndDataSize si).comment = si.comment := by
  unfold sndDataSize
  dsimp only
  split <;> exact ⟨rfl, rfl, rfl⟩

theorem sndOpen_safe_iff : SafeAs (openAs (sndOpenFileForReading host name bytes) sndToSound) ↔ SndGood host bytes := by
  unfold sndOpenFileForReading SndGood
  dsimp only
  split
  · rename_i hmem
    rw [imp_iff_right hmem]
    split
    · rename_i fp hnone
      refine ⟨fun _ hlen => ?_, fun _ => safeAs_openAs_none⟩
      have hfst := congrArg Prod.fst hnone
      simp [Stream.freadItem, Stream.fread, Nat.min_eq_left hlen] at hfst
    · rename_i l fp hl
      obtain ⟨htake, -, -, hlen⟩ := Stream.freadItem_some (congrArg Prod.fst hl)
      have hlen : 24 ≤ bytes.length := by
        simpa using hlen
      have htake : l = bytes.take 24 := htake
      have hfp : fp = ⟨bytes, 24⟩ := by
        have hsnd : (Stream.fread ⟨bytes, 0⟩ 24).2 = fp := congrArg Prod.snd hl
        rw [← hsnd]
        simp [Stream.fread, Nat.min_eq_left hlen]
      rw [imp_iff_right hlen, htake, hfp]
      split
      · rename_i hmagic
        rw [imp_iff_right hmagic]
        have hd : (sndHeader (bytes.take 24)).dataOffset < 2 ^ 32 := by
          rw [show 2 ^ 32 = 256 ^ 4 from rfl]
          refine ByteOrder.decode_lt (o := .big) ?_
          rw [List.length_take, List.length_drop, List.length_take]
          omega
        rcases hc : sndComment host name { h := sndHeader (bytes.take 24), fp := ⟨bytes, 24⟩ } with e | r
        · obtain ⟨rfl, hfault⟩ := (sndComment_error hd).1 hc
          rw [show (Option.map sndDataSize <$> (.error .fault : Exec (Option SndInfo))) = .error .fault from rfl,
            safeAs_openAs_error]
          exact ⟨fun h => absurd rfl h, fun h => absurd hfault h.1⟩
        · have hno : ¬ ((sndHeader (bytes.take 24)).dataOffset = 23 ∧ host.mem 0 ∧ 24 < bytes.length) := fun h => by
            have := (@sndComment_error host name { h := sndHeader (bytes.take 24), fp := ⟨bytes, 24⟩ } .fault hd).2 ⟨rfl, h⟩
            rw [hc] at this
            cases this
          rw [and_iff_right hno]
          obtain ⟨hfits, hfields⟩ := sndComment_ok hc
          rw [← hfits]
          rcases r with _ | p
          · exact ⟨fun _ _ h => (by cases h), fun _ => safeAs_openAs_none⟩
          · obtain ⟨hh, hcomment⟩ := hfields p rfl
            obtain ⟨hformat, htracks, hsame⟩ := @sndDataSize_fields p
            rw [show (Option.map sndDataSize <$> (.ok (some p) : Exec (Option SndInfo))) = .ok (some (sndDataSize p)) from rfl,
              safeAs_openAs_some, sndToSound_safe (by rw [hsame]; exact hcomment), hformat, htracks, hh]
            exact ⟨fun h hf _ => h hf, fun h hf => h hf rfl⟩
      · rename_i hmagic
        exact ⟨fun _ h => absurd h hmagic, fun _ => safeAs_openAs_none⟩
  · rename_i hmem
    exact ⟨fun _ h => absurd h hmem, fun _ => safeAs_openAs_none⟩

/-! ### `SoundOpenFileForReading` -/

theorem openAs_walk_start {σ α : Type} {turn : σ → Exec (Turn σ (Option α))} {fuel : Nat} {start : Option σ}
    {toSound : α → Exec (Option Sound)} {P : Prop} (h : ∀ s, start = some s → P) :
    openAs (walk turn fuel start) toSound = .ok none ∨ P := by
  rcases start with _ | s
  · exact .inl rfl
  · exact .inr (h s rfl)

/-- The table of the formats, with the files as they start. -/
theorem table_exclusive (fuel : Nat) : List.Pairwise (fun o o' => o = .ok none ∨ o' = .ok none) [
    openAs (sndOpenFileForReading host name bytes) sndToSound,
    openAs (vocOpenFileForReading host name fuel bytes) vocToSound,
    openAs (waveOpenFileForReading host name fuel bytes) waveToSound,
    openAs (aiffOpenFileForReading host name fuel bytes) aiffToSound,
    openAs (svxOpenFileForReading host name fuel bytes) svxToSound] := by
  have hsnd : openAs (sndOpenFileForReading host name bytes) sndToSound = .ok none ∨
      bytes.take 4 = [0x2e, 0x73, 0x6e, 0x64] := by
    by_cases h : bytes.take 4 = [0x2e, 0x73, 0x6e, 0x64]
    · exact .inr h
    · rw [sndOpen_other h]
      exact .inl rfl
  have hvoc : openAs (vocOpenFileForReading host name fuel bytes) vocToSound = .ok none ∨
      bytes.take 4 = vocID.take 4 := openAs_walk_start fun s hs => vocStart_some hs
  have hwave : openAs (waveOpenFileForReading host name fuel bytes) waveToSound = .ok none ∨
      bytes.take 4 = riffRiffID := openAs_walk_start fun s hs => (waveStart_some hs).1
  have haiff : openAs (aiffOpenFileForReading host name fuel bytes) aiffToSound = .ok none ∨
      bytes.take 4 = aiffFormID ∧ (bytes.drop 8).take 4 = aiffAiffID :=
    openAs_walk_start fun s hs => ⟨(aiffStart_some hs).1, (aiffStart_some hs).2.1⟩
  have hsvx : openAs (svxOpenFileForReading host name fuel bytes) svxToSound = .ok none ∨
      bytes.take 4 = svxFormID ∧ (bytes.drop 8).take 4 = svx8svxID :=
    openAs_walk_start fun s hs => ⟨(svxStart_some hs).1, (svxStart_some hs).2.1⟩
  have both : ∀ {o o' : Exec (Option (Option Sound))} {P Q : Prop}, o = .ok none ∨ P → o' = .ok none ∨ Q →
      (P → Q → False) → o = .ok none ∨ o' = .ok none := by
    rintro o o' P Q (h | hP) (h' | hQ) hno
    · exact .inl h
    · exact .inl h
    · exact .inr h'
    · exact (hno hP hQ).elim
  have differ : ∀ {x a b : List UInt8}, a ≠ b → x = a → x = b → False := fun hab hxa hxb => hab (hxa.symm.trans hxb)
  simp only [List.pairwise_cons, List.mem_cons, List.not_mem_nil, or_false, forall_eq_or_imp, forall_eq, false_imp_iff,
    implies_true, and_true, List.Pairwise.nil]
  refine ⟨⟨both hsnd hvoc (differ (by decide)), both hsnd hwave (differ (by decide)),
    both hsnd haiff fun h h' => differ (by decide) h h'.1, both hsnd hsvx fun h h' => differ (by decide) h h'.1⟩,
    ⟨both hvoc hwave (differ (by decide)), both hvoc haiff fun h h' => differ (by decide) h h'.1,
      both hvoc hsvx fun h h' => differ (by decide) h h'.1⟩,
    ⟨both hwave haiff fun h h' => differ (by decide) h h'.1, both hwave hsvx fun h h' => differ (by decide) h h'.1⟩,
    both haiff hsvx fun h h' => differ (by decide) h.2 h'.2⟩

/-- A WAVE file with a format chunk of no channels, and no data. -/
def silentWave : List UInt8 :=
  riffRiffID ++ [36, 0, 0, 0] ++ riffWaveID ++ riffWaveFmtID ++ [16, 0, 0, 0, 1, 0, 0, 0, 0x40, 0x1f, 0, 0] ++
    [0x40, 0x1f, 0, 0, 1, 0, 8, 0] ++ riffWaveDataID ++ [0, 0, 0, 0]

/-- In front of the format chunk, of the data chunk, and at the end. -/
def silentWalk : List WaveWalk :=
  let fmt : WaveFmt := ⟨1, ⟨0, true⟩, ⟨8000, true⟩, ⟨8, true⟩⟩
  [{ wi := { fp := ⟨silentWave, 12⟩, fmt := ⟨0, ⟨0, false⟩, ⟨0, false⟩, ⟨0, false⟩⟩ }, fileSize := 32 },
   { wi := { fp := ⟨silentWave, 36⟩, fmt }, fileSize := 8 },
   { wi := { fp := ⟨silentWave, 44⟩, fmt, dataOffset := 36 }, fileSize := 0 }]

end Nas.SoundFile
