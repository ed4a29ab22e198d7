import Nas.LinkedList
import Nas.SoundTermination
import Nas.SoundWriters

/-!
# Who frees a sound

The memory behind a `Sound` while its file is opened: the sound, the format's record with its stream, and the comment,
which both point to. The writers of a format free its record where a header cannot be written, and leave it to the
sound where they return one; the readers do so too, and allocate a comment for each chunk with one. What a reader does
apart from memory is the walk of `SoundReaders`. Freed memory that is used, or freed again, is a fault.

`frees_once_iff` is when everything is freed once behind a file that could not be opened.
-/

namespace Nas.SoundFile.Ownership
open Stdio Turn

/-! ### Memory -/

/-- Where the stream of a record is from. -/
inductive File where
  /-- `stdin` and `stdout` -/
  | standard
  | opened (p : Nat)
deriving DecidableEq, Repr

/-- The pointers of a format's record. -/
structure InfoRec where
  fp : Option File := none
  comment : Option Nat := none
deriving DecidableEq, Repr

structure SoundRec where
  /-- None if it is not set. -/
  fileFormat : Option FileFormat := none
  formatInfo : Option Nat := none
  comment : Option Nat := none
deriving DecidableEq, Repr

inductive Block where
  | sound (s : SoundRec)
  | info (i : InfoRec)
  | text
  | stream
deriving DecidableEq, Repr

section
variable (h : Heap Block)

def free (p : Nat) : Exec (Heap Block) :=
  match h.get p with
  | none | some .stream => .error .fault
  | _ => .ok (h.free p)

def fclose (p : Nat) : Exec (Heap Block) :=
  match h.get p with
  | some .stream => .ok (h.free p)
  | _ => .error .fault

def soundAt (p : Nat) : Exec SoundRec :=
  match h.get p with
  | some (.sound s) => .ok s
  | _ => .error .fault

def infoAt (p : Nat) : Exec InfoRec :=
  match h.get p with
  | some (.info i) => .ok i
  | _ => .error .fault

/-- SND does not close the standard streams. -/
def closeStream : Option File → Exec (Heap Block)
  | some (.opened f) => fclose h f
  | _ => .ok h

def freeComment : Option Nat → Exec (Heap Block)
  | some c => free h c
  | none => .ok h

/-- The `CloseFile` of each format. -/
def closeFile (p : Nat) : Exec (Heap Block) := do
  let i ← infoAt h p
  let h ← closeStream h i.fp
  let h ← freeComment h i.comment
  free h p

def soundCloseFile (p : Nat) : Exec (Heap Block) := do
  let s ← soundAt h p
  let h ← match s.formatInfo with
    -- by the table's row for the sound's format
    | some i => if s.fileFormat.isSome then closeFile h i else .error .fault
    | none => freeComment h s.comment
  free h p

end

/-! ### Writing -/

/-- What `fopen` and the `fwrite`s return. -/
structure Device where
  fopen : Bool
  fwrite : Nat → Bool

/-- A step of a writer that puts a header into the file. -/
inductive Write where
  /-- `Err()` where it fails. -/
  | checked (l : List UInt8)
  | unchecked (l : List UInt8)
  /-- What is written is from a division by an unsigned number. -/
  | quotient (d : Nat) (l : List UInt8)
deriving DecidableEq, Repr

def Write.bytes : Write → List UInt8
  | .checked l | .unchecked l | .quotient _ l => l

/-- Whether a header is put into the file. -/
def putHeader (fwrite : Nat → Bool) : Nat → List Write → Exec Bool
  | _, [] => .ok true
  | n, .checked _ :: ws => if fwrite n then putHeader fwrite (n + 1) ws else .ok false
  | n, .unchecked _ :: ws => putHeader fwrite (n + 1) ws
  | n, .quotient d _ :: ws => if d % 2 ^ 32 = 0 then .error .fault else putHeader fwrite (n + 1) ws

section
variable (host : Host) (s : NewSound)

def waveHeader : List Write :=
  let le (w : Nat) (n : Int) : List UInt8 := ByteOrder.little.encode w (asUint32 n)
  let n : Int := s.comment.length
  let bytes : Int := s.bits / 8
  let start : List Write := [.checked riffRiffID, .checked (le 4 0), .checked riffWaveID]
  let comment : List Write :=
    [.checked riffListID, .checked (le 4 (8 + 4 + pad2 (n + 1))), .checked riffListInfoID, .checked riffInfoIcmtID,
      .checked (le 4 (n + 1)), .checked (s.comment ++ [0])]
  let fmt : List Write :=
    [.checked riffWaveFmtID, .checked (le 4 16), .checked (le 2 1), .checked (le 2 s.numTracks),
      .checked (le 4 s.sampleRate), .checked (le 4 (asShort (asUint32 s.numTracks) * s.sampleRate * bytes)),
      .checked (le 2 (asShort (asUint32 s.numTracks) * bytes)), .checked (le 2 s.bits)]
  let data : List Write := [.checked riffWaveDataID, .checked (le 4 0)]
  start ++ (if n ≠ 0 then comment ++ (padByte (n + 1)).map .unchecked else []) ++ fmt ++ data

def aiffHeader : List Write :=
  let be (w : Nat) (n : Int) : List UInt8 := ByteOrder.big.encode w (asUint32 n)
  let n : Int := s.comment.length
  let start : List Write := [.checked aiffFormID, .checked (be 4 0), .checked aiffAiffID]
  let comment : List Write :=
    [.checked aiffCommentID, .checked (be 4 (10 + pad2 (n + 1))), .checked (be 2 1), .checked (be 4 0),
      .checked (be 2 0), .checked (be 2 (n + 1)), .checked (s.comment ++ [0])]
  let common : List Write :=
    [.checked aiffCommonID, .checked (be 4 18), .checked (be 2 s.numTracks), .checked (be 4 (host.junk 60 0)),
      .checked (be 2 s.bits), .checked (host.toIeeeExtended s.sampleRate)]
  let data : List Write := [.checked aiffSoundDataID, .checked (be 4 0), .checked (be 4 0), .checked (be 4 0)]
  start ++ (if n ≠ 0 then comment ++ (padByte (n + 1)).map .unchecked else []) ++ common ++ data

def svxHeader : List Write :=
  let be (w : Nat) (n : Int) : List UInt8 := ByteOrder.big.encode w (asUint32 n)
  let n : Int := s.comment.length
  let start : List Write := [.checked svxFormID, .checked (be 4 0), .checked svx8svxID]
  let comment : List Write := [.checked svxNameID, .checked (be 4 n), .checked s.comment]
  let vhdr : List Write :=
    [.checked svxVhdrID, .checked (be 4 20), .checked (be 4 (host.junk 61 0)), .checked (be 4 0), .checked (be 4 0),
      .checked (be 2 s.sampleRate), .checked (be 2 0), .checked (be 4 65536)]
  let body : List Write := [.checked svxBodyID, .checked (be 4 0)]
  start ++ (if n ≠ 0 then comment else []) ++ vhdr ++ body

def vocHeader : List Write :=
  let le (w : Nat) (n : Int) : List UInt8 := ByteOrder.little.encode w (asUint32 n)
  let n : Int := s.comment.length
  let rate := asUint32 s.sampleRate
  let code : Int := 65536 - (256000000 / (rate * 2 % 2 ^ 32) : Nat)
  let start : List Write := [.checked vocID, .checked (le 2 26), .checked (le 2 0x10a), .checked (le 2 0x1129)]
  let comment : List Write := [.unchecked (le 1 5), .unchecked (le 3 (n + 1)), .checked (s.comment ++ [0])]
  let extended : List Write :=
    [.unchecked (le 1 8), .unchecked (le 3 4), .quotient (rate * 2) (le 1 code), .unchecked (le 1 (code / 2 ^ 8)),
      .unchecked (le 1 0), .unchecked (le 1 1)]
  let data : List Write :=
    [.unchecked (le 1 1), .unchecked (le 3 0), .quotient rate (le 1 (256 - (1000000 / (rate % 2 ^ 32) : Nat))),
      .unchecked (le 1 0)]
  start ++ (if n ≠ 0 then comment else []) ++ (if s.numTracks = 2 then extended else []) ++ data

def sndHeaderWrites (numSamples : Int) : List Write :=
  let be (n : Int) : List UInt8 := ByteOrder.big.encode 4 (asUint32 n)
  let commentLen := s.comment.length
  .checked (be 0x2e736e64 ++ be (24 + commentLen) ++ be numSamples ++ be (soundToSndFormat s.dataFormat) ++
    be s.sampleRate ++ be s.numTracks) :: (if commentLen ≠ 0 then [.checked s.comment] else [])

def header (numSamples : Int) : List Write :=
  match s.fileFormat with
  | .snd => sndHeaderWrites s numSamples
  | .voc => vocHeader s
  | .wave => waveHeader s
  | .aiff => aiffHeader host s
  | .svx => svxHeader host s

/-- The size of a format's record. -/
def infoSize : FileFormat → Nat
  | .snd | .svx | .aiff => 48
  | .voc => 40
  | .wave => 56

/-- `SoundCreate`: the sound, if there is memory and the format has the data. -/
def soundCreate (h : Heap Block) : Exec (Heap Block × Option Nat) :=
  if host.mem 40 then do
    let p := h.next
    let h := h.alloc (.sound {})
    if host.mem (s.comment.length + 1) then do
      let c := h.next
      let h := h.alloc .text
      if s.fileFormat.dataFormats.contains s.dataFormat ∧ host.mem (infoSize s.fileFormat) then
        -- the format's record has the same comment
        let i := h.next
        let h := h.alloc (.info { comment := some c })
        let h := h.modify p fun _ => .sound { fileFormat := some s.fileFormat, formatInfo := some i, comment := some c }
        .ok (h, some p)
      else do
        let h ← free h c
        let h ← free h p
        .ok (h, none)
    else do
      let h ← free h p
      .ok (h, none)
  else .ok (h, none)

/-- The `OpenFileForWriting` of each format: whether it returns its record. -/
def openFileForWriting (dev : Device) (name : List UInt8) (numSamples : Int) (h : Heap Block) (i : Nat) :
    Exec (Heap Block × Bool) := do
  let info ← infoAt h i
  if s.fileFormat = .snd ∧ name = [45] then
    let h := h.modify i fun _ => .info { info with fp := some .standard }
    if ← putHeader dev.fwrite 0 (header host s numSamples) then .ok (h, true)
    else return (← closeFile h i, false)
  else if dev.fopen then
    let f := h.next
    let h := h.alloc .stream
    let h := h.modify i fun _ => .info { info with fp := some (.opened f) }
    if ← putHeader dev.fwrite 0 (header host s numSamples) then .ok (h, true)
    else return (← closeFile h i, false)
  else
    let h := h.modify i fun _ => .info { info with fp := none }
    -- here SND leaves its record alone
    if s.fileFormat = .snd then .ok (h, false) else return (← closeFile h i, false)

def soundOpenFileForWriting (dev : Device) (name : List UInt8) (numSamples : Int) (h : Heap Block) (p : Nat) :
    Exec (Heap Block × Bool) := do
  let r ← soundAt h p
  match r.formatInfo with
  | some i => openFileForWriting host s dev name numSamples h i
  | none => .error .fault

end

/-! ### The headers -/

section
variable {host : Host} {s : NewSound}

theorem fwriteAll_mk (ls : List (List UInt8)) : (Stream.mk [] 0).fwriteAll ls = ⟨ls.flatten, ls.flatten.length⟩ :=
  Stream.fwriteAll_end (l := [])

theorem map_unchecked (l : List (List UInt8)) : (l.map Write.unchecked).map Write.bytes = l := by
  rw [List.map_map]
  exact List.map_id _

theorem waveHeader_writes :
    (Stream.mk [] 0).fwriteAll ((waveHeader s).map Write.bytes) = (waveOpenFileForWriting s).fp := by
  unfold waveHeader waveOpenFileForWriting
  dsimp only
  split_ifs <;> simp only [Stream.fwriteAll, List.map_append, List.foldl_append, map_unchecked, List.map_cons,
    List.map_nil, Write.bytes, List.foldl_cons, List.foldl_nil]

theorem aiffHeader_writes :
    (Stream.mk [] 0).fwriteAll ((aiffHeader host s).map Write.bytes) = (aiffOpenFileForWriting host s).fp := by
  unfold aiffHeader aiffOpenFileForWriting
  dsimp only
  split_ifs <;> simp only [Stream.fwriteAll, List.map_append, List.foldl_append, map_unchecked, List.map_cons,
    List.map_nil, Write.bytes, List.foldl_cons, List.foldl_nil]

theorem svxHeader_writes :
    (Stream.mk [] 0).fwriteAll ((svxHeader host s).map Write.bytes) = (svxOpenFileForWriting host s).fp := by
  unfold svxHeader svxOpenFileForWriting
  dsimp only
  split_ifs <;> simp only [Stream.fwriteAll, List.map_append, List.foldl_append, List.map_cons, List.map_nil,
    Write.bytes, List.foldl_cons, List.foldl_nil]

theorem vocHeader_writes {o : OutFile} (h : vocOpenFileForWriting s = .ok o) :
    (Stream.mk [] 0).fwriteAll ((vocHeader s).map Write.bytes) = o.fp := by
  unfold vocOpenFileForWriting quotient at h
  unfold vocHeader
  dsimp only at h ⊢
  by_cases hrate : asUint32 s.sampleRate % 2 ^ 32 = 0
  · rw [if_pos hrate] at h
    split_ifs at h <;> cases h
  rw [if_neg hrate] at h
  by_cases ht : s.numTracks = 2
  · rw [if_pos ht] at h ⊢
    by_cases hd : asUint32 s.sampleRate * 2 % 2 ^ 32 = 0
    · rw [if_pos hd] at h
      cases h
    · rw [if_neg hd] at h
      simp only [Exec.ok_bind] at h
      rw [← Except.ok.inj h]
      split_ifs <;> simp only [Stream.fwriteAll, List.map_append, List.foldl_append, List.map_cons, List.map_nil,
        Write.bytes, List.foldl_cons, List.foldl_nil]
  · rw [if_neg ht] at h ⊢
    simp only [Exec.ok_bind] at h
    rw [← Except.ok.inj h]
    split_ifs <;> simp only [Stream.fwriteAll, List.map_append, List.foldl_append, List.map_cons, List.map_nil,
      Write.bytes, List.foldl_cons, List.foldl_nil]

theorem sndHeader_writes {n : Int} : ((Stream.mk [] 0).fwriteAll ((sndHeaderWrites s n).map Write.bytes)).bytes =
    (sndOpenFileForWriting s n).fp.bytes := by
  unfold sndHeaderWrites sndOpenFileForWriting
  dsimp only
  by_cases hn : s.comment.length ≠ 0
  · rw [if_pos hn, if_pos hn, fwriteAll_mk, fwriteAll_mk, Stream.fwrite_end]
    simp [Write.bytes]
  · rw [if_neg hn, if_neg hn, fwriteAll_mk, fwriteAll_mk]
    simp [Write.bytes]

/-- The headers are those of `SoundWriters`, where nothing fails. -/
theorem header_writes {numSamples : Int} {w : Writing} (h : SoundFile.soundOpenFileForWriting host s numSamples = .ok w) :
    ((Stream.mk [] 0).fwriteAll ((header host s numSamples).map Write.bytes)).bytes = w.out.fp.bytes := by
  unfold SoundFile.soundOpenFileForWriting at h
  unfold header
  rcases hf : s.fileFormat <;> rw [hf] at h
  · rw [← Except.ok.inj h]
    exact sndHeader_writes
  · obtain ⟨o, ho, hw⟩ := Exec.bind_eq_ok.1 h
    rw [← Except.ok.inj hw]
    exact congrArg Stream.bytes (vocHeader_writes ho)
  · rw [← Except.ok.inj h]
    exact congrArg Stream.bytes waveHeader_writes
  · rw [← Except.ok.inj h]
    exact congrArg Stream.bytes aiffHeader_writes
  · rw [← Except.ok.inj h]
    exact congrArg Stream.bytes svxHeader_writes

end

/-! ### Reading -/

/-- A reader of a format, with the comments it has memory for. -/
structure Reader (host : Host) (σ α : Type) where
  infoSize : Nat
  start : List UInt8 → Option σ
  turn : σ → Exec (Turn σ (Option α))
  /-- The size of the comment that a turn allocates. -/
  mallocs : σ → Option Nat
  mem : ∀ s t n, Goes turn s t → mallocs s = some n → host.mem n = true
  start_mem : ∀ bytes s, start bytes = some s → host.mem infoSize = true

section
variable (host : Host)

/-- The allocation of a comment, whose address, or NULL, takes the place of the one in the record. -/
def setComment (i n : Nat) (h : Heap Block) : Exec (Heap Block) := do
  let info ← infoAt h i
  if host.mem n then .ok ((h.alloc .text).modify i fun _ => .info { info with comment := some h.next })
  else .ok (h.modify i fun _ => .info { info with comment := none })

/-- A turn of a reader. -/
def Reader.turnWith {σ α : Type} (r : Reader host σ α) (i : Nat) (x : σ × Heap Block) :
    Exec (Turn (σ × Heap Block) (Option α × Heap Block)) := do
  let h ← match r.mallocs x.1 with
    | some n => setComment host i n x.2
    | none => .ok x.2
  match ← r.turn x.1 with
  | .next s => .ok (.next (s, h))
  | .stop a => .ok (.stop (a, h))

/-- `FileCommentFromFilename`, where the file has no comment. -/
def nameComment (name : List UInt8) (i : Nat) (h : Heap Block) : Exec (Heap Block) := do
  let info ← infoAt h i
  match info.comment, fileCommentFromFilename host name with
  | none, some l => setComment host i l.length h
  | _, _ => .ok h

/-- The `OpenFileForReading` of each format, of a standard stream or of a file, if it can be opened. -/
def Reader.openFileForReading {σ α : Type} (r : Reader host σ α) (name : List UInt8) (standard : Bool) (fuel : Nat)
    (file : Option (List UInt8)) (h : Heap Block) : Exec (Heap Block × Option (Nat × α)) :=
  if host.mem r.infoSize then do
    let i := h.next
    let h := h.alloc (.info {})
    match file with
    | none => return (← closeFile h i, none)
    | some bytes =>
      let h := if standard then h.modify i fun _ => .info { fp := some .standard }
        else (h.alloc .stream).modify i fun _ => .info { fp := some (.opened h.next) }
      match r.start bytes with
      | none => return (← closeFile h i, none)
      | some s =>
        match ← Turn.loop (r.turnWith host i) fuel (s, h) with
        | (none, h) => return (← closeFile h i, none)
        | (some a, h) => return (← nameComment host name i h, some (i, a))
  else .ok (h, none)

/-- A format of the table: the record it opens, and whether the sound is made from it. -/
def tryFormat {σ α : Type} (r : Reader host σ α) (toSound : α → Exec (Option Sound)) (name : List UInt8)
    (standard : Bool) (fuel : Nat) (file : Option (List UInt8)) (h : Heap Block) :
    Exec (Heap Block × Option (Nat × Bool)) := do
  match ← r.openFileForReading host name standard fuel file h with
  | (h, none) => .ok (h, none)
  | (h, some (i, a)) => return (h, some (i, (← toSound a).isSome))

/-- The loop over the table; the sound's `formatInfo` is NULL again behind a format that does not open the file. -/
def tryFormats (p : Nat) : List (FileFormat × (Heap Block → Exec (Heap Block × Option (Nat × Bool)))) → Heap Block →
    Exec (Heap Block × Bool)
  | [], h => do return (← soundCloseFile h p, false)
  | (format, o) :: os, h => do
    match ← o h with
    | (h, none) => tryFormats p os h
    | (h, some (i, made)) =>
      if made then
        let info ← infoAt h i
        .ok (h.modify p fun _ => .sound { fileFormat := some format, formatInfo := some i, comment := info.comment }, true)
      else
        let h := h.modify p fun _ => .sound { fileFormat := some format, formatInfo := some i }
        return (← soundCloseFile h p, false)

/-! ### The comments of the readers -/

/-- `ICMT` -/
def waveMallocs (s : WaveWalk) : Option Nat :=
  if s.info ≠ 0 then
    match (readChunk .little s.wi.fp).1 with
    | some c => if c.ckID = riffInfoIcmtID then some (asSize c.ckSize) else none
    | none => none
  else none

/-- The length of the first comment, behind the number of comments, a time stamp and a marker. -/
def aiffCount (fp : Stream) : Nat :=
  ((((fp.fileReadS host .big 15).2.fileReadL host .big 16).2.fileReadS host .big 17).2.fileReadS host .big 18).1.val

/-- `COMT` -/
def aiffMallocs (s : AiffWalk) : Option Nat :=
  if MoreChunks s.fileSize then
    match readChunk .big s.ai.fp with
    | (some ck, fp) =>
      if ck.ckID = aiffCommentID then
        if (fp.fileReadS host .big 15).1.val ≠ 0 ∧ aiffCount host fp ≠ 0 then some (aiffCount host fp) else none
      else none
    | (none, _) => none
  else none

/-- `NAME` -/
def svxMallocs (s : SvxWalk) : Option Nat :=
  if MoreChunks s.fileSize then
    match (readChunk .big s.si.fp).1 with
    | some ck => if ck.ckID = svxNameID then some (asSize (wrap32 (ck.ckSize + 1))) else none
    | none => none
  else none

/-- `VOC_TEXT` -/
def vocMallocs (s : VocWalk) : Option Nat :=
  let c := s.vi.fp.fgetc
  if Stream.eofOr c.1 = 5 then some (readSize c.2).1.val else none

/-- Between the header and the data. -/
def sndMallocs (bytes : List UInt8) : Option Nat :=
  match (Stream.freadItem ⟨bytes, 0⟩ 24).1 with
  | some l =>
    let size := wrap32 ((sndHeader l).dataOffset - 24)
    if (sndHeader l).magic = 0x2e736e64 ∧ size ≠ 0 then some (asSize (wrap32 (size + 1))) else none
  | none => none

end

section
variable {host : Host} {name : List UInt8}

theorem ite_some {α : Type} {p : Prop} [Decidable p] {x : Option α} {a : α} (h : (if p then x else none) = some a) :
    p ∧ x = some a := by
  split_ifs at h with hp
  exact ⟨hp, h⟩

theorem waveMallocs_mem {s t : WaveWalk} {n : Nat} (h : Goes (waveTurn host name) s t) (hn : waveMallocs s = some n) :
    host.mem n = true := by
  unfold waveMallocs at hn
  split_ifs at hn with hinfo
  unfold Goes waveTurn waveInfoTurn at h
  rw [if_pos hinfo] at h
  rcases hc : readChunk .little s.wi.fp with ⟨_ | c, fp⟩
  · rw [hc] at hn
    cases hn
  · rw [hc] at hn h
    dsimp only at hn h
    split_ifs at hn with hid
    cases hn
    by_contra hmem
    rw [if_pos hid, if_neg hmem] at h
    cases h

theorem aiffComment_mem {ckSize : Int} {ai : AiffInfo} (hnum : (ai.fp.fileReadS host .big 15).1.val ≠ 0)
    (hcount : aiffCount host ai.fp ≠ 0) (hmem : ¬ host.mem (aiffCount host ai.fp) = true) :
    aiffComment host ckSize ai = none := by
  unfold aiffCount at hcount hmem
  unfold aiffComment
  dsimp only
  rw [if_pos hnum, if_pos hcount, if_neg hmem]

theorem aiffMallocs_mem {s t : AiffWalk} {n : Nat} (h : Goes (aiffTurn host name) s t)
    (hn : aiffMallocs host s = some n) : host.mem n = true := by
  unfold aiffMallocs at hn
  split_ifs at hn with hmore
  unfold Goes aiffTurn aiffChunkTurn at h
  rw [if_pos hmore] at h
  rcases hc : readChunk .big s.ai.fp with ⟨_ | c, fp⟩
  · rw [hc] at hn
    cases hn
  · rw [hc] at hn h
    dsimp only at hn h
    split_ifs at hn with hid hcount
    rw [← Option.some.inj hn]
    have hcommon : c.ckID ≠ aiffCommonID := by
      rw [hid]
      decide
    have hdata : c.ckID ≠ aiffSoundDataID := by
      rw [hid]
      decide
    by_contra hmem
    have hnone : aiffComment host c.ckSize { s.ai with fp } = none :=
      aiffComment_mem hcount.1 hcount.2 hmem
    rw [if_neg hcommon, if_neg hdata, if_pos hid, hnone] at h
    cases h

theorem svxMallocs_mem {s t : SvxWalk} {n : Nat} (h : Goes (svxTurn host name) s t) (hn : svxMallocs s = some n) :
    host.mem n = true := by
  unfold svxMallocs at hn
  split_ifs at hn with hmore
  unfold Goes svxTurn svxChunkTurn at h
  rw [if_pos hmore] at h
  rcases hc : readChunk .big s.si.fp with ⟨_ | c, fp⟩
  · rw [hc] at hn
    cases hn
  · rw [hc] at hn h
    dsimp only at hn h
    split_ifs at hn with hid
    cases hn
    have hvhdr : c.ckID ≠ svxVhdrID := by
      rw [hid]
      decide
    have hbody : c.ckID ≠ svxBodyID := by
      rw [hid]
      decide
    by_contra hmem
    have hnone : svxName host c.ckSize fp = .ok none := by
      unfold svxName
      rw [if_neg hmem]
    rw [if_neg hvhdr, if_neg hbody, if_pos hid, hnone] at h
    cases h

theorem vocMallocs_mem {s t : VocWalk} {n : Nat} (h : Goes (vocTurn host name) s t) (hn : vocMallocs s = some n) :
    host.mem n = true := by
  unfold vocMallocs at hn
  dsimp only at hn
  split_ifs at hn with hc
  cases hn
  by_contra hmem
  have hnone : vocText host s s.vi.fp.fgetc.2 = none := by
    unfold vocText
    rw [if_neg hmem]
  unfold Goes vocTurn at h
  dsimp only at h
  simp only [hc, hnone] at h
  cases h

end

section
variable (host : Host) (name : List UInt8)

def waveReader : Reader host WaveWalk WaveInfo where
  infoSize := 56
  start := waveStart host
  turn := waveTurn host name
  mallocs := waveMallocs
  mem _ _ _ := waveMallocs_mem
  start_mem _ _ h := (ite_some h).1

def aiffReader : Reader host AiffWalk AiffInfo where
  infoSize := 48
  start := aiffStart host
  turn := aiffTurn host name
  mallocs := aiffMallocs host
  mem _ _ _ := aiffMallocs_mem
  start_mem _ _ h := (ite_some h).1

def svxReader : Reader host SvxWalk SvxInfo where
  infoSize := 48
  start := svxStart host
  turn := svxTurn host name
  mallocs := svxMallocs
  mem _ _ _ := svxMallocs_mem
  start_mem _ _ h := (ite_some h).1

def vocReader : Reader host VocWalk VocInfo where
  infoSize := 40
  start := vocStart host
  turn := vocTurn host name
  mallocs := vocMallocs
  mem _ _ _ := vocMallocs_mem
  start_mem _ _ h := (ite_some h).1

/-- `SndOpenFileForReading`; the size of what comes from `stdin` is not looked at. -/
def sndRead (stdin : Bool) (bytes : List UInt8) : Exec (Option SndInfo) :=
  if stdin then
    match Stream.freadItem ⟨bytes, 0⟩ 24 with
    | (none, _) => .ok none
    | (some h, fp) =>
      if (sndHeader h).magic = 0x2e736e64 then sndComment host name { h := sndHeader h, fp } else .ok none
  else sndOpenFileForReading host name bytes

/-- SND has no loop. -/
def sndReader (stdin : Bool) : Reader host (List UInt8) SndInfo where
  infoSize := 48
  start bytes := if host.mem 48 then some bytes else none
  turn bytes := Turn.stop <$> sndRead host name stdin bytes
  mallocs := sndMallocs
  mem s t _ h := by
    obtain ⟨a, -, ha⟩ := Exec.map_eq_ok.1 h
    cases ha
  start_mem _ _ h := (ite_some h).1

/-- `name` is `-` for `stdin` in SND, while the other formats look for a file of that name. -/
def soundOpenFileForReading (fuel : Nat) (file : Option (List UInt8)) (stdin : List UInt8) (h : Heap Block) :
    Exec (Heap Block × Bool) :=
  if host.mem 40 then
    let piped := name == [45]
    tryFormats h.next [
      (.snd, tryFormat host (sndReader host name piped) sndToSound name piped fuel (if piped then some stdin else file)),
      (.voc, tryFormat host (vocReader host name) vocToSound name false fuel file),
      (.wave, tryFormat host (waveReader host name) waveToSound name false fuel file),
      (.aiff, tryFormat host (aiffReader host name) aiffToSound name false fuel file),
      (.svx, tryFormat host (svxReader host name) svxToSound name false fuel file)] (h.alloc (.sound {}))
  else .ok (h, false)

end

/-! ### What is held -/

/-- Nothing goes. -/
def Grows (b b' : Nat → Option Block) : Prop := ∀ q, b q ≠ none → b' q = b q

/-- Memory in which a format holds its record, its stream and a comment, apart from what is in `b`. -/
structure Held (b : Nat → Option Block) (h : Heap Block) (i : Nat) (fp : Option File) (c : Option Nat) : Prop where
  info : h.get i = some (.info { fp, comment := c })
  stream : ∀ f, fp = some (.opened f) → h.get f = some .stream
  text : ∀ p, c = some p → h.get p = some .text
  own : ∀ q, q = i ∨ fp = some (.opened q) ∨ c = some q → b q = none
  rest : ∀ q, q ≠ i → fp ≠ some (.opened q) → c ≠ some q → h.get q = b q

/-- A comment that nothing points to any more. -/
def leak (b : Nat → Option Block) (c : Option Nat) (q : Nat) : Option Block := if c = some q then some .text else b q

section
variable {b b₁ b₂ : Nat → Option Block} {h : Heap Block} {i p : Nat} {fp : Option File} {c : Option Nat}

theorem Grows.refl : Grows b b := fun _ _ => rfl

theorem Grows.trans (h₁ : Grows b b₁) (h₂ : Grows b₁ b₂) : Grows b b₂ := fun q hq => by
  rw [h₂ q (by rwa [h₁ q hq]), h₁ q hq]

theorem Grows.eq_iff (h₁ : Grows b b₁) (h₂ : Grows b₁ b₂) : b₂ = b ↔ b₁ = b ∧ b₂ = b₁ := by
  constructor
  · rintro rfl
    have heq : b₁ = b₂ := by
      funext q
      by_cases hq : b₁ q = none
      · rw [hq]
        by_contra hne
        exact hne ((h₁ q (Ne.symm hne)).symm.trans hq).symm
      · exact (h₂ q hq).symm
    exact ⟨heq, heq.symm⟩
  · rintro ⟨rfl, rfl⟩
    rfl

theorem Held.file_ne (hh : Held b h i fp c) {f : Nat} (hf : fp = some (.opened f)) : f ≠ i ∧ c ≠ some f := by
  have hs := hh.stream f hf
  refine ⟨fun he => ?_, fun he => ?_⟩
  · rw [he, hh.info] at hs
    cases hs
  · rw [hh.text f he] at hs
    cases hs

theorem Held.comment_ne (hh : Held b h i fp c) (hc : c = some p) : p ≠ i := by
  rintro rfl
  have ht := hh.text p hc
  rw [hh.info] at ht
  cases ht

theorem closeStream_ok (hs : ∀ f, fp = some (.opened f) → h.get f = some .stream) :
    ∃ h', closeStream h fp = .ok h' ∧ ∀ q, h'.get q = if fp = some (.opened q) then none else h.get q := by
  rcases fp with _ | _ | f
  · exact ⟨h, rfl, fun q => by simp⟩
  · exact ⟨h, rfl, fun q => by simp⟩
  · refine ⟨h.free f, ?_, fun q => ?_⟩
    · show fclose h f = _
      unfold fclose
      rw [hs f rfl]
    · rw [Heap.get_free]
      by_cases hq : q = f
      · simp [hq]
      · rw [if_neg hq, if_neg (by simpa using Ne.symm hq)]

theorem free_ok {x : Block} (hp : h.get p = some x) (hx : x ≠ .stream) : free h p = .ok (h.free p) := by
  unfold free
  rw [hp]
  cases x with
  | stream => exact absurd rfl hx
  | _ => rfl

theorem freeComment_ok (ht : ∀ p, c = some p → h.get p = some .text) :
    ∃ h', freeComment h c = .ok h' ∧ ∀ q, h'.get q = if c = some q then none else h.get q := by
  rcases c with _ | p
  · exact ⟨h, rfl, fun q => by simp⟩
  · refine ⟨h.free p, free_ok (ht p rfl) (by simp), fun q => ?_⟩
    rw [Heap.get_free]
    by_cases hq : q = p
    · simp [hq]
    · rw [if_neg hq, if_neg (by simpa using Ne.symm hq)]

theorem infoAt_ok {r : InfoRec} (hi : h.get i = some (.info r)) : infoAt h i = .ok r := by
  unfold infoAt
  rw [hi]

theorem soundAt_ok {r : SoundRec} (hp : h.get p = some (.sound r)) : soundAt h p = .ok r := by
  unfold soundAt
  rw [hp]

/-- Closing frees the three, and nothing else. -/
theorem Held.closeFile (hh : Held b h i fp c) : ∃ h', closeFile h i = .ok h' ∧ h'.get = b := by
  unfold Ownership.closeFile
  rw [infoAt_ok hh.info, Exec.ok_bind]
  obtain ⟨h₁, he₁, hget₁⟩ := closeStream_ok hh.stream
  have htext : ∀ p, c = some p → h₁.get p = some .text := fun p hp => by
    rw [hget₁, if_neg fun hf => (hh.file_ne hf).2 hp]
    exact hh.text p hp
  obtain ⟨h₂, he₂, hget₂⟩ := freeComment_ok htext
  have hinfo : h₂.get i = some (.info { fp, comment := c }) := by
    rw [hget₂, if_neg fun hc => hh.comment_ne hc rfl, hget₁, if_neg fun hf => (hh.file_ne hf).1 rfl]
    exact hh.info
  rw [he₁, Exec.ok_bind, he₂, Exec.ok_bind]
  refine ⟨_, free_ok hinfo (by simp), ?_⟩
  funext q
  rw [Heap.get_free, hget₂, hget₁]
  split_ifs with hi hc hf
  · exact (hh.own q (.inl hi)).symm
  · exact (hh.own q (.inr (.inr hc))).symm
  · exact (hh.own q (.inr (.inl hf))).symm
  · exact hh.rest q hi hf hc

theorem Held.leak_eq_iff (hh : Held b h i fp c) : leak b c = b ↔ c = none := by
  constructor
  · intro he
    rcases c with _ | p
    · rfl
    · have hp := congrFun he p
      rw [leak, if_pos rfl, hh.own p (.inr (.inr rfl))] at hp
      cases hp
  · rintro rfl
    funext q
    rw [leak, if_neg (by simp)]

theorem Held.grows_leak (hh : Held b h i fp c) : Grows b (leak b c) := fun q hq => by
  rw [leak, if_neg fun hc => hq (hh.own q (.inr (.inr hc)))]

/-- An address that has not been given out. -/
theorem Held.fresh (hh : Held b h i fp c) : b h.next = none ∧ h.next ≠ i ∧ fp ≠ some (.opened h.next) ∧ c ≠ some h.next := by
  have hnone : h.get h.next = none := h.fresh h.next le_rfl
  have hi : h.next ≠ i := fun he => by
    rw [he, hh.info] at hnone
    cases hnone
  have hf : fp ≠ some (.opened h.next) := fun he => by
    rw [hh.stream _ he] at hnone
    cases hnone
  have hc : c ≠ some h.next := fun he => by
    rw [hh.text _ he] at hnone
    cases hnone
  exact ⟨(hh.rest _ hi hf hc).symm.trans hnone, hi, hf, hc⟩

/-- The record's comment is replaced: the old one is lost. -/
theorem Held.setComment (hh : Held b h i fp c) (host : Host) (n : Nat) : ∃ h' c',
    setComment host i n h = .ok h' ∧ Held (leak b c) h' i fp c' ∧ (host.mem n = true → c'.isSome) := by
  obtain ⟨hb, hi, hf, hc⟩ := hh.fresh
  have hown : ∀ q, q = i ∨ fp = some (.opened q) → leak b c q = none := fun q hq => by
    rw [leak, if_neg]
    · exact hh.own q (hq.imp_right .inl)
    · rcases hq with rfl | hq
      · exact fun he => hh.comment_ne he rfl
      · exact (hh.file_ne hq).2
  have hrest : ∀ q, q ≠ i → fp ≠ some (.opened q) → h.get q = leak b c q := fun q h₁ h₂ => by
    unfold leak
    split_ifs with h₃
    · exact hh.text q h₃
    · exact hh.rest q h₁ h₂ h₃
  unfold Ownership.setComment
  rw [infoAt_ok hh.info, Exec.ok_bind]
  split_ifs with hmem
  · refine ⟨_, some h.next, rfl, ⟨?_, ?_, ?_, ?_, ?_⟩, fun _ => rfl⟩
    · rw [Heap.get_modify_self, Heap.get_alloc, if_neg (Ne.symm hi), hh.info]
      rfl
    · intro f hfp
      have hne : f ≠ h.next := fun he => hf (he ▸ hfp)
      rw [Heap.get_modify, if_neg (hh.file_ne hfp).1, Heap.get_alloc, if_neg hne]
      exact hh.stream f hfp
    · rintro p hp
      cases hp
      rw [Heap.get_modify, if_neg hi, Heap.get_alloc, if_pos rfl]
    · rintro q (hq | hq | hq)
      · exact hown q (.inl hq)
      · exact hown q (.inr hq)
      · cases hq
        rw [leak, if_neg hc]
        exact hb
    · intro q h₁ h₂ h₃
      have hne : q ≠ h.next := fun he => h₃ (by rw [he])
      rw [Heap.get_modify, if_neg h₁, Heap.get_alloc, if_neg hne]
      exact hrest q h₁ h₂
  · refine ⟨_, none, rfl, ⟨?_, ?_, ?_, ?_, ?_⟩, fun hc => absurd hc hmem⟩
    · rw [Heap.get_modify_self, hh.info]
      rfl
    · intro f hfp
      rw [Heap.get_modify, if_neg (hh.file_ne hfp).1]
      exact hh.stream f hfp
    · rintro p ⟨⟩
    · rintro q (hq | hq | hq)
      · exact hown q (.inl hq)
      · exact hown q (.inr hq)
      · cases hq
    · intro q h₁ h₂ h₃
      rw [Heap.get_modify, if_neg h₁]
      exact hrest q h₁ h₂

end

/-! ### Reading -/

namespace Reader
variable {host : Host} {σ α : Type} (r : Reader host σ α) {s t : σ}

/-- A turn of the walk comes to a comment. -/
def Comes (s : σ) : Prop := ∃ n t, after r.turn n s = some t ∧ (r.mallocs t).isSome

/-- So do two turns. -/
def ComesTwice (s : σ) : Prop := ∃ m n t u, m < n ∧ after r.turn m s = some t ∧ after r.turn n s = some u ∧
  (r.mallocs t).isSome ∧ (r.mallocs u).isSome

/-- A file has two comments as far as the reader follows it. -/
def TwoComments (file : Option (List UInt8)) : Prop := ∃ bytes s, file = some bytes ∧ r.start bytes = some s ∧ r.ComesTwice s

variable {r}

theorem comes_goes (h : Goes r.turn s t) : r.Comes s ↔ (r.mallocs s).isSome ∨ r.Comes t := by
  constructor
  · rintro ⟨_ | n, u, hu, hm⟩
    · cases hu
      exact .inl hm
    · rw [after_goes h] at hu
      exact .inr ⟨n, u, hu, hm⟩
  · rintro (hm | ⟨n, u, hu, hm⟩)
    · exact ⟨0, s, rfl, hm⟩
    · exact ⟨n + 1, u, by rw [after_goes h]; exact hu, hm⟩

theorem comes_stays (h : ∀ t, ¬ Goes r.turn s t) : r.Comes s ↔ (r.mallocs s).isSome := by
  constructor
  · rintro ⟨_ | n, u, hu, hm⟩
    · cases hu
      exact hm
    · rw [after_stays h] at hu
      cases hu
  · exact fun hm => ⟨0, s, rfl, hm⟩

theorem comesTwice_goes (h : Goes r.turn s t) :
    r.ComesTwice s ↔ ((r.mallocs s).isSome ∧ r.Comes t) ∨ r.ComesTwice t := by
  constructor
  · rintro ⟨m, n, u, v, hmn, hu, hv, hmu, hmv⟩
    obtain ⟨n, rfl⟩ : ∃ k, n = k + 1 := ⟨n - 1, by omega⟩
    rw [after_goes h] at hv
    rcases m with _ | m
    · cases hu
      exact .inl ⟨hmu, n, v, hv, hmv⟩
    · rw [after_goes h] at hu
      exact .inr ⟨m, n, u, v, by omega, hu, hv, hmu, hmv⟩
  · rintro (⟨hm, n, v, hv, hmv⟩ | ⟨m, n, u, v, hmn, hu, hv, hmu, hmv⟩)
    · exact ⟨0, n + 1, s, v, by omega, rfl, by rw [after_goes h]; exact hv, hm, hmv⟩
    · exact ⟨m + 1, n + 1, u, v, by omega, by rw [after_goes h]; exact hu, by rw [after_goes h]; exact hv, hmu, hmv⟩

theorem comesTwice_stays (h : ∀ t, ¬ Goes r.turn s t) : ¬ r.ComesTwice s := by
  rintro ⟨m, n, u, v, hmn, -, hv, -, -⟩
  obtain ⟨n, rfl⟩ : ∃ k, n = k + 1 := ⟨n - 1, by omega⟩
  rw [after_stays h] at hv
  cases hv

end Reader

section
variable {host : Host} {σ α : Type} {r : Reader host σ α} {b : Nat → Option Block} {h h' : Heap Block} {i : Nat}
  {fp : Option File} {c : Option Nat} {s : σ}

/-- What a turn does to memory. -/
theorem Held.turnWith (hh : Held b h i fp c) (s : σ) : ∃ b₁ h₁ c₁,
    r.turnWith host i (s, h) = (do
      match ← r.turn s with
      | .next t => .ok (.next (t, h₁))
      | .stop a => .ok (.stop (a, h₁))) ∧
    Held b₁ h₁ i fp c₁ ∧ Grows b b₁ ∧ (b₁ = b ↔ ¬ ((r.mallocs s).isSome ∧ c.isSome)) ∧
      ∀ t, Goes r.turn s t → (c₁.isSome ↔ c.isSome ∨ (r.mallocs s).isSome) := by
  unfold Reader.turnWith
  rcases hm : r.mallocs s with _ | n
  · exact ⟨b, h, c, rfl, hh, .refl, by simp, fun t _ => by simp⟩
  · obtain ⟨h₁, c₁, he, hh₁, hmem⟩ := hh.setComment host n
    refine ⟨leak b c, h₁, c₁, ?_, hh₁, hh.grows_leak, ?_, fun t ht => ?_⟩
    · dsimp only
      rw [he]
      rfl
    · rw [hh.leak_eq_iff]
      simp
    · simp [hmem (r.mem s t n ht hm)]

/-- What a walk does to memory. -/
theorem Held.loop {fuel : Nat} {a : Option α} (hh : Held b h i fp c)
    (he : Turn.loop (r.turnWith host i) fuel (s, h) = .ok (a, h')) : Turn.loop r.turn fuel s = .ok a ∧
      ∃ b' c', Held b' h' i fp c' ∧ Grows b b' ∧ (b' = b ↔ ¬ (c.isSome ∧ r.Comes s) ∧ ¬ r.ComesTwice s) := by
  induction fuel generalizing s h b c with
  | zero => cases he
  | succ fuel ih =>
    obtain ⟨b₁, h₁, c₁, hturn, hh₁, hgrows, hb₁, hc₁⟩ := hh.turnWith (r := r) s
    rw [Turn.loop, hturn] at he
    rw [Turn.loop]
    rcases hs : r.turn s with e | (t | a')
    · rw [hs] at he
      cases he
    · have hgoes : Goes r.turn s t := hs
      rw [hs] at he
      obtain ⟨hloop, b', c', hh', hgrows', hb'⟩ := ih hh₁ he
      refine ⟨hloop, b', c', hh', hgrows.trans hgrows', ?_⟩
      rw [hgrows.eq_iff hgrows', hb₁, hb', Reader.comes_goes hgoes, Reader.comesTwice_goes hgoes, hc₁ t hgoes]
      grind
    · have hstays : ∀ t, ¬ Goes r.turn s t := fun t ht => by
        rw [Goes, hs] at ht
        cases ht
      rw [hs] at he
      cases he
      refine ⟨rfl, b₁, c₁, hh₁, hgrows, ?_⟩
      rw [hb₁, Reader.comes_stays hstays, and_iff_left (Reader.comesTwice_stays hstays), and_comm]

theorem held_alloc : Held h.get (h.alloc (.info {})) h.next none none where
  info := by rw [Heap.get_alloc, if_pos rfl]
  stream f hf := by cases hf
  text p hp := by cases hp
  own := by
    rintro q (rfl | hq | hq)
    · exact h.fresh _ le_rfl
    · cases hq
    · cases hq
  rest q hq _ _ := by rw [Heap.get_alloc, if_neg hq]

theorem Held.file_set (hh : Held b h i none c) (fp : Option File) (hfp : ∀ f, fp = some (.opened f) → False) :
    Held b (h.modify i fun _ => .info { fp, comment := c }) i fp c where
  info := by
    rw [Heap.get_modify_self, hh.info]
    rfl
  stream f hf := absurd hf (hfp f)
  text p hp := by
    rw [Heap.get_modify, if_neg (hh.comment_ne hp)]
    exact hh.text p hp
  own := by
    rintro q (hq | hq | hq)
    · exact hh.own q (.inl hq)
    · exact absurd hq (hfp q)
    · exact hh.own q (.inr (.inr hq))
  rest q hq _ hc := by
    rw [Heap.get_modify, if_neg hq]
    exact hh.rest q hq (by simp) hc

theorem Held.file_opened (hh : Held b h i none c) : Held b
    ((h.alloc .stream).modify i fun _ => .info { fp := some (.opened h.next), comment := c }) i (some (.opened h.next)) c := by
  obtain ⟨hb, hi, -, hc⟩ := hh.fresh
  constructor
  · rw [Heap.get_modify_self, Heap.get_alloc, if_neg (Ne.symm hi), hh.info]
    rfl
  · intro f hf
    cases hf
    rw [Heap.get_modify, if_neg hi, Heap.get_alloc, if_pos rfl]
  · intro p hp
    have hne : p ≠ h.next := fun he => hc (he ▸ hp)
    rw [Heap.get_modify, if_neg (hh.comment_ne hp), Heap.get_alloc, if_neg hne]
    exact hh.text p hp
  · rintro q (hq | hq | hq)
    · exact hh.own q (.inl hq)
    · cases hq
      exact hb
    · exact hh.own q (.inr (.inr hq))
  · intro q hq hf hc'
    have hne : q ≠ h.next := fun he => hf (by rw [he])
    rw [Heap.get_modify, if_neg hq, Heap.get_alloc, if_neg hne]
    exact hh.rest q hq (by simp) hc'

theorem Held.nameComment {name : List UInt8} (hh : Held b h i fp c) (he : nameComment host name i h = .ok h') :
    ∃ c', Held b h' i fp c' := by
  unfold Ownership.nameComment at he
  rw [infoAt_ok hh.info, Exec.ok_bind] at he
  rcases c with _ | c <;> rcases hl : fileCommentFromFilename host name with _ | l <;> rw [hl] at he <;> dsimp only at he
  · cases he
    exact ⟨none, hh⟩
  · obtain ⟨h₁, c₁, hset, hh₁, -⟩ := hh.setComment host l.length
    rw [hset] at he
    cases he
    rw [hh.leak_eq_iff.2 rfl] at hh₁
    exact ⟨c₁, hh₁⟩
  · cases he
    exact ⟨some c, hh⟩
  · cases he
    exact ⟨some c, hh⟩

/-- What a format leaves behind: nothing of its own, or an open file. -/
def Left (b : Nat → Option Block) (h : Heap Block) : Option Nat → Prop
  | none => h.get = b
  | some i => ∃ fp c, Held b h i fp c

/-- The result of a reader, as `SoundReaders` has it. -/
def Reader.read (r : Reader host σ α) (fuel : Nat) : Option (List UInt8) → Exec (Option α)
  | none => .ok none
  | some bytes => walk r.turn fuel (r.start bytes)

theorem openFileForReading_left {name : List UInt8} {standard : Bool} {fuel : Nat} {file : Option (List UInt8)}
    {x : Option (Nat × α)} (he : r.openFileForReading host name standard fuel file h = .ok (h', x)) :
    r.read fuel file = .ok (x.map Prod.snd) ∧
      ∃ b, Grows h.get b ∧ (b = h.get ↔ ¬ r.TwoComments file) ∧ Left b h' (x.map Prod.fst) := by
  unfold Reader.openFileForReading at he
  by_cases hmem : host.mem r.infoSize = true
  · rw [if_pos hmem] at he
    rcases file with _ | bytes
    · obtain ⟨h₁, hclose, hget⟩ := (held_alloc (h := h)).closeFile
      dsimp only at he
      rw [hclose] at he
      cases he
      refine ⟨rfl, h.get, .refl, ?_, hget⟩
      simp [Reader.TwoComments]
    · have hopen : ∃ g fp, (if standard then (h.alloc (.info {})).modify h.next fun _ => Block.info { fp := some .standard }
          else ((h.alloc (.info {})).alloc .stream).modify h.next fun _ =>
            Block.info { fp := some (.opened (h.alloc (.info {})).next) }) = g ∧ Held h.get g h.next fp none := by
        cases standard with
        | true => exact ⟨_, _, rfl, held_alloc.file_set _ fun f hf => by cases hf⟩
        | false => exact ⟨_, _, rfl, held_alloc.file_opened⟩
      obtain ⟨g, fp, hg, hh⟩ := hopen
      dsimp only at he
      rw [hg] at he
      rcases hstart : r.start bytes with _ | s
      · obtain ⟨h₁, hclose, hget⟩ := hh.closeFile
        rw [hstart] at he
        dsimp only at he
        rw [hclose] at he
        cases he
        refine ⟨?_, h.get, .refl, ?_, hget⟩
        · rw [Reader.read, hstart]
          rfl
        · simp [Reader.TwoComments, hstart]
      · rw [hstart] at he
        dsimp only at he
        obtain ⟨⟨a, h₁⟩, hloop, he⟩ := Exec.bind_eq_ok.1 he
        obtain ⟨hread, b', c', hh', hgrows, hb'⟩ := hh.loop hloop
        have htwo : b' = h.get ↔ ¬ r.TwoComments (some bytes) := by
          rw [hb']
          simp [Reader.TwoComments, hstart]
        have hwalk : r.read fuel (some bytes) = .ok a := by
          rw [Reader.read, hstart]
          exact hread
        rcases a with _ | a
        · obtain ⟨h₂, hclose, hget⟩ := hh'.closeFile
          dsimp only at he
          rw [hclose] at he
          cases he
          exact ⟨hwalk, b', hgrows, htwo, hget⟩
        · dsimp only at he
          obtain ⟨h₂, hname, he⟩ := Exec.bind_eq_ok.1 he
          obtain ⟨c₂, hh₂⟩ := hh'.nameComment hname
          cases he
          exact ⟨hwalk, b', hgrows, htwo, fp, c₂, hh₂⟩
  · rw [if_neg hmem] at he
    cases he
    have hstart : ∀ bytes, r.start bytes = none := fun bytes => by
      rcases hs : r.start bytes with _ | s
      · rfl
      · exact absurd (r.start_mem bytes s hs) hmem
    refine ⟨?_, h.get, .refl, ⟨fun _ => ?_, fun _ => rfl⟩, rfl⟩
    · rcases file with _ | bytes
      · rfl
      · rw [Reader.read, hstart]
        rfl
    · rintro ⟨bytes, s, -, hs, -⟩
      rw [hstart] at hs
      cases hs

/-- What trying a format does: it goes on from its result, and leaves everything as it was if `P`. -/
def Tries (o : Heap Block → Exec (Heap Block × Option (Nat × Bool))) (read : Exec (Option Bool)) (P : Prop) : Prop :=
  ∀ h h' x, o h = .ok (h', x) → read = .ok (x.map Prod.snd) ∧
    ∃ b, Grows h.get b ∧ (b = h.get ↔ P) ∧ Left b h' (x.map Prod.fst)

/-- Whether a reader opens a file and a sound is made from it. -/
def Reader.made (r : Reader host σ α) (toSound : α → Exec (Option Sound)) (fuel : Nat) (file : Option (List UInt8)) :
    Exec (Option Bool) := do
  match ← openAs (r.read fuel file) toSound with
  | none => return none
  | some s => return some s.isSome

theorem tryFormat_tries {toSound : α → Exec (Option Sound)} {name : List UInt8} {standard : Bool} {fuel : Nat}
    {file : Option (List UInt8)} : Tries (tryFormat host r toSound name standard fuel file) (r.made toSound fuel file)
      (¬ r.TwoComments file) := by
  intro h h' x he
  obtain ⟨⟨h₁, y⟩, hopen, he⟩ := Exec.bind_eq_ok.1 he
  obtain ⟨hread, b, hgrows, hb, hleft⟩ := openFileForReading_left hopen
  unfold Reader.made openAs
  rw [hread]
  rcases y with _ | ⟨i, a⟩
  · cases he
    exact ⟨rfl, b, hgrows, hb, hleft⟩
  · obtain ⟨s, hs, he⟩ := Exec.bind_eq_ok.1 he
    cases he
    refine ⟨?_, b, hgrows, hb, hleft⟩
    dsimp only [Option.map_some, Exec.ok_bind]
    rw [hs]
    rfl

/-- A format that makes a sound of each file it opens. -/
theorem made_ne {toSound : α → Exec (Option Sound)} (hsome : ∀ a, toSound a ≠ .ok none) {fuel : Nat}
    {file : Option (List UInt8)} : r.made toSound fuel file ≠ .ok (some false) := by
  intro he
  obtain ⟨x, hx, he⟩ := Exec.bind_eq_ok.1 he
  rcases x with _ | s
  · cases he
  · obtain ⟨y, -, hy⟩ := Exec.bind_eq_ok.1 hx
    rcases y with _ | a
    · cases hy
    · obtain ⟨s', hs', hy⟩ := Exec.bind_eq_ok.1 hy
      cases hy
      rcases s with _ | s
      · exact hsome a hs'
      · cases he

theorem made_isSome {toSound : α → Exec (Option Sound)} {fuel : Nat} {file : Option (List UInt8)} {x : Option Bool}
    (he : r.made toSound fuel file = .ok x) : ∃ y, r.read fuel file = .ok y ∧ (y.isSome ↔ x.isSome) := by
  obtain ⟨z, hz, he⟩ := Exec.bind_eq_ok.1 he
  obtain ⟨y, hy, hz⟩ := Exec.bind_eq_ok.1 hz
  refine ⟨y, hy, ?_⟩
  rcases y with _ | a
  · cases hz
    cases he
    rfl
  · obtain ⟨s, -, hz⟩ := Exec.bind_eq_ok.1 hz
    cases hz
    cases he
    rfl

theorem waveToSound_ne (a : WaveInfo) : waveToSound a ≠ .ok none := fun h => by cases h

theorem aiffToSound_ne (a : AiffInfo) : aiffToSound a ≠ .ok none := fun h => by cases h

theorem svxToSound_ne (a : SvxInfo) : svxToSound a ≠ .ok none := fun h => by cases h

theorem vocToSound_ne (a : VocInfo) : vocToSound a ≠ .ok none := by
  unfold vocToSound
  split_ifs <;> simp

/-- None of some formats opens the file. -/
theorem tryFormats_left {p : Nat} {l : List (FileFormat × (Heap Block → Exec (Heap Block × Option (Nat × Bool))))}
    {Ps : List Prop} (hl : List.Forall₂ (fun x P => ∃ read, Tries x.2 read P ∧ read ≠ .ok (some false)) l Ps)
    (hp : h.get p = some (.sound {})) (he : tryFormats p l h = .ok (h', false)) :
    ∃ b, Grows h.get b ∧ (∀ q, h'.get q = if q = p then none else b q) ∧ (b = h.get ↔ ∀ P ∈ Ps, P) := by
  induction hl generalizing h with
  | nil =>
    have hclose : soundCloseFile h p = .ok (h.free p) := by
      unfold soundCloseFile
      rw [soundAt_ok hp]
      exact free_ok hp (by simp)
    rw [tryFormats, hclose] at he
    cases he
    exact ⟨h.get, .refl, fun q => Heap.get_free, by simp⟩
  | cons hhead _ ih =>
    obtain ⟨read, htries, hne⟩ := hhead
    rw [tryFormats] at he
    obtain ⟨⟨h₁, y⟩, ho, he⟩ := Exec.bind_eq_ok.1 he
    obtain ⟨hread, b₁, hgrows₁, hb₁, hleft⟩ := htries h h₁ y ho
    rcases y with _ | ⟨i, made⟩
    · have hget : h₁.get = b₁ := hleft
      have hp₁ : h₁.get p = some (.sound {}) := by
        rw [hget, hgrows₁ p (by rw [hp]; simp), hp]
      obtain ⟨b, hgrows, hfree, hb⟩ := ih hp₁ he
      rw [hget] at hgrows hb
      refine ⟨b, hgrows₁.trans hgrows, hfree, ?_⟩
      rw [hgrows₁.eq_iff hgrows, hb₁, hb, List.forall_mem_cons]
    · cases made with
      | false => exact absurd hread hne
      | true =>
        obtain ⟨info, -, he⟩ := Exec.bind_eq_ok.1 he
        cases he

/-- The sound is freed with what its format holds. -/
theorem Held.soundCloseFile {p : Nat} (hh : Held b h i fp c) (hp : b p = some (.sound {})) (f : FileFormat) :
    ∃ h', soundCloseFile (h.modify p fun _ => .sound { fileFormat := some f, formatInfo := some i }) p = .ok h' ∧
      ∀ q, h'.get q = if q = p then none else b q := by
  have hown : ∀ q, q = i ∨ fp = some (.opened q) ∨ c = some q → q ≠ p := fun q hq he => by
    have hnone := hh.own q hq
    rw [he, hp] at hnone
    cases hnone
  have hget : h.get p = b p := hh.rest p (fun he => hown p (.inl he) rfl) (fun he => hown p (.inr (.inl he)) rfl)
    (fun he => hown p (.inr (.inr he)) rfl)
  have hheld : Held (Function.update b p (some (.sound { fileFormat := some f, formatInfo := some i })))
      (h.modify p fun _ => .sound { fileFormat := some f, formatInfo := some i }) i fp c := by
    constructor
    · rw [Heap.get_modify, if_neg (hown i (.inl rfl))]
      exact hh.info
    · intro q hq
      rw [Heap.get_modify, if_neg (hown q (.inr (.inl hq)))]
      exact hh.stream q hq
    · intro q hq
      rw [Heap.get_modify, if_neg (hown q (.inr (.inr hq)))]
      exact hh.text q hq
    · intro q hq
      rw [Function.update_of_ne (hown q hq)]
      exact hh.own q hq
    · intro q h₁ h₂ h₃
      rw [Heap.get_modify, Function.update_apply]
      split_ifs with hqp
      · rw [hqp, hget, hp]
        rfl
      · exact hh.rest q h₁ h₂ h₃
  obtain ⟨h₁, hclose, hget₁⟩ := hheld.closeFile
  have hsound : (h.modify p fun _ => Block.sound { fileFormat := some f, formatInfo := some i }).get p =
      some (.sound { fileFormat := some f, formatInfo := some i }) := by
    rw [Heap.get_modify_self, hget, hp]
    rfl
  have hp₁ : h₁.get p = some (.sound { fileFormat := some f, formatInfo := some i }) := by
    rw [hget₁, Function.update_self]
  unfold Ownership.soundCloseFile
  rw [soundAt_ok hsound, Exec.ok_bind]
  dsimp only
  rw [Option.isSome_some, if_pos rfl, hclose, Exec.ok_bind]
  refine ⟨_, free_ok hp₁ (by simp), fun q => ?_⟩
  rw [Heap.get_free, hget₁]
  split_ifs with hq
  · rfl
  · rw [Function.update_of_ne hq]

end

section
variable (host : Host) (name : List UInt8)

/-- What SND reads. -/
def sndFile (file : Option (List UInt8)) (stdin : List UInt8) : Option (List UInt8) := if name == [45] then some stdin else file

/-- Where SND does not open the file, no other reader comes to a comment behind another one. -/
def OneComment (file : Option (List UInt8)) (stdin : List UInt8) : Prop :=
  host.mem 40 = true →
  (∀ bytes si, sndFile name file stdin = some bytes → host.mem 48 = true →
    sndRead host name (name == [45]) bytes ≠ .ok (some si)) →
  ¬ (vocReader host name).TwoComments file ∧ ¬ (waveReader host name).TwoComments file ∧
    ¬ (aiffReader host name).TwoComments file ∧ ¬ (svxReader host name).TwoComments file

end

section
variable {host : Host} {name : List UInt8} {file : Option (List UInt8)} {stdin : List UInt8} {h h' : Heap Block} {fuel : Nat}

theorem sndReader_read {piped : Bool} {x : Option SndInfo} (he : (sndReader host name piped).read fuel file = .ok x) :
    x.isSome ↔ ∃ bytes si, file = some bytes ∧ host.mem 48 = true ∧ sndRead host name piped bytes = .ok (some si) := by
  rcases file with _ | bytes
  · cases he
    simp
  · unfold Reader.read sndReader at he
    dsimp only at he
    split_ifs at he with hmem
    · obtain _ | fuel := fuel
      · cases he
      · rw [walk, Turn.loop] at he
        rcases hs : sndRead host name piped bytes with e | y
        · rw [hs] at he
          cases he
        · rw [hs] at he
          cases he
          rcases x with _ | si
          · simp [hs]
          · simp [hs, hmem]
    · cases he
      simp [hmem]

theorem sndReader_once {piped : Bool} : ¬ (sndReader host name piped).TwoComments file := by
  rintro ⟨bytes, s, -, -, h⟩
  refine Reader.comesTwice_stays (fun t ht => ?_) h
  obtain ⟨a, -, ha⟩ := Exec.map_eq_ok.1 ht
  cases ha

/-- A file that cannot be opened for reading leaves nothing behind, unless a comment was lost. -/
theorem reading_frees_iff
    (he : soundOpenFileForReading host name fuel file stdin h = .ok (h', false)) :
    h'.get = h.get ↔ OneComment host name file stdin := by
  unfold soundOpenFileForReading at he
  split_ifs at he with hmem
  · set p := h.next with hp
    have hsound : (h.alloc (.sound {})).get p = some (.sound {}) := by rw [Heap.get_alloc, if_pos hp]
    have hback : ∀ b, (∀ q, h'.get q = if q = p then none else b q) → Grows (h.alloc (.sound {})).get b →
        (h'.get = h.get ↔ b = (h.alloc (.sound {})).get) := by
      intro b hfree hgrows
      constructor
      · intro heq
        funext q
        by_cases hq : q = p
        · rw [hq, hgrows p (by rw [hsound]; simp)]
        · have := hfree q
          rw [if_neg hq, heq] at this
          rw [Heap.get_alloc, if_neg hq, this]
      · intro heq
        funext q
        rw [hfree, heq, Heap.get_alloc]
        split_ifs with hq
        · rw [hq, h.fresh p le_rfl]
        · rfl
    rw [tryFormats] at he
    obtain ⟨⟨h₁, y⟩, ho, he⟩ := Exec.bind_eq_ok.1 he
    obtain ⟨hread, b₁, hgrows₁, hb₁, hleft⟩ := tryFormat_tries _ _ _ ho
    have hb₁ := hb₁.2 sndReader_once
    rcases y with _ | ⟨i, made⟩
    · have hget : h₁.get = (h.alloc (.sound {})).get := hleft.trans hb₁
      have hall : List.Forall₂ (fun (x : FileFormat × (Heap Block → Exec (Heap Block × Option (Nat × Bool)))) P =>
          ∃ read, Tries x.2 read P ∧ read ≠ .ok (some false))
          [(.voc, tryFormat host (vocReader host name) vocToSound name false fuel file),
            (.wave, tryFormat host (waveReader host name) waveToSound name false fuel file),
            (.aiff, tryFormat host (aiffReader host name) aiffToSound name false fuel file),
            (.svx, tryFormat host (svxReader host name) svxToSound name false fuel file)]
          [¬ (vocReader host name).TwoComments file, ¬ (waveReader host name).TwoComments file,
            ¬ (aiffReader host name).TwoComments file, ¬ (svxReader host name).TwoComments file] :=
        .cons ⟨_, tryFormat_tries, made_ne vocToSound_ne⟩
          (.cons ⟨_, tryFormat_tries, made_ne waveToSound_ne⟩
            (.cons ⟨_, tryFormat_tries, made_ne aiffToSound_ne⟩
              (.cons ⟨_, tryFormat_tries, made_ne svxToSound_ne⟩ .nil)))
      obtain ⟨b, hgrows, hfree, hb⟩ := tryFormats_left hall (hget ▸ hsound) he
      rw [hget] at hgrows hb
      have hclosed : ∀ bytes si, sndFile name file stdin = some bytes → host.mem 48 = true →
          sndRead host name (name == [45]) bytes ≠ .ok (some si) := fun bytes si h₁ h₂ h₃ => by
        obtain ⟨x, hx, hsome⟩ := made_isSome hread
        exact absurd (hsome.1 ((sndReader_read hx).2 ⟨bytes, si, h₁, h₂, h₃⟩)) (by simp)
      rw [hback b hfree hgrows, hb]
      simp only [List.forall_mem_cons, List.not_mem_nil, false_imp_iff, implies_true, and_true]
      exact ⟨fun hall _ _ => hall, fun hone => hone hmem hclosed⟩
    · have hopened : ∃ bytes si, sndFile name file stdin = some bytes ∧ host.mem 48 = true ∧
          sndRead host name (name == [45]) bytes = .ok (some si) := by
        obtain ⟨x, hx, hsome⟩ := made_isSome hread
        exact (sndReader_read hx).1 (hsome.2 rfl)
      cases made with
      | true =>
        obtain ⟨info, -, he⟩ := Exec.bind_eq_ok.1 he
        cases he
      | false =>
        obtain ⟨fp, c, hheld⟩ := hleft
        obtain ⟨h₂, hclose, hfree⟩ := hheld.soundCloseFile (p := p) (by rw [hb₁, hsound]) .snd
        dsimp only at he
        rw [if_neg Bool.false_ne_true, hclose] at he
        cases he
        refine iff_of_true ((hback b₁ hfree hgrows₁).2 hb₁) fun _ hnot => ?_
        obtain ⟨bytes, si, h₁, h₂, h₃⟩ := hopened
        exact absurd h₃ (hnot bytes si h₁ h₂)
  · cases he
    refine iff_of_true rfl fun hm => absurd hm hmem

end

/-! ### Writing -/

section
variable {host : Host} {s : NewSound} {h h₁ h₂ : Heap Block} {p : Nat}

/-- Memory with a sound in it. -/
def withSound (b : Nat → Option Block) (p : Nat) (r : SoundRec) (q : Nat) : Option Block :=
  if q = p then some (.sound r) else b q

/-- Three allocations: the sound, the comment and the format's record. -/
theorem created_get {r : SoundRec} {c : InfoRec} (q : Nat) :
    ((((h.alloc (.sound {})).alloc .text).alloc (.info c)).modify h.next fun _ => .sound r).get q =
      if q = h.next + 2 then some (.info c) else if q = h.next + 1 then some .text else withSound h.get h.next r q := by
  have htext : (h.alloc (.sound {})).next = h.next + 1 := rfl
  have hinfo : ((h.alloc (.sound {})).alloc .text).next = h.next + 2 := rfl
  rw [Heap.get_modify, Heap.get_alloc, Heap.get_alloc, Heap.get_alloc, withSound, hinfo, htext]
  by_cases hq : q = h.next
  · rw [if_pos hq, if_pos hq, if_neg (by omega), if_neg (by omega), if_neg (by omega), if_neg (by omega), if_pos hq]
    rfl
  · rw [if_neg hq, if_neg hq, if_neg hq]

/-- A new sound and its format's record point to the comment. -/
theorem soundCreate_held (hc : soundCreate host s h = .ok (h₁, some p)) : ∃ i c,
    Held (withSound h.get p { fileFormat := some s.fileFormat, formatInfo := some i, comment := some c }) h₁ i none (some c) ∧
      h.get p = none := by
  unfold soundCreate at hc
  dsimp only at hc
  split_ifs at hc with hmem hcomment hformat
  · cases hc
    refine ⟨h.next + 2, h.next + 1, ⟨?_, ?_, ?_, ?_, ?_⟩, h.fresh _ le_rfl⟩
    · rw [created_get, if_pos rfl]
      rfl
    · rintro f ⟨⟩
    · rintro q ⟨⟩
      rw [created_get, if_neg (by omega), if_pos rfl]
    · rintro q (hq | hq | hq)
      · rw [hq, withSound, if_neg (by omega)]
        exact h.fresh _ (by omega)
      · cases hq
      · cases hq
        rw [withSound, if_neg (by omega)]
        exact h.fresh _ (by omega)
    · intro q hi _ hc'
      rw [created_get, if_neg hi, if_neg fun he => hc' (by rw [he])]
      rfl
  · obtain ⟨g, -, hc⟩ := Exec.bind_eq_ok.1 hc
    obtain ⟨g', -, hc⟩ := Exec.bind_eq_ok.1 hc
    cases hc
  · obtain ⟨g, -, hc⟩ := Exec.bind_eq_ok.1 hc
    cases hc
  · cases hc

/-- What a failing writer leaves: SND's record without a file, if there is none, and otherwise nothing. -/
theorem openFileForWriting_fails {b : Nat → Option Block} {i c : Nat} {dev : Device} {name : List UInt8} {numSamples : Int}
    (hh : Held b h i none (some c)) (ho : openFileForWriting host s dev name numSamples h i = .ok (h₁, false)) :
    if s.fileFormat = .snd ∧ name ≠ [45] ∧ dev.fopen = false then Held b h₁ i none (some c) else h₁.get = b := by
  unfold openFileForWriting at ho
  rw [infoAt_ok hh.info, Exec.ok_bind] at ho
  dsimp only at ho
  have hput : ∀ g fp, Held b g i fp (some c) → (do
      if ← putHeader dev.fwrite 0 (header host s numSamples) then .ok (g, true)
      else return (← closeFile g i, false) : Exec (Heap Block × Bool)) = .ok (h₁, false) → h₁.get = b := by
    intro g fp hg he
    obtain ⟨put, -, he⟩ := Exec.bind_eq_ok.1 he
    obtain ⟨g', hclose, hget⟩ := hg.closeFile
    cases put with
    | true => cases he
    | false =>
      rw [if_neg Bool.false_ne_true, hclose] at he
      cases he
      exact hget
  by_cases hstd : s.fileFormat = .snd ∧ name = [45]
  · rw [if_pos hstd] at ho
    rw [if_neg fun hc => hc.2.1 hstd.2]
    exact hput _ _ (hh.file_set _ fun f hf => by cases hf) ho
  · rw [if_neg hstd] at ho
    by_cases hopen : dev.fopen = true
    · rw [if_pos hopen] at ho
      rw [if_neg fun hc => Bool.false_ne_true (hc.2.2.symm.trans hopen)]
      exact hput _ _ hh.file_opened ho
    · rw [if_neg hopen] at ho
      have hnone := hh.file_set none fun f hf => by cases hf
      by_cases hsnd : s.fileFormat = .snd
      · rw [if_pos hsnd] at ho
        cases ho
        rw [if_pos ⟨hsnd, fun hn => hstd ⟨hsnd, hn⟩, Bool.not_eq_true _ ▸ hopen⟩]
        exact hnone
      · obtain ⟨g', hclose, hget⟩ := hnone.closeFile
        rw [if_neg hsnd, hclose] at ho
        cases ho
        rw [if_neg fun hc => hsnd hc.1]
        exact hget

/-- A file that cannot be opened for writing leaves the sound with what it can free only if SND does not get a file. -/
theorem writing_frees_iff {dev : Device} {name : List UInt8} {numSamples : Int}
    (hc : soundCreate host s h = .ok (h₁, some p))
    (ho : soundOpenFileForWriting host s dev name numSamples h₁ p = .ok (h₂, false)) :
    (∃ h₃, soundCloseFile h₂ p = .ok h₃ ∧ h₃.get = h.get) ↔ s.fileFormat = .snd ∧ name ≠ [45] ∧ dev.fopen = false := by
  obtain ⟨i, c, hh, hp⟩ := soundCreate_held hc
  have hown : ∀ q, q = i ∨ none = some (File.opened q) ∨ some c = some q → q ≠ p := fun q hq he => by
    have hnone := hh.own q hq
    rw [withSound, if_pos he] at hnone
    cases hnone
  have hsound : h₁.get p = some (.sound { fileFormat := some s.fileFormat, formatInfo := some i, comment := some c }) := by
    rw [hh.rest p (fun he => hown p (.inl he) rfl) (by simp) (fun he => hown p (.inr (.inr he)) rfl), withSound, if_pos rfl]
  unfold soundOpenFileForWriting at ho
  rw [soundAt_ok hsound, Exec.ok_bind] at ho
  have hfails := openFileForWriting_fails hh ho
  unfold Ownership.soundCloseFile
  split_ifs at hfails with hcond
  · refine iff_of_true ?_ hcond
    obtain ⟨h₃, hclose, hget⟩ := hfails.closeFile
    have hsound₂ : h₂.get p = some (.sound { fileFormat := some s.fileFormat, formatInfo := some i, comment := some c }) := by
      rw [hfails.rest p (fun he => hown p (.inl he) rfl) (by simp) (fun he => hown p (.inr (.inr he)) rfl), withSound,
        if_pos rfl]
    have hsound₃ : h₃.get p = some (.sound { fileFormat := some s.fileFormat, formatInfo := some i, comment := some c }) := by
      rw [hget, withSound, if_pos rfl]
    rw [soundAt_ok hsound₂, Exec.ok_bind]
    dsimp only
    rw [Option.isSome_some, if_pos rfl, hclose, Exec.ok_bind]
    refine ⟨_, free_ok hsound₃ (by simp), ?_⟩
    funext q
    rw [Heap.get_free, hget, withSound]
    split_ifs with hq
    · rw [hq, hp]
    · rfl
  · refine iff_of_false ?_ hcond
    have hsound₂ : h₂.get p = some (.sound { fileFormat := some s.fileFormat, formatInfo := some i, comment := some c }) := by
      rw [hfails, withSound, if_pos rfl]
    have hfreed : closeFile h₂ i = .error .fault := by
      unfold closeFile infoAt
      rw [hfails, hh.own i (.inl rfl)]
      rfl
    rw [soundAt_ok hsound₂, Exec.ok_bind]
    dsimp only
    rw [Option.isSome_some, if_pos rfl, hfreed]
    rintro ⟨h₃, he, -⟩
    cases he

end

/-- Behind a file that could not be opened everything is freed once: for writing, where SND does not get a file from
`fopen`, and for reading, where no reader comes to a second comment. -/
theorem frees_once_iff (host : Host) :
    (∀ s dev name numSamples h h₁ p h₂, soundCreate host s h = .ok (h₁, some p) →
      soundOpenFileForWriting host s dev name numSamples h₁ p = .ok (h₂, false) →
      ((∃ h₃, soundCloseFile h₂ p = .ok h₃ ∧ h₃.get = h.get) ↔
        s.fileFormat = .snd ∧ name ≠ [45] ∧ dev.fopen = false)) ∧
    ∀ name fuel file stdin h h', soundOpenFileForReading host name fuel file stdin h = .ok (h', false) →
      (h'.get = h.get ↔ OneComment host name file stdin) :=
  ⟨fun _ _ _ _ _ _ _ _ => writing_frees_iff, fun _ _ _ _ _ _ => reading_frees_iff⟩

/-- A device that has no room for a file. -/
def noDevice : Device := ⟨false, fun _ => true⟩

def sndSound : NewSound := ⟨.snd, 2, 1, 8000, [], by simp⟩

def waveSound : NewSound := ⟨.wave, 2, 1, 8000, [], by simp⟩

theorem sndSound_freed : ∃ h₁ p h₂, soundCreate plainHost sndSound .empty = .ok (h₁, some p) ∧
    soundOpenFileForWriting plainHost sndSound noDevice [97] 0 h₁ p = .ok (h₂, false) ∧
      ∃ h₃, soundCloseFile h₂ p = .ok h₃ ∧ h₃.get = Heap.empty.get :=
  ⟨_, _, _, rfl, rfl, ((frees_once_iff plainHost).1 sndSound noDevice [97] 0 .empty _ _ _ rfl rfl).2
    ⟨rfl, by simp, rfl⟩⟩

/-- What SND does not do, WAVE does: it frees what the sound still points to. -/
theorem waveSound_freed_twice : ∃ h₁ p h₂, soundCreate plainHost waveSound .empty = .ok (h₁, some p) ∧
    soundOpenFileForWriting plainHost waveSound noDevice [97] 0 h₁ p = .ok (h₂, false) ∧
      ¬ ∃ h₃, soundCloseFile h₂ p = .ok h₃ ∧ h₃.get = Heap.empty.get := by
  refine ⟨_, _, _, rfl, rfl, ?_⟩
  rintro ⟨h₃, he, -⟩
  have hfault : ∀ r, r = Except.error Stop.fault → r ≠ Except.ok h₃ := fun r hr he => by
    rw [hr] at he
    cases he
  exact hfault _ rfl he

end Nas.SoundFile.Ownership
