import Nas.Audio
import Nas.Loop
import Nas.Stdio

/-!
# Reading sound files

The readers of `wave.c`, `aiff.c`, `8svx.c`, `voc.c` and `snd.c` on a little endian host, and the layer of `sound.c`
over them. A reader that walks over the chunks of a file has a `Walk`, its local variables and the record it fills in;
one turn of its loop is one chunk, and in WAVE also one item of an INFO list. `Err()`, which closes the file, is a stop
with `none`. A comment is the buffer it is in, so that it is a string only if there is a NUL in it.
-/

namespace Nas.SoundFile
open Stdio

/-- A four character code. -/
def fourcc (a b c d : Char) : List UInt8 := [a, b, c, d].map fun x => UInt8.ofNat x.toNat

/-- A field of a record from `malloc` that is not yet set. -/
def unset (host : Host) (tag : Nat) : Got Int := ⟨asShort (host.junk tag 0), false⟩

/-- `dataSize / channels / (bitsPerSample >> 3)` -/
def samples (dataSize : Nat) (channels bitsPerSample : Got Int) : Exec (Got Nat) :=
  if channels.val = 0 ∨ bitsPerSample.val / 8 = 0 then .error .fault
  else .ok {
    val := dataSize / asUint32 channels.val / asUint32 (bitsPerSample.val / 8)
    read := channels.read && bitsPerSample.read }

/-- The loop of a reader, if the file starts as it should. -/
def walk {σ α : Type} (turn : σ → Exec (Turn σ (Option α))) (fuel : Nat) : Option σ → Exec (Option α)
  | none => .ok none
  | some s => Turn.loop turn fuel s

/-! ### WAVE -/

def riffRiffID := fourcc 'R' 'I' 'F' 'F'
def riffWaveID := fourcc 'W' 'A' 'V' 'E'
def riffListID := fourcc 'L' 'I' 'S' 'T'
def riffListInfoID := fourcc 'I' 'N' 'F' 'O'
def riffInfoIcmtID := fourcc 'I' 'C' 'M' 'T'
def riffWaveFmtID := fourcc 'f' 'm' 't' ' '
def riffWaveDataID := fourcc 'd' 'a' 't' 'a'

/-- What the format chunk says. -/
structure WaveFmt where
  format : Int
  channels : Got Int
  sampleRate : Got Int
  bitsPerSample : Got Int
deriving DecidableEq, Repr

structure WaveInfo where
  fp : Stream
  comment : Option (List UInt8) := none
  fmt : WaveFmt
  dataOffset : Nat := 0
  dataSize : Nat := 0
  numSamples : Got Nat := ⟨0, false⟩
deriving DecidableEq, Repr

/-- `info` is what is left of the INFO list that is being read, zero if there is none. -/
structure WaveWalk where
  wi : WaveInfo
  fileSize : Int
  info : Int := 0
deriving DecidableEq, Repr

def WaveWalk.seek (s : WaveWalk) (fp : Stream) : WaveWalk := { s with wi := { s.wi with fp } }

def waveFmt (host : Host) (fp : Stream) : WaveFmt × Stream :=
  let format := fp.fileReadS host .little 0
  let channels := format.2.fileReadS host .little 1
  let sampleRate := channels.2.fileReadL host .little 2
  -- the next two fields do not matter
  let byteRate := sampleRate.2.fileReadL host .little 3
  let align := byteRate.2.fileReadS host .little 4
  let bitsPerSample := align.2.fileReadS host .little 5
  ({ format := asShort format.1.val, channels := channels.1.map asShort
     sampleRate := sampleRate.1.map fun n : Nat => wrap32 n, bitsPerSample := bitsPerSample.1.map asShort },
   bitsPerSample.2)

/-- The data chunk: where the data is and its size, to the end of the file if the chunk's size is bogus. -/
def waveData (ckSize : Int) (wi : WaveInfo) : WaveInfo :=
  let dataOffset : Nat := wi.fp.pos % 2 ^ 32
  -- past the data
  let next := wi.fp.seekSet (asUint32 (dataOffset + pad2 ckSize))
  if wi.fp.bytes.length < next.pos then
    { wi with dataOffset := asUint32 (dataOffset - 8), dataSize := asUint32 (wi.fp.bytes.length - dataOffset)
              fp := wi.fp.seekEnd }
  else { wi with dataOffset := asUint32 (dataOffset - 8), dataSize := asUint32 ckSize, fp := next }

/-- An item of an INFO list. -/
def waveInfoTurn (host : Host) (s : WaveWalk) : Turn WaveWalk (Option WaveInfo) :=
  match readChunk .little s.wi.fp with
  | (none, _) => .stop none
  | (some c, fp) =>
    let s : WaveWalk := { s with info := wrap32 (s.info - (8 + pad2 c.ckSize)) }
    if c.ckID = riffInfoIcmtID then
      if host.mem (asSize c.ckSize) then
        match fp.freadItem (asSize c.ckSize) with
        | (none, _) => .stop none
        | (some comment, fp) =>
          -- eat the pad byte
          let fp := if c.ckSize % 2 = 1 then fp.fgetc.2 else fp
          .next { s with wi := { s.wi with fp, comment := some comment } }
      else .stop none
    else .next (s.seek (fp.seekCur (pad2 c.ckSize)))

def waveChunkTurn (host : Host) (s : WaveWalk) : Turn WaveWalk (Option WaveInfo) :=
  match readChunk .little s.wi.fp with
  | (none, _) => .stop none
  | (some ck, fp) =>
    let s : WaveWalk := { s with fileSize := wrap32 (s.fileSize - (8 + pad2 ck.ckSize)) }
    if ck.ckID = riffListID then
      match fp.freadItem 4 with
      | (none, _) => .stop none
      | (some fourcc, fp) =>
        if fourcc = riffListInfoID then .next { s with wi := { s.wi with fp }, info := wrap32 (ck.ckSize - 4) }
        else .next (s.seek (fp.seekCur (pad2 ck.ckSize - 4)))
    else if ck.ckID = riffWaveFmtID ∧ s.wi.fmt.format = 0 then
      let fmt := waveFmt host fp
      if fmt.1.format = 1 then
        -- skip any other format specific fields
        .next { s with wi := { s.wi with fmt := fmt.1, fp := fmt.2.seekCur (pad2 (wrap32 (ck.ckSize - 16))) } }
      else .stop none
    else if ck.ckID = riffWaveDataID ∧ s.wi.dataOffset = 0 then
      .next { s with wi := waveData ck.ckSize { s.wi with fp } }
    else .next (s.seek (fp.seekCur (pad2 ck.ckSize)))

def waveRewindFile (wi : WaveInfo) : WaveInfo := { wi with fp := wi.fp.seekSet (wi.dataOffset + 8) }

def waveFinish (host : Host) (name : List UInt8) (wi : WaveInfo) : Exec (Option WaveInfo) :=
  if wi.dataOffset = 0 then .ok none
  else do
    let numSamples ← samples wi.dataSize wi.fmt.channels wi.fmt.bitsPerSample
    let comment := wi.comment <|> fileCommentFromFilename host name
    return some (waveRewindFile { wi with numSamples, comment })

def waveTurn (host : Host) (name : List UInt8) (s : WaveWalk) : Exec (Turn WaveWalk (Option WaveInfo)) :=
  if s.info ≠ 0 then .ok (waveInfoTurn host s)
  else if 8 ≤ s.fileSize then .ok (waveChunkTurn host s)
  else .stop <$> waveFinish host name s.wi

/-- The file up to its first chunk. -/
def waveStart (host : Host) (bytes : List UInt8) : Option WaveWalk :=
  if host.mem 56 then
    match readChunk .little ⟨bytes, 0⟩ with
    | (none, _) => none
    | (some ck, fp) =>
      if ck.ckID = riffRiffID then
        match fp.freadItem 4 with
        | (none, _) => none
        | (some fourcc, fp) =>
          if fourcc = riffWaveID then
            some { wi := { fp, fmt := ⟨0, unset host 6, unset host 7, unset host 8⟩ }
                   fileSize := wrap32 (pad2 ck.ckSize - 4) }
          else none
      else none
  else none

def waveOpenFileForReading (host : Host) (name : List UInt8) (fuel : Nat) (bytes : List UInt8) :
    Exec (Option WaveInfo) :=
  walk (waveTurn host name) fuel (waveStart host bytes)

/-! ### AIFF -/

def aiffFormID := fourcc 'F' 'O' 'R' 'M'
def aiffAiffID := fourcc 'A' 'I' 'F' 'F'
def aiffCommonID := fourcc 'C' 'O' 'M' 'M'
def aiffSoundDataID := fourcc 'S' 'S' 'N' 'D'
def aiffCommentID := fourcc 'C' 'O' 'M' 'T'

/-- What the common chunk says. -/
structure AiffCommon where
  channels : Got Int
  bitsPerSample : Got Int
  sampleRate : Got Int
deriving DecidableEq, Repr

structure AiffInfo where
  fp : Stream
  comment : Option (List UInt8) := none
  common : AiffCommon
  dataOffset : Got Nat := ⟨0, false⟩
  dataSize : Nat := 0
  numSamples : Got Nat := ⟨0, false⟩
deriving DecidableEq, Repr

structure AiffWalk where
  ai : AiffInfo
  fileSize : Int
deriving DecidableEq, Repr

def aiffCommon (host : Host) (fp : Stream) : Option AiffCommon × Stream :=
  let channels := fp.fileReadS host .big 10
  -- what is read here is computed again below
  let numSamples := channels.2.fileReadL host .big 11
  let bitsPerSample := numSamples.2.fileReadS host .big 12
  let rate := bitsPerSample.2.freadItem 10
  (rate.1.map fun rate =>
    ⟨channels.1.map asShort, bitsPerSample.1.map asShort, host.fromIeeeExtended rate, true⟩, rate.2)

/-- The sound data chunk: where the data is and its size. -/
def aiffSoundData (host : Host) (ckSize : Int) (ai : AiffInfo) : AiffInfo :=
  let offset := ai.fp.fileReadL host .big 13
  let blockSize := offset.2.fileReadL host .big 14
  let fp := blockSize.2
  { ai with
    dataOffset := offset.1.map fun offset : Nat => asUint32 (fp.pos - 24 + wrap32 offset)
    dataSize := asUint32 (ckSize - 8)
    -- past the data
    fp := fp.seekCur (wrap32 (pad2 ckSize - 8 + wrap32 offset.1.val)) }

/-- The first comment of a comment chunk, if there is one; `none` if it cannot be read. -/
def aiffComment (host : Host) (ckSize : Int) (ai : AiffInfo) : Option AiffInfo :=
  let numComments := ai.fp.fileReadS host .big 15
  -- the other comments
  let skip (ckSize : Int) (fp : Stream) : Stream := if ckSize ≠ 0 then fp.seekCur ckSize else fp
  if numComments.1.val ≠ 0 then
    let timeStamp := numComments.2.fileReadL host .big 16
    let marker := timeStamp.2.fileReadS host .big 17
    let count := marker.2.fileReadS host .big 18
    let rest := wrap32 (ckSize - (10 + pad2 count.1.val))
    if count.1.val ≠ 0 then
      if host.mem count.1.val then
        match count.2.freadItem count.1.val with
        | (none, _) => none
        | (some comment, fp) =>
          -- eat the pad byte
          let fp := if count.1.val % 2 = 1 then fp.fgetc.2 else fp
          some { ai with comment := some comment, fp := skip rest fp }
      else none
    else some { ai with fp := skip rest count.2 }
  else some { ai with fp := skip (wrap32 (ckSize - 2)) numComments.2 }

def aiffChunkTurn (host : Host) (s : AiffWalk) : Turn AiffWalk (Option AiffInfo) :=
  match readChunk .big s.ai.fp with
  | (none, _) => .stop none
  | (some ck, fp) =>
    let fileSize := wrap32 (s.fileSize - (8 + pad2 ck.ckSize))
    if ck.ckID = aiffCommonID then
      match aiffCommon host fp with
      | (none, _) => .stop none
      | (some common, fp) => .next { ai := { s.ai with common, fp }, fileSize }
    else if ck.ckID = aiffSoundDataID then
      .next { ai := aiffSoundData host ck.ckSize { s.ai with fp }, fileSize }
    else if ck.ckID = aiffCommentID then
      match aiffComment host ck.ckSize { s.ai with fp } with
      | none => .stop none
      | some ai => .next { ai, fileSize }
    else .next { ai := { s.ai with fp := fp.seekCur (pad2 ck.ckSize) }, fileSize }

def aiffRewindFile (ai : AiffInfo) : AiffInfo := { ai with fp := ai.fp.seekSet (ai.dataOffset.val + 24) }

def aiffFinish (host : Host) (name : List UInt8) (ai : AiffInfo) : Exec (Option AiffInfo) :=
  if ai.dataOffset.val = 0 then .ok none
  else do
    let numSamples ← samples ai.dataSize ai.common.channels ai.common.bitsPerSample
    let comment := ai.comment <|> fileCommentFromFilename host name
    return some (aiffRewindFile { ai with numSamples, comment })

/-- `fileSize > sizeof(chunk)`, which compares unsigned numbers. -/
def MoreChunks (fileSize : Int) : Prop := fileSize < 0 ∨ 8 < fileSize

instance (fileSize : Int) : Decidable (MoreChunks fileSize) := inferInstanceAs (Decidable (_ ∨ _))

def aiffTurn (host : Host) (name : List UInt8) (s : AiffWalk) : Exec (Turn AiffWalk (Option AiffInfo)) :=
  if MoreChunks s.fileSize then .ok (aiffChunkTurn host s) else .stop <$> aiffFinish host name s.ai

def aiffStart (host : Host) (bytes : List UInt8) : Option AiffWalk :=
  if host.mem 48 then
    match readChunk .big ⟨bytes, 0⟩ with
    | (none, _) => none
    | (some ck, fp) =>
      if ck.ckID = aiffFormID then
        match fp.freadItem 4 with
        | (none, _) => none
        | (some id, fp) =>
          if id = aiffAiffID then
            some { ai := { fp, common := ⟨unset host 20, unset host 21, unset host 22⟩ }
                   fileSize := wrap32 (pad2 ck.ckSize - 4) }
          else none
      else none
  else none

def aiffOpenFileForReading (host : Host) (name : List UInt8) (fuel : Nat) (bytes : List UInt8) :
    Exec (Option AiffInfo) :=
  walk (aiffTurn host name) fuel (aiffStart host bytes)

/-! ### 8SVX -/

def svxFormID := fourcc 'F' 'O' 'R' 'M'
def svx8svxID := fourcc '8' 'S' 'V' 'X'
def svxNameID := fourcc 'N' 'A' 'M' 'E'
def svxVhdrID := fourcc 'V' 'H' 'D' 'R'
def svxBodyID := fourcc 'B' 'O' 'D' 'Y'

structure SvxInfo where
  fp : Stream
  comment : Option (List UInt8) := none
  sampleRate : Got Int
  dataOffset : Nat := 0
  dataSize : Nat := 0
  numSamples : Nat := 0
deriving DecidableEq, Repr

structure SvxWalk where
  si : SvxInfo
  fileSize : Int
deriving DecidableEq, Repr

/-- The voice header: the sample rate, and the position behind it; `none` if the data is compressed. -/
def svxVhdr (host : Host) (fp : Stream) : Option (Got Int × Stream) :=
  let numSamples := fp.fileReadL host .big 30
  let repeatSamples := numSamples.2.fileReadL host .big 31
  let samplesPerCycle := repeatSamples.2.fileReadL host .big 32
  let sampleRate := samplesPerCycle.2.fileReadS host .big 33
  let octaves := sampleRate.2.fgetc
  let compression := octaves.2.fgetc
  -- both go into the same byte, which keeps its value where the file ends
  let c := (compression.1 <|> octaves.1).elim (host.junk 34 sampleRate.2.pos % 2 ^ 8) (·.toNat)
  if c = 0 then some (sampleRate.1.map fun n : Nat => (n : Int), (compression.2.fileReadL host .big 35).2) else none

/-- Into a buffer of `size` bytes, an item of `n` bytes. -/
def freadInto (size n : Nat) (fp : Stream) : Exec (Option (List UInt8) × Stream) :=
  if size < (fp.fread n).1.length then .error .fault else .ok (fp.freadItem n)

def svxName (host : Host) (ckSize : Int) (fp : Stream) : Exec (Option (List UInt8 × Stream)) :=
  let size := asSize (wrap32 (ckSize + 1))
  if host.mem size then do
    let (comment, fp) ← freadInto size (asSize ckSize) fp
    return comment.map fun comment => (comment ++ [0], fp)
  else .ok none

def svxChunkTurn (host : Host) (s : SvxWalk) : Exec (Turn SvxWalk (Option SvxInfo)) :=
  match readChunk .big s.si.fp with
  | (none, _) => .ok (.stop none)
  | (some ck, fp) =>
    let fileSize := wrap32 (s.fileSize - (8 + ck.ckSize))
    if ck.ckID = svxVhdrID then
      match svxVhdr host fp with
      | none => .ok (.stop none)
      | some (sampleRate, fp) => .ok (.next { si := { s.si with sampleRate, fp }, fileSize })
    else if ck.ckID = svxBodyID then
      .ok (.next { si := { s.si with dataOffset := fp.pos % 2 ^ 32, dataSize := asUint32 ck.ckSize
                                     fp := fp.seekCur ck.ckSize }
                   fileSize })
    else if ck.ckID = svxNameID then do
      match ← svxName host ck.ckSize fp with
      | none => .ok (.stop none)
      | some (comment, fp) => .ok (.next { si := { s.si with comment := some comment, fp }, fileSize })
    else .ok (.next { si := { s.si with fp := fp.seekCur ck.ckSize }, fileSize })

def svxRewindFile (si : SvxInfo) : SvxInfo := { si with fp := si.fp.seekSet (si.dataOffset + 8) }

def svxFinish (host : Host) (name : List UInt8) (si : SvxInfo) : Option SvxInfo :=
  if si.dataOffset = 0 then none
  else
    let comment := si.comment <|> fileCommentFromFilename host name
    some (svxRewindFile { si with numSamples := si.dataSize, comment })

def svxTurn (host : Host) (name : List UInt8) (s : SvxWalk) : Exec (Turn SvxWalk (Option SvxInfo)) :=
  if MoreChunks s.fileSize then svxChunkTurn host s else .ok (.stop (svxFinish host name s.si))

def svxStart (host : Host) (bytes : List UInt8) : Option SvxWalk :=
  if host.mem 48 then
    match readChunk .big ⟨bytes, 0⟩ with
    | (none, _) => none
    | (some ck, fp) =>
      if ck.ckID = svxFormID then
        match fp.freadItem 4 with
        | (none, _) => none
        | (some id, fp) =>
          if id = svx8svxID then
            some { si := { fp, sampleRate := unset host 40 }, fileSize := wrap32 (ck.ckSize - 4) }
          else none
      else none
  else none

def svxOpenFileForReading (host : Host) (name : List UInt8) (fuel : Nat) (bytes : List UInt8) : Exec (Option SvxInfo) :=
  walk (svxTurn host name) fuel (svxStart host bytes)

/-! ### VOC -/

/-- `VOC_ID` -/
def vocID : List UInt8 :=
  [0x43, 0x72, 0x65, 0x61, 0x74, 0x69, 0x76, 0x65, 0x20, 0x56, 0x6f, 0x69, 0x63, 0x65, 0x20, 0x46, 0x69, 0x6c,
    0x65, 0x1a]

structure VocInfo where
  fp : Stream
  comment : Option (List UInt8) := none
  sampleRate : Got Nat
  dataOffset : Nat := 0
  dataSize : Got Nat := ⟨0, false⟩
  compression : Got Nat
  tracks : Got Nat := ⟨1, true⟩
deriving DecidableEq, Repr

structure VocWalk where
  vi : VocInfo
  extended : Bool := false
deriving DecidableEq, Repr

/-- `fgetc` into an unsigned number. -/
def getByte (fp : Stream) : Got Nat × Stream :=
  let c := fp.fgetc
  (⟨asUint32 (Stream.eofOr c.1), c.1.isSome⟩, c.2)

/-- `ReadSize` -/
def readSize (fp : Stream) : Got Nat × Stream :=
  let c₀ := fp.fgetc
  let c₁ := c₀.2.fgetc
  let c₂ := c₁.2.fgetc
  (⟨asUint32 (Stream.eofOr c₀.1 + Stream.eofOr c₁.1 * 2 ^ 8 + Stream.eofOr c₂.1 * 2 ^ 16), c₂.1.isSome⟩, c₂.2)

def vocData (s : VocWalk) (fp : Stream) : VocWalk :=
  let size := readSize fp
  let dataSize := size.1.map fun n : Nat => asUint32 (n - 2)
  if s.extended then
    let fp := size.2.seekCur 2
    { s with vi := { s.vi with dataSize, dataOffset := fp.pos % 2 ^ 32, fp := fp.seekCur dataSize.val } }
  else
    let c := size.2.fgetc
    let sampleRate : Got Nat := ⟨asUint32 (1000000 / (256 - Stream.eofOr c.1)), c.1.isSome⟩
    let compression := getByte c.2
    let fp := compression.2
    { s with vi := { s.vi with dataSize, sampleRate, compression := compression.1, dataOffset := fp.pos % 2 ^ 32
                               fp := fp.seekCur dataSize.val } }

def vocText (host : Host) (s : VocWalk) (fp : Stream) : Option VocWalk :=
  let n := readSize fp
  if host.mem n.1.val then
    let comment := n.2.freadItem n.1.val
    comment.1.map fun l => { s with vi := { s.vi with comment := some l, fp := comment.2 } }
  else none

def vocExtended (s : VocWalk) (fp : Stream) : Option VocWalk :=
  let size := readSize fp
  if size.1.val = 4 then
    let c₀ := size.2.fgetc
    let c₁ := c₀.2.fgetc
    let n := asUint32 (Stream.eofOr c₀.1 + Stream.eofOr c₁.1 * 2 ^ 8)
    let sampleRate := 256000000 / asUint32 (65536 - n)
    let compression := getByte c₁.2
    let mode := getByte compression.2
    if mode.1.val = 0 ∨ mode.1.val = 1 then
      let tracks := mode.1.map (· + 1)
      some { extended := true
             vi := { s.vi with sampleRate := ⟨sampleRate / tracks.val, c₁.1.isSome⟩, compression := compression.1, tracks
                               fp := mode.2 } }
    -- an unknown mode
    else none
  else none

def vocSkip (s : VocWalk) (fp : Stream) : VocWalk :=
  let n := readSize fp
  { s with vi := { s.vi with fp := n.2.seekCur n.1.val } }

def vocRewindFile (vi : VocInfo) : VocInfo := { vi with fp := vi.fp.seekSet (asUint32 (vi.dataOffset + 3)) }

def vocFinish (host : Host) (name : List UInt8) (vi : VocInfo) : Option VocInfo :=
  if vi.dataOffset = 0 then none
  else some (vocRewindFile { vi with comment := vi.comment <|> fileCommentFromFilename host name })

def vocTurn (host : Host) (name : List UInt8) (s : VocWalk) : Exec (Turn VocWalk (Option VocInfo)) :=
  let c := s.vi.fp.fgetc
  let orErr (s : Option VocWalk) : Turn VocWalk (Option VocInfo) := s.elim (.stop none) .next
  .ok <| match Stream.eofOr c.1 with
    | 0 => .stop (vocFinish host name { s.vi with fp := c.2 })
    | 1 => .next (vocData s c.2)
    | 5 => orErr (vocText host s c.2)
    | 8 => orErr (vocExtended s c.2)
    | 2 | 3 | 4 | 6 | 7 => .next (vocSkip s c.2)
    | _ => .stop none

def vocStart (host : Host) (bytes : List UInt8) : Option VocWalk :=
  if host.mem 40 then
    match Stream.freadItem ⟨bytes, 0⟩ 20 with
    | (none, _) => none
    | (some buf, fp) =>
      let dataOffset := fp.fileReadS host .little 50
      let version := dataOffset.2.fileReadS host .little 51
      let check := version.2.fileReadS host .little 52
      if buf = vocID ∧ dataOffset.1.val = 26 ∧ version.1.val = 0x10a ∧ check.1.val = 0x1129 then
        some { vi := { fp := check.2, sampleRate := ⟨host.junk 53 0 % 2 ^ 32, false⟩
                       compression := ⟨host.junk 54 0 % 2 ^ 32, false⟩ } }
      else none
  else none

def vocOpenFileForReading (host : Host) (name : List UInt8) (fuel : Nat) (bytes : List UInt8) : Exec (Option VocInfo) :=
  walk (vocTurn host name) fuel (vocStart host bytes)

/-! ### SND -/

structure SndHeader where
  magic : Nat
  dataOffset : Nat
  dataSize : Nat
  format : Nat
  sampleRate : Nat
  tracks : Nat
deriving DecidableEq, Repr

structure SndInfo where
  h : SndHeader
  comment : Option (List UInt8) := none
  fp : Stream
deriving DecidableEq, Repr

/-- The header as it is in the file. -/
def sndHeader (l : List UInt8) : SndHeader :=
  let field (i : Nat) : Nat := ByteOrder.big.decode ((l.drop (4 * i)).take 4)
  ⟨field 0, field 1, field 2, field 3, field 4, field 5⟩

def sndRewindFile (si : SndInfo) : SndInfo := { si with fp := si.fp.seekSet si.h.dataOffset }

/-- The comment between the header and the data. -/
def sndComment (host : Host) (name : List UInt8) (si : SndInfo) : Exec (Option SndInfo) :=
  let size := wrap32 (si.h.dataOffset - 24)
  if size ≠ 0 then
    if host.mem (asSize (wrap32 (size + 1))) then
      let comment := si.fp.fread (asSize size)
      if asSize (wrap32 (size + 1)) < comment.1.length then .error .fault
      else if comment.1.length ≠ asSize size then .ok none
      else .ok (some { si with comment := some (comment.1 ++ [0]), fp := comment.2 })
    else .ok none
  else .ok (some { si with comment := fileCommentFromFilename host name })

/-- The data's size, to the end of the file if it is unknown or bogus. -/
def sndDataSize (si : SndInfo) : SndInfo :=
  let size := asUint32 (si.fp.bytes.length - si.h.dataOffset)
  let si := sndRewindFile si
  if si.h.dataSize = 0xffffffff ∨ size < si.h.dataSize then { si with h := { si.h with dataSize := size } } else si

def sndOpenFileForReading (host : Host) (name : List UInt8) (bytes : List UInt8) : Exec (Option SndInfo) :=
  if host.mem 48 then
    match Stream.freadItem ⟨bytes, 0⟩ 24 with
    | (none, _) => .ok none
    | (some h, fp) =>
      if (sndHeader h).magic = 0x2e736e64 then
        Option.map sndDataSize <$> sndComment host name { h := sndHeader h, fp }
      else .ok none
  else .ok none

/-! ### Sounds -/

inductive FormatInfo where
  | snd (p : SndInfo)
  | voc (p : VocInfo)
  | wave (p : WaveInfo)
  | aiff (p : AiffInfo)
  | svx (p : SvxInfo)
deriving DecidableEq, Repr

/-- A `Sound`. `formatInfo` also says its file format. -/
structure Sound where
  dataFormat : Got Int
  numTracks : Got Int
  sampleRate : Got Int
  numSamples : Got Int
  comment : Option (List UInt8)
  formatInfo : FormatInfo
deriving DecidableEq, Repr

/-- The number of an `AuFormat`; `AuNone` is 0. -/
def sndToSoundFormat : Nat → Int
  | 1 => 1
  | 2 => 2
  | 3 => 4
  | _ => 0

def sndToSound (p : SndInfo) : Exec (Option Sound) :=
  let dataFormat := sndToSoundFormat p.h.format
  let numTracks := wrap32 p.h.tracks
  if dataFormat = 0 then .ok none
  else do
    let numSamples : Nat ←
      if p.h.dataSize = 0xffffffff then .ok p.h.dataSize
      else if numTracks = 0 then .error .fault
      else .ok (p.h.dataSize / asUint32 numTracks / sizeofFormat dataFormat.toNat)
    return some {
      dataFormat := ⟨dataFormat, true⟩, numTracks := ⟨numTracks, true⟩, sampleRate := ⟨wrap32 p.h.sampleRate, true⟩
      numSamples := ⟨wrap32 numSamples, true⟩, comment := p.comment, formatInfo := .snd p }

def vocToSound (p : VocInfo) : Exec (Option Sound) :=
  if p.tracks.val = 0 then .error .fault
  else .ok <| some {
    dataFormat := ⟨2, true⟩, numTracks := p.tracks.map fun n : Nat => wrap32 n
    sampleRate := p.sampleRate.map fun n : Nat => wrap32 n
    numSamples := ⟨wrap32 (p.dataSize.val / p.tracks.val / sizeofFormat 2 : Nat), p.dataSize.read && p.tracks.read⟩
    comment := p.comment, formatInfo := .voc p }

/-- `WaveToSoundFormat` and `AiffToSoundFormat` -/
def bitsToSoundFormat (format8 format16 bitsPerSample : Int) : Int :=
  if bitsPerSample = 8 then format8 else if bitsPerSample = 16 then format16 else -1

def waveToSound (p : WaveInfo) : Exec (Option Sound) :=
  .ok <| some {
    dataFormat := p.fmt.bitsPerSample.map (bitsToSoundFormat 2 6), numTracks := p.fmt.channels
    sampleRate := p.fmt.sampleRate
    numSamples := p.numSamples.map fun n : Nat => wrap32 n, comment := p.comment, formatInfo := .wave p }

def aiffToSound (p : AiffInfo) : Exec (Option Sound) :=
  .ok <| some {
    dataFormat := p.common.bitsPerSample.map (bitsToSoundFormat 3 4), numTracks := p.common.channels
    sampleRate := p.common.sampleRate, numSamples := p.numSamples.map fun n : Nat => wrap32 n, comment := p.comment
    formatInfo := .aiff p }

def svxToSound (p : SvxInfo) : Exec (Option Sound) :=
  .ok <| some {
    dataFormat := ⟨3, true⟩, numTracks := ⟨1, true⟩, sampleRate := p.sampleRate
    numSamples := ⟨wrap32 p.numSamples, true⟩, comment := p.comment, formatInfo := .svx p }

/-- One format of the table: `none` if its reader does not open the file. -/
def openAs {α : Type} (openFileForReading : Exec (Option α)) (toSound : α → Exec (Option Sound)) :
    Exec (Option (Option Sound)) := do
  match ← openFileForReading with
  | none => return none
  | some p => return some (← toSound p)

/-- The first of some formats that opens the file. -/
def firstOf : List (Exec (Option (Option Sound))) → Exec (Option Sound)
  | [] => .ok none
  | o :: os => do
    match ← o with
    | none => firstOf os
    | some s => return s

def soundOpenFileForReading (host : Host) (name : List UInt8) (fuel : Nat) (bytes : List UInt8) : Exec (Option Sound) :=
  if host.mem 40 then
    firstOf [
      openAs (sndOpenFileForReading host name bytes) sndToSound,
      openAs (vocOpenFileForReading host name fuel bytes) vocToSound,
      openAs (waveOpenFileForReading host name fuel bytes) waveToSound,
      openAs (aiffOpenFileForReading host name fuel bytes) aiffToSound,
      openAs (svxOpenFileForReading host name fuel bytes) svxToSound]
  else .ok none

end Nas.SoundFile
