import Nas.SoundReaders

/-!
# Writing sound files

The writers of the five formats, where `fopen` and `fwrite` succeed and a comment is no longer than an `int` can say. An
`OutFile` is the private part of a format's record. The sizes in the headers are zero until the file is closed.
-/

namespace Nas.SoundFile
open Stdio

inductive FileFormat where
  | snd
  | voc
  | wave
  | aiff
  | svx
deriving DecidableEq, Repr

/-- The arguments of `SoundCreate`. The comment's characters are without the NUL. -/
structure NewSound where
  fileFormat : FileFormat
  dataFormat : Nat
  numTracks : Int
  sampleRate : Int
  comment : List UInt8
  noNul : 0 ∉ comment
deriving DecidableEq, Repr

/-- No comment. -/
theorem NewSound.noNul_nil : 0 ∉ ([] : List UInt8) := by decide

/-- The `dataFormats` of the table. -/
def FileFormat.dataFormats : FileFormat → List Nat
  | .snd => [1, 2, 4]
  | .voc => [2]
  | .wave => [2, 6]
  | .aiff => [3, 4]
  | .svx => [3]

structure OutFile where
  fp : Stream
  fileSize : Nat := 0
  sizeOffset : Nat := 0
  dataOffset : Nat
  dataSize : Nat := 0
deriving DecidableEq, Repr

/-- `bitsPerSample` -/
def NewSound.bits (s : NewSound) : Nat := 8 * sizeofFormat s.dataFormat

/-- `PAD2` of an `AuUint32`. -/
def upad2 (n : Nat) : Nat := 2 * ((n + 1) % 2 ^ 32 / 2)

/-- The pad byte of an odd number of bytes. -/
def padByte (n : Int) : List (List UInt8) := if n % 2 = 1 then [[0]] else []

section
variable (host : Host) (s : NewSound)

/-! ### WAVE -/

def waveOpenFileForWriting : OutFile :=
  let le (w : Nat) (n : Int) : List UInt8 := ByteOrder.little.encode w (asUint32 n)
  let fp := (Stream.mk [] 0).fwrite riffRiffID
  let sizeOffset := fp.pos
  let fp := fp.fwriteAll [le 4 0, riffWaveID]
  let fileSize : Int := 4
  let n : Int := s.comment.length
  let (fp, fileSize) :=
    if n ≠ 0 then
      let n := n + 1
      let size := 8 + 4 + pad2 n
      (fp.fwriteAll ([riffListID, le 4 size, riffListInfoID, riffInfoIcmtID, le 4 n, s.comment ++ [0]] ++ padByte n),
        fileSize + (8 + size))
    else (fp, fileSize)
  let bytes : Int := s.bits / 8
  let fp := fp.fwriteAll [riffWaveFmtID, le 4 16, le 2 1, le 2 s.numTracks, le 4 s.sampleRate,
    le 4 (asShort (asUint32 s.numTracks) * s.sampleRate * bytes), le 2 (asShort (asUint32 s.numTracks) * bytes), le 2 s.bits]
  let fileSize := fileSize + (8 + 16)
  let fp := fp.fwrite riffWaveDataID
  { fp := fp.fwrite (le 4 0), fileSize := asUint32 (fileSize + 8), sizeOffset, dataOffset := fp.pos }

def waveCloseFile (o : OutFile) : List UInt8 :=
  let le (n : Nat) : List UInt8 := ByteOrder.little.encode 4 n
  let fp := o.fp.fwriteAll (padByte o.dataSize)
  let fp := (fp.seekSet o.sizeOffset).fwrite (le (o.fileSize + upad2 o.dataSize))
  let fp := (fp.seekSet o.dataOffset).fwrite (le o.dataSize)
  fp.bytes

/-! ### AIFF -/

def aiffOpenFileForWriting : OutFile :=
  let be (w : Nat) (n : Int) : List UInt8 := ByteOrder.big.encode w (asUint32 n)
  let fp := (Stream.mk [] 0).fwrite aiffFormID
  let sizeOffset := fp.pos
  let fp := fp.fwriteAll [be 4 0, aiffAiffID]
  let fileSize : Int := 4
  let n : Int := s.comment.length
  let (fp, fileSize) :=
    if n ≠ 0 then
      let n := n + 1
      let size := 10 + pad2 n
      -- one comment, without a time and a marker
      (fp.fwriteAll ([aiffCommentID, be 4 size, be 2 1, be 4 0, be 2 0, be 2 n, s.comment ++ [0]] ++ padByte n),
        fileSize + (8 + size))
    else (fp, fileSize)
  -- the number of samples is not set yet
  let fp := fp.fwriteAll [aiffCommonID, be 4 18, be 2 s.numTracks, be 4 (host.junk 60 0), be 2 s.bits,
    host.toIeeeExtended s.sampleRate]
  let fileSize := fileSize + (8 + 18)
  let fp := fp.fwrite aiffSoundDataID
  { fp := fp.fwriteAll [be 4 0, be 4 0, be 4 0], fileSize := asUint32 (fileSize + (8 + 8)), sizeOffset
    dataOffset := fp.pos }

def aiffCloseFile (o : OutFile) : List UInt8 :=
  let be (n : Nat) : List UInt8 := ByteOrder.big.encode 4 n
  let fp := o.fp.fwriteAll (padByte o.dataSize)
  let fp := (fp.seekSet o.sizeOffset).fwrite (be (o.fileSize + upad2 o.dataSize))
  let fp := (fp.seekSet o.dataOffset).fwrite (be o.dataSize)
  fp.bytes

/-! ### 8SVX -/

def svxOpenFileForWriting : OutFile :=
  let be (w : Nat) (n : Int) : List UInt8 := ByteOrder.big.encode w (asUint32 n)
  let fp := (Stream.mk [] 0).fwrite svxFormID
  let sizeOffset := fp.pos
  let fp := fp.fwriteAll [be 4 0, svx8svxID]
  let fileSize : Int := 4
  let n : Int := s.comment.length
  let (fp, fileSize) :=
    if n ≠ 0 then (fp.fwriteAll [svxNameID, be 4 n, s.comment], fileSize + (8 + n)) else (fp, fileSize)
  -- the number of samples is not set yet
  let fp := fp.fwriteAll [svxVhdrID, be 4 20, be 4 (host.junk 61 0), be 4 0, be 4 0, be 2 s.sampleRate, be 2 0, be 4 65536]
  let fileSize := fileSize + (8 + 20)
  let fp := fp.fwrite svxBodyID
  { fp := fp.fwrite (be 4 0), fileSize := asUint32 (fileSize + 8), sizeOffset, dataOffset := fp.pos }

def svxCloseFile (o : OutFile) : List UInt8 :=
  let be (n : Nat) : List UInt8 := ByteOrder.big.encode 4 n
  let fp := (o.fp.seekSet o.sizeOffset).fwrite (be (o.fileSize + o.dataSize))
  let fp := (fp.seekSet o.dataOffset).fwrite (be o.dataSize)
  fp.bytes

/-! ### VOC -/

/-- `n / d`, with unsigned numbers. -/
def quotient (n d : Nat) : Exec Nat := if d % 2 ^ 32 = 0 then .error .fault else .ok (n / (d % 2 ^ 32))

def vocOpenFileForWriting : Exec OutFile := do
  -- `WriteSize` and `fputc` write the lowest bytes
  let le (w : Nat) (n : Int) : List UInt8 := ByteOrder.little.encode w (asUint32 n)
  let fp := (Stream.mk [] 0).fwriteAll [vocID, le 2 26, le 2 0x10a, le 2 0x1129]
  let n : Int := s.comment.length
  let fp := if n ≠ 0 then fp.fwriteAll [le 1 5, le 3 (n + 1), s.comment ++ [0]] else fp
  let fp ←
    if s.numTracks = 2 then do
      let n : Int := 65536 - (← quotient 256000000 (asUint32 s.sampleRate * 2))
      .ok (fp.fwriteAll [le 1 8, le 3 4, le 1 n, le 1 (n / 2 ^ 8), le 1 0, le 1 1])
    else .ok fp
  let fp := fp.fwrite (le 1 1)
  let rate : Int := 256 - (← quotient 1000000 (asUint32 s.sampleRate))
  return { fp := fp.fwriteAll [le 3 0, le 1 rate, le 1 0], dataOffset := fp.pos }

def vocCloseFile (o : OutFile) : List UInt8 :=
  let fp := o.fp.fwrite [0]
  let fp := (fp.seekSet o.dataOffset).fwrite (ByteOrder.little.encode 3 ((o.dataSize + 2) % 2 ^ 32))
  fp.bytes

/-! ### SND -/

/-- `SoundToSndFormat` -/
def soundToSndFormat : Nat → Nat
  | 1 => 1
  | 2 => 2
  | 4 => 3
  | _ => 0

def sndOpenFileForWriting (numSamples : Int) : OutFile :=
  let be (n : Int) : List UInt8 := ByteOrder.big.encode 4 (asUint32 n)
  let commentLen := s.comment.length
  let fp := (Stream.mk [] 0).fwriteAll [be 0x2e736e64, be (24 + commentLen), be numSamples,
    be (soundToSndFormat s.dataFormat), be s.sampleRate, be s.numTracks]
  { fp := if commentLen ≠ 0 then fp.fwrite s.comment else fp, dataOffset := asUint32 (24 + commentLen) }

def sndCloseFile (o : OutFile) : List UInt8 :=
  ((o.fp.seekSet 8).fwrite (ByteOrder.big.encode 4 o.dataSize)).bytes

end

/-! ### Sounds -/

/-- A sound that is being written. -/
structure Writing where
  sound : NewSound
  out : OutFile
  numSamples : Int
deriving DecidableEq, Repr

/-- `SoundCreate`, which makes the format's record. -/
def soundCreate (host : Host) (s : NewSound) : Bool :=
  let formatInfo : Nat := match s.fileFormat with
    | .snd | .svx | .aiff => 48
    | .voc => 40
    | .wave => 56
  host.mem 40 && host.mem (s.comment.length + 1) && s.fileFormat.dataFormats.contains s.dataFormat && host.mem formatInfo

def soundOpenFileForWriting (host : Host) (s : NewSound) (numSamples : Int) : Exec Writing := do
  let out ← match s.fileFormat with
    | .snd => .ok (sndOpenFileForWriting s numSamples)
    | .voc => vocOpenFileForWriting s
    | .wave => .ok (waveOpenFileForWriting s)
    | .aiff => .ok (aiffOpenFileForWriting host s)
    | .svx => .ok (svxOpenFileForWriting host s)
  return { sound := s, out, numSamples := 0 }

def OutFile.write (o : OutFile) (p : List UInt8) : OutFile :=
  { o with fp := o.fp.fwrite p, dataSize := (o.dataSize + p.length) % 2 ^ 32 }

def soundWriteFile (w : Writing) (p : List UInt8) : Exec Writing :=
  let out := w.out.write p
  if w.numSamples = -1 then .ok { w with out }
  else if w.sound.numTracks = 0 ∨ sizeofFormat w.sound.dataFormat = 0 then .error .fault
  else
    let num := wrap32 p.length
    let samples := (num.tdiv w.sound.numTracks).tdiv (sizeofFormat w.sound.dataFormat)
    .ok { w with out, numSamples := wrap32 (w.numSamples + samples) }

/-- `SoundCloseFile`: the bytes of the file. -/
def soundCloseFile (w : Writing) : List UInt8 :=
  match w.sound.fileFormat with
  | .snd => sndCloseFile w.out
  | .voc => vocCloseFile w.out
  | .wave => waveCloseFile w.out
  | .aiff => aiffCloseFile w.out
  | .svx => svxCloseFile w.out

/-! ### Reading the data -/

def Sound.fp (s : Sound) : Stream :=
  match s.formatInfo with
  | .snd p => p.fp
  | .voc p => p.fp
  | .wave p => p.fp
  | .aiff p => p.fp
  | .svx p => p.fp

def Sound.setFp (s : Sound) (fp : Stream) : Sound :=
  { s with formatInfo := match s.formatInfo with
    | .snd p => .snd { p with fp }
    | .voc p => .voc { p with fp }
    | .wave p => .wave { p with fp }
    | .aiff p => .aiff { p with fp }
    | .svx p => .svx { p with fp } }

def soundReadFile (n : Nat) (s : Sound) : List UInt8 × Sound :=
  let r := s.fp.fread n
  (r.1, s.setFp r.2)

def soundRewindFile (s : Sound) : Sound :=
  { s with formatInfo := match s.formatInfo with
    | .snd p => .snd (sndRewindFile p)
    | .voc p => .voc (vocRewindFile p)
    | .wave p => .wave (waveRewindFile p)
    | .aiff p => .aiff (aiffRewindFile p)
    | .svx p => .svx (svxRewindFile p) }

end Nas.SoundFile
