import Nas.Wire
import Nas.FixedPoint

/-!
# Files

A `Stream` is an open file, its bytes and a position in them, which may be past the end. `fread`, `fseek` and the
others are as in C; a seek to a negative position fails and changes nothing. `fileReadS` and `fileReadL` do not look
at how much they read: where the file ends too soon, their value is what the memory held (`Host.junk`).
-/

namespace Nas.Stdio

/-- An open file. -/
structure Stream where
  bytes : List UInt8
  pos : Nat
deriving DecidableEq, Repr

/-- What is not in the files: whether there is memory of a size (no object is larger than `PTRDIFF_MAX`), what memory
holds that was not written, by the place in the code and the position in the file, and the numbers in the extended
format. -/
structure Host where
  mem : Nat → Bool
  mem_lt : ∀ n, mem n = true → n < 2 ^ 63
  junk : Nat → Nat → Nat
  fromIeeeExtended : List UInt8 → Int
  toIeeeExtended : Int → List UInt8
  length_toIeeeExtended : ∀ x, (toIeeeExtended x).length = 10

/-- A value with whether it is from the file. -/
structure Got (α : Type) where
  val : α
  read : Bool
deriving DecidableEq, Repr

def Got.map {α β : Type} (f : α → β) (x : Got α) : Got β := ⟨f x.val, x.read⟩

@[simp] theorem Got.map_val {α β : Type} {f : α → β} {x : Got α} : (x.map f).val = f x.val := rfl

@[simp] theorem Got.map_read {α β : Type} {f : α → β} {x : Got α} : (x.map f).read = x.read := rfl

def asShort (n : Nat) : Int := (n : Int).bmod (2 ^ 16)

/-- An `AuUint32` from an integer. -/
def asUint32 (x : Int) : Nat := (x % 2 ^ 32).toNat

/-- A `size_t` from an `int`. -/
def asSize (x : Int) : Nat := (x % 2 ^ 64).toNat

/-- `PAD2` of an `int` -/
def pad2 (x : Int) : Int := 2 * (wrap32 (x + 1) / 2)

namespace Stream
variable (f : Stream)

/-- `fread` of bytes. -/
def fread (n : Nat) : List UInt8 × Stream :=
  let l := (f.bytes.drop f.pos).take n
  (l, { f with pos := f.pos + l.length })

/-- `fread` of one item of `n` bytes. -/
def freadItem (n : Nat) : Option (List UInt8) × Stream :=
  let (l, f) := f.fread n
  (if l.length = n ∧ 0 < n then some l else none, f)

def fgetc : Option UInt8 × Stream :=
  let (l, f) := f.fread 1
  (l.head?, f)

/-- What `fgetc` returns. -/
def eofOr (c : Option UInt8) : Int := (c.map fun b => (b.toNat : Int)).getD (-1)

/-- `fseek` from the start. -/
def seekSet (p : Int) : Stream := if 0 ≤ p then { f with pos := p.toNat } else f

def seekCur (off : Int) : Stream := f.seekSet (f.pos + off)

def seekEnd : Stream := { f with pos := f.bytes.length }

/-- `fwrite` -/
def fwrite (l : List UInt8) : Stream :=
  { bytes := f.bytes.take f.pos ++ List.replicate (f.pos - f.bytes.length) 0 ++ l ++ f.bytes.drop (f.pos + l.length)
    pos := f.pos + l.length }

def fwriteAll (ls : List (List UInt8)) : Stream := ls.foldl fwrite f

def fileReadS (host : Host) (order : ByteOrder) (tag : Nat) : Got Nat × Stream :=
  match f.freadItem 2 with
  | (some l, f) => (⟨order.decode l, true⟩, f)
  | (none, f) => (⟨host.junk tag f.pos % 2 ^ 16, false⟩, f)

def fileReadL (host : Host) (order : ByteOrder) (tag : Nat) : Got Nat × Stream :=
  match f.freadItem 4 with
  | (some l, f) => (⟨order.decode l, true⟩, f)
  | (none, f) => (⟨host.junk tag f.pos % 2 ^ 32, false⟩, f)

end Stream

/-- A chunk's header. -/
structure Chunk where
  ckID : List UInt8
  ckSize : Int
deriving DecidableEq, Repr

/-- `readChunk` -/
def readChunk (order : ByteOrder) (f : Stream) : Option Chunk × Stream :=
  let (l, f) := f.freadItem 8
  (l.map fun l => ⟨l.take 4, wrap32 (order.decode (l.drop 4))⟩, f)

/-- `FileCommentFromFilename`. The name's characters are without the NUL. -/
def fileCommentFromFilename (host : Host) (name : List UInt8) : Option (List UInt8) :=
  -- a file named `-` is a pipe
  let base := if name = [45] then [] else (name.reverse.takeWhile (· ≠ 47)).reverse
  if host.mem (base.length + 1) then some (base ++ [0]) else none

/-! ### Positions -/

namespace Stream
variable {f : Stream} {host : Host} {order : ByteOrder} {n tag : Nat}

@[simp] theorem fread_bytes : (f.fread n).2.bytes = f.bytes := rfl

@[simp] theorem freadItem_bytes : (f.freadItem n).2.bytes = f.bytes := rfl

@[simp] theorem fgetc_bytes : f.fgetc.2.bytes = f.bytes := rfl

@[simp] theorem seekEnd_bytes : f.seekEnd.bytes = f.bytes := rfl

theorem fread_pos : (f.fread n).2.pos = f.pos + min n (f.bytes.length - f.pos) := by
  simp [fread]

theorem freadItem_eq_bytes {g : Stream} {l : Option (List UInt8)} (h : f.freadItem n = (l, g)) : g.bytes = f.bytes := by
  have := freadItem_bytes (f := f) (n := n)
  rwa [h] at this

theorem freadItem_snd : (f.freadItem n).2 = (f.fread n).2 := rfl

theorem freadItem_some {l : List UInt8} (h : (f.freadItem n).1 = some l) :
    l = (f.bytes.drop f.pos).take n ∧ l.length = n ∧ 0 < n ∧ f.pos + n ≤ f.bytes.length := by
  have hite : (if ((f.bytes.drop f.pos).take n).length = n ∧ 0 < n then some ((f.bytes.drop f.pos).take n) else none) =
      some l := h
  split at hite
  · cases hite
    rename_i hl
    refine ⟨rfl, hl.1, hl.2, ?_⟩
    have hlen := hl.1
    rw [List.length_take, List.length_drop] at hlen
    omega
  · cases hite

@[simp] theorem seekSet_bytes {p : Int} : (f.seekSet p).bytes = f.bytes := by
  unfold seekSet
  split <;> rfl

@[simp] theorem seekCur_bytes {off : Int} : (f.seekCur off).bytes = f.bytes := seekSet_bytes

theorem seekCur_pos {off : Int} : (f.seekCur off).pos = if 0 ≤ (f.pos : Int) + off then (f.pos + off).toNat else f.pos := by
  unfold seekCur seekSet
  split <;> rfl

theorem pos_le_fread : f.pos ≤ (f.fread n).2.pos := by
  rw [fread_pos]
  omega

theorem pos_le_fgetc : f.pos ≤ f.fgetc.2.pos := pos_le_fread

theorem fgetc_some {b : UInt8} (h : f.fgetc.1 = some b) : f.pos < f.bytes.length ∧ f.fgetc.2.pos = f.pos + 1 := by
  have hpos : f.fgetc.2.pos = f.pos + min 1 (f.bytes.length - f.pos) := fread_pos
  by_cases hlt : f.pos < f.bytes.length
  · exact ⟨hlt, by omega⟩
  · have hhead : ((f.bytes.drop f.pos).take 1).head? = some b := h
    rw [List.drop_eq_nil_of_le (by omega)] at hhead
    cases hhead

theorem pos_le_seekCur {off : Int} (h : 0 ≤ off) : f.pos ≤ (f.seekCur off).pos := by
  rw [seekCur_pos]
  split <;> omega

theorem fileReadS_snd : (f.fileReadS host order tag).2 = (f.fread 2).2 := by
  unfold fileReadS
  rw [← freadItem_snd]
  rcases f.freadItem 2 with ⟨_ | l, f'⟩ <;> rfl

theorem fileReadL_snd : (f.fileReadL host order tag).2 = (f.fread 4).2 := by
  unfold fileReadL
  rw [← freadItem_snd]
  rcases f.freadItem 4 with ⟨_ | l, f'⟩ <;> rfl

@[simp] theorem fileReadS_bytes : (f.fileReadS host order tag).2.bytes = f.bytes := by
  rw [fileReadS_snd, fread_bytes]

@[simp] theorem fileReadL_bytes : (f.fileReadL host order tag).2.bytes = f.bytes := by
  rw [fileReadL_snd, fread_bytes]

end Stream

theorem readChunk_fst {order : ByteOrder} {f : Stream} : (readChunk order f).1 =
    (f.freadItem 8).1.map fun l => ⟨l.take 4, wrap32 (order.decode (l.drop 4))⟩ := rfl

@[simp] theorem readChunk_bytes {order : ByteOrder} {f : Stream} : (readChunk order f).2.bytes = f.bytes := rfl

theorem readChunk_eq_bytes {order : ByteOrder} {f g : Stream} {c : Option Chunk} (h : readChunk order f = (c, g)) :
    g.bytes = f.bytes := by
  have := @readChunk_bytes order f
  rwa [h] at this

theorem readChunk_snd {order : ByteOrder} {f : Stream} : (readChunk order f).2 = (f.fread 8).2 := rfl

theorem wrap32_bounds (x : Int) : -2 ^ 31 ≤ wrap32 x ∧ wrap32 x < 2 ^ 31 := by
  have hle := Int.le_bmod (x := x) (m := 2 ^ 32) (Nat.two_pow_pos 32)
  have hlt := Int.bmod_lt (x := x) (m := 2 ^ 32) (Nat.two_pow_pos 32)
  rw [show ((2 ^ 32 : Nat) : Int) = 4294967296 from rfl] at hle hlt
  unfold wrap32
  constructor
  · refine Int.le_trans ?_ hle
    decide
  · refine Int.lt_of_lt_of_le hlt ?_
    decide

theorem wrap32_eq {x : Int} (h₁ : -2 ^ 31 ≤ x) (h₂ : x < 2 ^ 31) : wrap32 x = x := by
  unfold wrap32
  refine Int.bmod_eq_of_le ?_ ?_
  · refine Int.le_trans ?_ h₁
    decide
  · refine Int.lt_of_lt_of_le h₂ ?_
    decide

theorem wrap32_sub {x : Int} : wrap32 (x - 2 ^ 32) = wrap32 x := Int.sub_bmod_right x (2 ^ 32)

theorem asUint32_nat {n : Nat} : asUint32 n = n % 2 ^ 32 := by
  unfold asUint32
  omega

theorem pad2_nat {n : Nat} (h : n + 1 < 2 ^ 31) : pad2 n = ((n + n % 2 : Nat) : Int) := by
  unfold pad2
  rw [wrap32_eq (by omega) (by omega)]
  omega

theorem readChunk_some {order : ByteOrder} {f : Stream} {c : Chunk} (h : (readChunk order f).1 = some c) :
    f.pos + 8 ≤ f.bytes.length ∧ (readChunk order f).2 = { f with pos := f.pos + 8 } ∧
      c.ckID = ((f.bytes.drop f.pos).take 8).take 4 ∧
      c.ckSize = wrap32 (order.decode (((f.bytes.drop f.pos).take 8).drop 4)) := by
  rw [readChunk_fst] at h
  obtain ⟨l, hl, hc⟩ := Option.map_eq_some_iff.1 h
  obtain ⟨hl', -, -, hle⟩ := Stream.freadItem_some hl
  have hpos := Stream.fread_pos (f := f) (n := 8)
  rw [Nat.min_eq_left (by omega)] at hpos
  refine ⟨hle, ?_, ?_, ?_⟩
  · rw [readChunk_snd, ← hpos]
    rfl
  · rw [← hc, hl']
  · rw [← hc, hl']

/-! ### Reading what is there -/

namespace Stream
variable {f : Stream} {host : Host} {order : ByteOrder} {l r : List UInt8} {m n tag : Nat}

def skip (f : Stream) (n : Nat) : Stream := { f with pos := f.pos + n }

/-- What is left of a file. -/
def Rest (f : Stream) (l : List UInt8) : Prop := f.bytes.drop f.pos = l ∧ f.pos ≤ f.bytes.length

@[simp] theorem skip_pos : (f.skip n).pos = f.pos + n := rfl

@[simp] theorem skip_bytes : (f.skip n).bytes = f.bytes := rfl

@[simp] theorem skip_skip : (f.skip m).skip n = f.skip (m + n) := by
  rw [skip, skip, skip, Nat.add_assoc]

theorem seekCur_nat : f.seekCur n = f.skip n := by
  unfold seekCur seekSet skip
  rw [if_pos (by omega)]
  rfl

theorem Rest.length (h : f.Rest l) : f.bytes.length = f.pos + l.length := by
  obtain ⟨hl, hle⟩ := h
  rw [← hl, List.length_drop]
  omega

theorem Rest.skip (h : f.Rest (l ++ r)) (hn : l.length = n) : (f.skip n).Rest r := by
  have hlen := h.length
  rw [List.length_append] at hlen
  refine ⟨?_, ?_⟩
  · rw [skip_bytes, skip_pos, ← List.drop_drop, h.1, ← hn, List.drop_left]
  · rw [skip_bytes, skip_pos]
    omega

theorem Rest.fread (h : f.Rest (l ++ r)) (hn : l.length = n) : f.fread n = (l, f.skip n) := by
  have htake : (f.bytes.drop f.pos).take n = l := by rw [h.1, ← hn, List.take_left]
  unfold Stream.fread
  dsimp only
  rw [htake, hn]
  rfl

theorem Rest.freadItem (h : f.Rest (l ++ r)) (hn : l.length = n) (h0 : 0 < n) : f.freadItem n = (some l, f.skip n) := by
  unfold Stream.freadItem
  rw [h.fread hn]
  dsimp only
  rw [if_pos ⟨hn, h0⟩]

theorem Rest.fgetc {b : UInt8} (h : f.Rest (b :: r)) : f.fgetc = (some b, f.skip 1) := by
  unfold Stream.fgetc
  rw [Rest.fread (l := [b]) (n := 1) h rfl]
  rfl

theorem Rest.fileReadS {x : Nat} (h : f.Rest (order.encode 2 x ++ r)) (hx : x < 2 ^ 16) :
    f.fileReadS host order tag = (⟨x, true⟩, f.skip 2) := by
  unfold Stream.fileReadS
  rw [h.freadItem ByteOrder.length_encode (by decide)]
  dsimp only
  rw [ByteOrder.decode_encode (by omega)]

theorem Rest.fileReadL {x : Nat} (h : f.Rest (order.encode 4 x ++ r)) (hx : x < 2 ^ 32) :
    f.fileReadL host order tag = (⟨x, true⟩, f.skip 4) := by
  unfold Stream.fileReadL
  rw [h.freadItem ByteOrder.length_encode (by decide)]
  dsimp only
  rw [ByteOrder.decode_encode (by omega)]

/-- Behind a chunk's header. -/
theorem Rest.body {id : List UInt8} {x : Nat} (h : f.Rest (id ++ (order.encode 4 x ++ r))) (hid : id.length = 4) :
    (f.skip 8).Rest r := by
  have := (h.skip hid).skip (ByteOrder.length_encode (o := order))
  rwa [skip_skip] at this

theorem Rest.readChunk {id : List UInt8} {x : Nat} (h : f.Rest (id ++ (order.encode 4 x ++ r))) (hid : id.length = 4)
    (hx : x < 2 ^ 32) : readChunk order f = (some ⟨id, wrap32 x⟩, f.skip 8) := by
  have hlen : (id ++ order.encode 4 x).length = 8 := by
    rw [List.length_append, hid, ByteOrder.length_encode]
  rw [← List.append_assoc] at h
  unfold Stdio.readChunk
  rw [h.freadItem hlen (by decide)]
  dsimp only [Option.map_some]
  rw [List.take_left' hid, List.drop_left' hid, ByteOrder.decode_encode (by omega)]

/-! ### Writing at the end -/

theorem fwrite_end : (Stream.mk l l.length).fwrite r = Stream.mk (l ++ r) (l ++ r).length := by
  unfold fwrite
  dsimp only
  rw [List.take_length, Nat.sub_self, List.replicate_zero, List.append_nil, List.drop_eq_nil_of_le (by omega),
    List.append_nil, List.length_append]

theorem fwriteAll_end {ls : List (List UInt8)} :
    (Stream.mk l l.length).fwriteAll ls = Stream.mk (l ++ ls.flatten) (l ++ ls.flatten).length := by
  induction ls generalizing l with
  | nil => simp [fwriteAll]
  | cons m ls ih =>
    have hcons : ∀ f : Stream, f.fwriteAll (m :: ls) = (f.fwrite m).fwriteAll ls := fun f => rfl
    rw [hcons, fwrite_end, ih, List.flatten_cons, List.append_assoc]

/-- Writing over a part of the same length. -/
theorem fwrite_over {old new : List UInt8} (hf : f.bytes = l ++ (old ++ r)) (h : old.length = new.length) :
    ((f.seekSet l.length).fwrite new).bytes = l ++ (new ++ r) := by
  have hseek : f.seekSet l.length = Stream.mk (l ++ (old ++ r)) l.length := by
    unfold seekSet
    rw [if_pos (by omega), hf]
    rfl
  rw [hseek]
  unfold fwrite
  dsimp only
  rw [List.take_left, show l.length - (l ++ (old ++ r)).length = 0 by simp, List.replicate_zero, List.append_nil,
    ← List.drop_drop, List.drop_left, ← h, List.drop_left, List.append_assoc]

end Stream

end Nas.Stdio
