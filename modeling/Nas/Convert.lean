import Nas.InPlace
import Nas.Wire
import Nas.Audio
import Mathlib.Tactic.IntervalCases

/-!
# Sample formats

The conversions between the sample formats and the native one, which is `AuFormatLinearSigned16LSB` where the
server has the little byte order and `AuFormatLinearSigned16MSB` where it has the big one: those of the server
(`converters` in `auprocess.c`), and `AuConvertDataToShort` and `AuConvertShortToData` of the client library
(`convutil.c`). Both work in place. A sample is the list of its bytes, and its value is what they are as an
unsigned number.
-/

namespace Nas

inductive AuFormat where
  | ulaw8
  | linearUnsigned8
  | linearSigned8
  | linearSigned16MSB
  | linearUnsigned16MSB
  | linearSigned16LSB
  | linearUnsigned16LSB
deriving DecidableEq, Repr

namespace Convert
open InPlace

/-- `AuSizeofFormat` -/
def sizeof : AuFormat → Nat
  | .ulaw8 | .linearUnsigned8 | .linearSigned8 => 1
  | _ => 2

/-- An `AuInt16` from the bits of any integer. -/
def toInt16 (x : Int) : Int := x.bmod (2 ^ 16)

/-! ### ULAW -/

/-- `ulawToLinearTable`, of which the server and the library have one each. -/
def ulawToLinearTable : List Nat :=
  [0x8284, 0x8684, 0x8a84, 0x8e84, 0x9284, 0x9684, 0x9a84, 0x9e84, 0xa284, 0xa684, 0xaa84, 0xae84,
    0xb284, 0xb684, 0xba84, 0xbe84, 0xc184, 0xc384, 0xc584, 0xc784, 0xc984, 0xcb84, 0xcd84, 0xcf84,
    0xd184, 0xd384, 0xd584, 0xd784, 0xd984, 0xdb84, 0xdd84, 0xdf84, 0xe104, 0xe204, 0xe304, 0xe404,
    0xe504, 0xe604, 0xe704, 0xe804, 0xe904, 0xea04, 0xeb04, 0xec04, 0xed04, 0xee04, 0xef04, 0xf004,
    0xf0c4, 0xf144, 0xf1c4, 0xf244, 0xf2c4, 0xf344, 0xf3c4, 0xf444, 0xf4c4, 0xf544, 0xf5c4, 0xf644,
    0xf6c4, 0xf744, 0xf7c4, 0xf844, 0xf8a4, 0xf8e4, 0xf924, 0xf964, 0xf9a4, 0xf9e4, 0xfa24, 0xfa64,
    0xfaa4, 0xfae4, 0xfb24, 0xfb64, 0xfba4, 0xfbe4, 0xfc24, 0xfc64, 0xfc94, 0xfcb4, 0xfcd4, 0xfcf4,
    0xfd14, 0xfd34, 0xfd54, 0xfd74, 0xfd94, 0xfdb4, 0xfdd4, 0xfdf4, 0xfe14, 0xfe34, 0xfe54, 0xfe74,
    0xfe8c, 0xfe9c, 0xfeac, 0xfebc, 0xfecc, 0xfedc, 0xfeec, 0xfefc, 0xff0c, 0xff1c, 0xff2c, 0xff3c,
    0xff4c, 0xff5c, 0xff6c, 0xff7c, 0xff88, 0xff90, 0xff98, 0xffa0, 0xffa8, 0xffb0, 0xffb8, 0xffc0,
    0xffc8, 0xffd0, 0xffd8, 0xffe0, 0xffe8, 0xfff0, 0xfff8, 0x0000, 0x7d7c, 0x797c, 0x757c, 0x717c,
    0x6d7c, 0x697c, 0x657c, 0x617c, 0x5d7c, 0x597c, 0x557c, 0x517c, 0x4d7c, 0x497c, 0x457c, 0x417c,
    0x3e7c, 0x3c7c, 0x3a7c, 0x387c, 0x367c, 0x347c, 0x327c, 0x307c, 0x2e7c, 0x2c7c, 0x2a7c, 0x287c,
    0x267c, 0x247c, 0x227c, 0x207c, 0x1efc, 0x1dfc, 0x1cfc, 0x1bfc, 0x1afc, 0x19fc, 0x18fc, 0x17fc,
    0x16fc, 0x15fc, 0x14fc, 0x13fc, 0x12fc, 0x11fc, 0x10fc, 0x0ffc, 0x0f3c, 0x0ebc, 0x0e3c, 0x0dbc,
    0x0d3c, 0x0cbc, 0x0c3c, 0x0bbc, 0x0b3c, 0x0abc, 0x0a3c, 0x09bc, 0x093c, 0x08bc, 0x083c, 0x07bc,
    0x075c, 0x071c, 0x06dc, 0x069c, 0x065c, 0x061c, 0x05dc, 0x059c, 0x055c, 0x051c, 0x04dc, 0x049c,
    0x045c, 0x041c, 0x03dc, 0x039c, 0x036c, 0x034c, 0x032c, 0x030c, 0x02ec, 0x02cc, 0x02ac, 0x028c,
    0x026c, 0x024c, 0x022c, 0x020c, 0x01ec, 0x01cc, 0x01ac, 0x018c, 0x0174, 0x0164, 0x0154, 0x0144,
    0x0134, 0x0124, 0x0114, 0x0104, 0x00f4, 0x00e4, 0x00d4, 0x00c4, 0x00b4, 0x00a4, 0x0094, 0x0084,
    0x0078, 0x0070, 0x0068, 0x0060, 0x0058, 0x0050, 0x0048, 0x0040, 0x0038, 0x0030, 0x0028, 0x0020,
    0x0018, 0x0010, 0x0008, 0x0000]

def ulawToLinear (x : Nat) : Nat := ulawToLinearTable.getD x 0

def expLut : List Nat :=
  [0, 0, 1, 1, 2, 2, 2, 2, 3, 3, 3, 3, 3, 3, 3, 3, 4, 4, 4, 4, 4, 4, 4, 4, 4, 4, 4, 4, 4, 4, 4, 4,
    5, 5, 5, 5, 5, 5, 5, 5, 5, 5, 5, 5, 5, 5, 5, 5, 5, 5, 5, 5, 5, 5, 5, 5, 5, 5, 5, 5, 5, 5, 5, 5,
    6, 6, 6, 6, 6, 6, 6, 6, 6, 6, 6, 6, 6, 6, 6, 6, 6, 6, 6, 6, 6, 6, 6, 6, 6, 6, 6, 6, 6, 6, 6, 6,
    6, 6, 6, 6, 6, 6, 6, 6, 6, 6, 6, 6, 6, 6, 6, 6, 6, 6, 6, 6, 6, 6, 6, 6, 6, 6, 6, 6, 6, 6, 6, 6,
    7, 7, 7, 7, 7, 7, 7, 7, 7, 7, 7, 7, 7, 7, 7, 7, 7, 7, 7, 7, 7, 7, 7, 7, 7, 7, 7, 7, 7, 7, 7, 7,
    7, 7, 7, 7, 7, 7, 7, 7, 7, 7, 7, 7, 7, 7, 7, 7, 7, 7, 7, 7, 7, 7, 7, 7, 7, 7, 7, 7, 7, 7, 7, 7,
    7, 7, 7, 7, 7, 7, 7, 7, 7, 7, 7, 7, 7, 7, 7, 7, 7, 7, 7, 7, 7, 7, 7, 7, 7, 7, 7, 7, 7, 7, 7, 7,
    7, 7, 7, 7, 7, 7, 7, 7, 7, 7, 7, 7, 7, 7, 7, 7, 7, 7, 7, 7, 7, 7, 7, 7, 7, 7, 7, 7, 7, 7, 7, 7]

/-- The code of a sample in sign-magnitude form, with so much added to the magnitude. -/
def ulawByte (bias sample : Int) : Nat :=
  let sign := (sample / 2 ^ 8 % 2 ^ 8).toNat &&& 0x80
  let sample := if sign ≠ 0 then toInt16 (-sample) else sample
  let sample := toInt16 (sample + bias)
  let exponent := expLut.getD (sample / 2 ^ 7 % 2 ^ 8).toNat 0
  let mantissa := (sample / 2 ^ (exponent + 3) % 2 ^ 4).toNat
  255 - (sign ||| exponent <<< 4 ||| mantissa) % 256

/-- The body of the loop in `AuNativeToULAW8`, in which the addition of `BIAS` is a comment. -/
def nativeToULAW8 (sample : Int) : Nat := ulawByte 0 sample

/-- The library's encoder. -/
def linearToUlaw (sample : Int) : Nat := ulawByte 0x84 sample

/-! ### Samples -/

section
variable (o : ByteOrder)

/-- A conversion of values, of samples of whatever width to samples of `w` bytes. -/
def onValues (w : Nat) (g : Nat → Nat) (x : List UInt8) : List UInt8 := o.encode w (g (o.decode x))

/-- A value as an `AuInt16`. -/
def asInt16 (v : Nat) : Int := toInt16 v

/-- The two bytes of a sample, changed. -/
def onBytes (g : UInt8 → UInt8 → UInt8 × UInt8) : List UInt8 → List UInt8
  | [a, b] => [(g a b).1, (g a b).2]
  | x => x

def changeSign : List UInt8 → List UInt8 := onValues o 2 fun v => v ^^^ 0x8000
def byteSwap : List UInt8 → List UInt8 := onBytes fun a b => (b, a)
def auNeg16LSBTo16MSB : List UInt8 → List UInt8 := onBytes fun a b => (b ^^^ 0x80, a)
def auNeg16MSBto16LSB : List UInt8 → List UInt8 := onBytes fun a b => (b, a ^^^ 0x80)

/-- What the server makes of a sample of the format; for a null pointer, nothing. -/
def toNativeSample : AuFormat → List UInt8 → List UInt8
  | .ulaw8 => onValues o 2 ulawToLinear
  | .linearUnsigned8 => onValues o 2 fun s => (s <<< 8) ^^^ 0x8000
  | .linearSigned8 => onValues o 2 fun s => s <<< 8
  | .linearSigned16MSB => match o with | .big => id | .little => byteSwap
  | .linearUnsigned16MSB => match o with | .big => changeSign o | .little => auNeg16MSBto16LSB
  | .linearSigned16LSB => match o with | .big => byteSwap | .little => id
  | .linearUnsigned16LSB => match o with | .big => auNeg16LSBTo16MSB | .little => changeSign o

/-- What the server makes of a native sample. -/
def fromNativeSample : AuFormat → List UInt8 → List UInt8
  | .ulaw8 => onValues o 1 fun s => nativeToULAW8 (asInt16 s)
  | .linearUnsigned8 => onValues o 1 fun s => (s ^^^ 0x8000) >>> 8
  | .linearSigned8 => onValues o 1 fun s => s >>> 8
  | .linearSigned16MSB => match o with | .big => id | .little => byteSwap
  | .linearUnsigned16MSB => match o with | .big => changeSign o | .little => auNeg16LSBTo16MSB
  | .linearSigned16LSB => match o with | .big => byteSwap | .little => id
  | .linearUnsigned16LSB => match o with | .big => auNeg16MSBto16LSB | .little => changeSign o

/-- `(((unsigned short) x) >> 8) | (x << 8)` as a `short` -/
def swapShort (x : Nat) : Nat := (x >>> 8 ||| x <<< 8) % 2 ^ 16

/-- What `AuConvertDataToShort` makes of a sample of the format. -/
def dataToShortSample : AuFormat → List UInt8 → List UInt8
  | .ulaw8 => onValues o 2 ulawToLinear
  | .linearUnsigned8 => onValues o 2 fun x => (((x : Int) - 128) * 2 ^ 8 % 2 ^ 16).toNat
  | .linearSigned8 => onValues o 2 fun x => x <<< 8
  | .linearSigned16MSB => match o with | .big => id | .little => onValues o 2 swapShort
  | .linearUnsigned16MSB =>
    match o with
    | .big => onValues o 2 fun x => x ^^^ 0x8000
    | .little => onValues o 2 fun x => swapShort x ^^^ 0x8000
  | .linearSigned16LSB => match o with | .big => onValues o 2 swapShort | .little => id
  | .linearUnsigned16LSB =>
    match o with
    | .big => onValues o 2 fun x => swapShort x ^^^ 0x8000
    | .little => onValues o 2 fun x => x ^^^ 0x8000

/-- What `AuConvertShortToData` makes of a native sample. -/
def shortToDataSample : AuFormat → List UInt8 → List UInt8
  | .ulaw8 => onValues o 1 fun x => linearToUlaw (asInt16 x)
  | .linearUnsigned8 => onValues o 1 fun x => ((asInt16 x / 2 ^ 8 + 128) % 2 ^ 8).toNat
  | .linearSigned8 => onValues o 1 fun x => x >>> 8
  | .linearSigned16MSB => match o with | .big => id | .little => onValues o 2 swapShort
  | .linearUnsigned16MSB =>
    match o with
    | .big => onValues o 2 fun x => x ^^^ 0x8000
    | .little => onValues o 2 fun x => swapShort x ^^^ 0x8000
  | .linearSigned16LSB => match o with | .big => onValues o 2 swapShort | .little => id
  | .linearUnsigned16LSB =>
    match o with
    | .big => onValues o 2 fun x => swapShort x ^^^ 0x8000
    | .little => onValues o 2 fun x => x ^^^ 0x8000

end

/-! ### The loops -/

section
variable (f : List UInt8 → List UInt8) (total : Nat)

/-- The loop of `AuULAW8ToNative`, with so many samples left below. Its counter is an `AuInt16`, and in front of
the buffer there is nothing to read. -/
def ulawDown : (left : Nat) → List UInt8 → Exec (List UInt8)
  | 0, m => if asInt16 total < total then .error .fault else .ok m
  | left + 1, m =>
    if asInt16 (total - (left + 1)) < total then do
      let m ← InPlace.step f 1 2 left m
      ulawDown left m
    else .ok m

/-- The loop of `AuNativeToULAW8`, with an `AuInt16` for a counter, too. It leaves the buffer before `rounds` are
over. -/
def ulawUp : (rounds k : Nat) → List UInt8 → Exec (List UInt8)
  | 0, _, _ => .error .fuel
  | rounds + 1, k, m =>
    if asInt16 k < total then do
      let m ← InPlace.step f 2 1 k m
      ulawUp rounds (k + 1) m
    else .ok m

end

section
variable (o : ByteOrder) (format : AuFormat) (tracks numSamples : Nat) (m : List UInt8)

/-- `toNativeFormat` -/
def toNative : Exec (List UInt8) :=
  let total := numSamples * tracks
  match format with
  | .ulaw8 => ulawDown (toNativeSample o format) total total m
  | .linearUnsigned8 | .linearSigned8 => backward (toNativeSample o format) 1 2 total m
  | _ => forward (toNativeSample o format) 2 2 total 0 m

/-- `fromNativeFormat` -/
def fromNative : Exec (List UInt8) :=
  let total := numSamples * tracks
  match format with
  | .ulaw8 => ulawUp (fromNativeSample o format) total (m.length + 1) 0 m
  | .linearUnsigned8 | .linearSigned8 => forward (fromNativeSample o format) 2 1 total 0 m
  | _ => forward (fromNativeSample o format) 2 2 total 0 m

/-- `AuConvertDataToShort` of that many samples. -/
def auConvertDataToShort (samples : Nat) : Exec (List UInt8) :=
  backward (dataToShortSample o format) (sizeof format) 2 samples m

/-- `AuConvertShortToData` of that many samples. -/
def auConvertShortToData (samples : Nat) : Exec (List UInt8) :=
  forward (shortToDataSample o format) 2 (sizeof format) samples 0 m

end

/-! ### Values -/

section
variable {v a s : Nat}

/-- To change the sign bit is to add it. -/
theorem xor_sign (h : v < 2 ^ 16) : v ^^^ 0x8000 = (v + 0x8000) % 2 ^ 16 := by
  have hhigh : (v ^^^ 0x8000) / 2 ^ 8 = (v / 2 ^ 8) ^^^ 0x80 := by
    rw [Nat.xor_div_two_pow]
  have hlow : (v ^^^ 0x8000) % 2 ^ 8 = v % 2 ^ 8 := by
    rw [Nat.xor_mod_two_pow]
    simp
  have hall : ∀ u < 256, u ^^^ 0x80 = (u + 0x80) % 256 := by decide +kernel
  rw [hall (v / 2 ^ 8) (by omega)] at hhigh
  omega

theorem or_fields {sign exponent mantissa : Nat} (hs : sign = 0 ∨ sign = 0x80) (he : exponent < 8) (hm : mantissa < 16) :
    sign ||| exponent <<< 4 ||| mantissa = sign + 16 * exponent + mantissa := by
  have hall : ∀ e < 8, ∀ m < 16, (0 ||| e <<< 4 ||| m = 0 + 16 * e + m) ∧ (0x80 ||| e <<< 4 ||| m = 0x80 + 16 * e + m) := by
    decide
  rcases hs with rfl | rfl
  · exact (hall exponent he mantissa hm).1
  · exact (hall exponent he mantissa hm).2

theorem expLut_lt {i : Nat} (h : i < 256) : expLut.getD i 0 < 8 := by
  have hall : ∀ i < 256, expLut.getD i 0 < 8 := by decide +kernel
  exact hall i h

/-- `exp_lut` has the binary logarithms. -/
theorem expLut_eq {e i : Nat} (he : e < 8) (hlow : e = 0 ∨ 2 ^ e ≤ i) (hhigh : i < 2 ^ (e + 1)) : expLut.getD i 0 = e := by
  have hall : ∀ e < 8, ∀ i < 2 ^ (e + 1), e = 0 ∨ 2 ^ e ≤ i → expLut.getD i 0 = e := by decide +kernel
  exact hall e he i hhigh hlow

/-- The segment and the step of a magnitude. -/
def segment (p : Nat) : Nat :=
  let exponent := expLut.getD (p / 2 ^ 7 % 2 ^ 8) 0
  16 * exponent + p / 2 ^ (exponent + 3) % 16

theorem segment_lt (p : Nat) : segment p < 128 := by
  have he : expLut.getD (p / 2 ^ 7 % 2 ^ 8) 0 < 8 := expLut_lt (Nat.mod_lt _ (by decide))
  have hm (q : Nat) : q % 16 < 16 := Nat.mod_lt _ (by decide)
  rw [segment]
  generalize expLut.getD (p / 2 ^ 7 % 2 ^ 8) 0 = e at he
  have := hm (p / 2 ^ (e + 3))
  omega

theorem toInt16_eq (p : Nat) (hp : p < 2 ^ 16) : toInt16 p = if p < 2 ^ 15 then (p : Int) else p - 2 ^ 16 := by
  rw [toInt16, Int.bmod_def]
  split <;> split <;> omega

theorem toInt16_add (x y : Int) : toInt16 (toInt16 x + y) = toInt16 (x + y) := by
  rw [toInt16, toInt16, toInt16, Int.bmod_add_bmod]

/-- The arithmetic of 16 bits and signs leaves of a sample its sign, and the segment of its magnitude. -/
theorem ulawByte_eq {x : Int} (hx : -2 ^ 15 ≤ x) (hx' : x < 2 ^ 15) (bias : Nat) (hb : bias < 2 ^ 15) :
    ulawByte bias x = 255 - ((if x < 0 then 0x80 else 0) + segment (x.natAbs + bias)) := by
  have hand : ∀ u < 256, u &&& 0x80 = if u < 128 then 0 else 0x80 := by decide +kernel
  have hsign : (x / 2 ^ 8 % 2 ^ 8).toNat &&& 0x80 = if x < 0 then 0x80 else 0 := by
    rw [hand _ (by omega)]
    split <;> split <;> omega
  have hsample : toInt16 ((if (if x < 0 then 0x80 else 0) ≠ 0 then toInt16 (-x) else x) + bias) =
      toInt16 ((x.natAbs + bias : Nat) : Int) := by
    by_cases hneg : x < 0
    · rw [if_pos hneg, if_pos (by decide), toInt16_add]
      congr 1
      omega
    · rw [if_neg hneg, if_neg (by decide)]
      congr 1
      omega
  unfold ulawByte
  dsimp only
  rw [hsign, hsample]
  have hp : x.natAbs + bias < 2 ^ 16 := by omega
  generalize x.natAbs + bias = p at hp
  have hidx : (toInt16 (p : Int) / 2 ^ 7 % 2 ^ 8).toNat = p / 2 ^ 7 % 2 ^ 8 := by
    rw [toInt16_eq p hp]
    split <;> omega
  rw [hidx, segment]
  have he : expLut.getD (p / 2 ^ 7 % 2 ^ 8) 0 < 8 := expLut_lt (Nat.mod_lt _ (by decide))
  generalize expLut.getD (p / 2 ^ 7 % 2 ^ 8) 0 = e at he
  have hmant : (toInt16 (p : Int) / 2 ^ (e + 3) % 2 ^ 4).toNat = p / 2 ^ (e + 3) % 16 := by
    rw [toInt16_eq p hp]
    interval_cases e <;> split <;> omega
  have hm : p / 2 ^ (e + 3) % 16 < 16 := Nat.mod_lt _ (by decide)
  rw [hmant, or_fields (by split <;> simp) he hm, Nat.mod_eq_of_lt (by split <;> omega), Nat.add_assoc]

/-- A bias of `0x84` makes no difference to a magnitude. -/
def BiasFree (a : Nat) : Prop :=
  a < 124 ∧ a % 8 < 4 ∨ 4096 ≤ a ∧ a < 8192 ∧ a % 256 < 124 ∨ 8192 ≤ a ∧ a < 16384 ∧ a % 512 < 380 ∨
    16384 ≤ a ∧ a % 1024 < 892

theorem segment_of {p : Nat} (e : Nat) (he : expLut.getD (p / 2 ^ 7 % 2 ^ 8) 0 = e) :
    segment p = 16 * e + p / 2 ^ (e + 3) % 16 := by
  rw [segment, he]

/-- Segment `e` begins at 128 · 2^e, but for the first one, which begins at 0. -/
theorem segment_in {p : Nat} (e : Nat) (he : e < 8) (hlow : e = 0 ∨ 2 ^ (e + 7) ≤ p) (hhigh : p < 2 ^ (e + 8)) :
    segment p = 16 * e + p / 2 ^ (e + 3) % 16 := by
  refine segment_of e ?_
  have hp : p < 2 ^ 15 := hhigh.trans_le (Nat.pow_le_pow_right (by decide) (by omega))
  have hidx : p / 2 ^ 7 % 2 ^ 8 = p / 2 ^ 7 := Nat.mod_eq_of_lt (Nat.div_lt_of_lt_mul (by omega))
  rw [hidx]
  refine expLut_eq he (hlow.imp_right fun h => ?_) ?_
  · rw [Nat.le_div_iff_mul_le (by decide), ← Nat.pow_add]
    exact h
  · refine Nat.div_lt_of_lt_mul ?_
    rw [← Nat.pow_add]
    exact hhigh.trans_eq (congrArg _ (by omega))

theorem segment_bias {a : Nat} (ha : a ≤ 2 ^ 15) : segment a = segment (a + 0x84) ↔ BiasFree a := by
  have htop (p : Nat) (hp : 2 ^ 15 ≤ p) (hp' : p < 2 ^ 15 + 256) : segment p = 16 * 0 + p / 2 ^ (0 + 3) % 16 := by
    refine segment_of 0 (expLut_eq (by decide) (.inl rfl) ?_)
    omega
  unfold BiasFree
  -- where the segment of the magnitude begins, and where that of the biased one does
  by_cases h : a < 124
  · rw [segment_in 0 (by decide) (.inl rfl) (by omega), segment_in 0 (by decide) (.inl rfl) (by omega)]
    omega
  by_cases h : a < 256
  · rw [segment_in 0 (by decide) (.inl rfl) (by omega), segment_in 1 (by decide) (.inr (by omega)) (by omega)]
    omega
  by_cases h : a < 380
  · rw [segment_in 1 (by decide) (.inr (by omega)) (by omega), segment_in 1 (by decide) (.inr (by omega)) (by omega)]
    omega
  by_cases h : a < 512
  · rw [segment_in 1 (by decide) (.inr (by omega)) (by omega), segment_in 2 (by decide) (.inr (by omega)) (by omega)]
    omega
  by_cases h : a < 892
  · rw [segment_in 2 (by decide) (.inr (by omega)) (by omega), segment_in 2 (by decide) (.inr (by omega)) (by omega)]
    omega
  by_cases h : a < 1024
  · rw [segment_in 2 (by decide) (.inr (by omega)) (by omega), segment_in 3 (by decide) (.inr (by omega)) (by omega)]
    omega
  by_cases h : a < 1916
  · rw [segment_in 3 (by decide) (.inr (by omega)) (by omega), segment_in 3 (by decide) (.inr (by omega)) (by omega)]
    omega
  by_cases h : a < 2048
  · rw [segment_in 3 (by decide) (.inr (by omega)) (by omega), segment_in 4 (by decide) (.inr (by omega)) (by omega)]
    omega
  by_cases h : a < 3964
  · rw [segment_in 4 (by decide) (.inr (by omega)) (by omega), segment_in 4 (by decide) (.inr (by omega)) (by omega)]
    omega
  by_cases h : a < 4096
  · rw [segment_in 4 (by decide) (.inr (by omega)) (by omega), segment_in 5 (by decide) (.inr (by omega)) (by omega)]
    omega
  by_cases h : a < 8060
  · rw [segment_in 5 (by decide) (.inr (by omega)) (by omega), segment_in 5 (by decide) (.inr (by omega)) (by omega)]
    omega
  by_cases h : a < 8192
  · rw [segment_in 5 (by decide) (.inr (by omega)) (by omega), segment_in 6 (by decide) (.inr (by omega)) (by omega)]
    omega
  by_cases h : a < 16252
  · rw [segment_in 6 (by decide) (.inr (by omega)) (by omega), segment_in 6 (by decide) (.inr (by omega)) (by omega)]
    omega
  by_cases h : a < 16384
  · rw [segment_in 6 (by decide) (.inr (by omega)) (by omega), segment_in 7 (by decide) (.inr (by omega)) (by omega)]
    omega
  by_cases h : a < 32636
  · rw [segment_in 7 (by decide) (.inr (by omega)) (by omega), segment_in 7 (by decide) (.inr (by omega)) (by omega)]
    omega
  by_cases h : a < 32768
  · rw [segment_in 7 (by decide) (.inr (by omega)) (by omega), htop (a + 0x84) (by omega) (by omega)]
    omega
  rw [htop a (by omega) (by omega), htop (a + 0x84) (by omega) (by omega)]
  omega

end

/-! ### One sample -/

section
variable {o : ByteOrder} {w w' v : Nat} {g h : Nat → Nat} {x : List UInt8} {a b : UInt8}

theorem decode_one (u : UInt8) : o.decode [u] = u.toNat := by
  cases o <;> simp [ByteOrder.decode, valueOf]

theorem decode_little (a b : UInt8) : ByteOrder.little.decode [a, b] = a.toNat + 256 * b.toNat := by
  simp [ByteOrder.decode, valueOf]

theorem decode_big (a b : UInt8) : ByteOrder.big.decode [a, b] = b.toNat + 256 * a.toNat := by
  simp [ByteOrder.decode, valueOf]

theorem encode_little (v : Nat) : ByteOrder.little.encode 2 v = [UInt8.ofNat v, UInt8.ofNat (v / 256)] := rfl

theorem encode_big (v : Nat) : ByteOrder.big.encode 2 v = [UInt8.ofNat (v / 256), UInt8.ofNat v] := rfl

theorem onValues_onValues (hg : g (o.decode x) < 256 ^ w) :
    onValues o w' h (onValues o w g x) = onValues o w' (fun v => h (g v)) x := by
  rw [onValues, onValues, onValues, ByteOrder.decode_encode hg]

theorem onValues_self (hx : x.length = w) (hg : g (o.decode x) = o.decode x) : onValues o w g x = x := by
  rw [onValues, hg, ByteOrder.encode_decode hx]

theorem onValues_congr (hgh : g (o.decode x) = h (o.decode x)) : onValues o w g x = onValues o w h x := by
  rw [onValues, onValues, hgh]

theorem onValues_inj (hg : g (o.decode x) < 256 ^ w) (hh : h (o.decode x) < 256 ^ w) :
    onValues o w g x = onValues o w h x ↔ g (o.decode x) = h (o.decode x) := by
  constructor
  · intro he
    have := congrArg o.decode he
    rwa [onValues, onValues, ByteOrder.decode_encode hg, ByteOrder.decode_encode hh] at this
  · exact onValues_congr

theorem swapShort_eq (hv : v < 2 ^ 16) : swapShort v = v % 256 * 256 + v / 256 := by
  have hor : v >>> 8 ||| v <<< 8 = v <<< 8 + v >>> 8 := by
    rw [Nat.or_comm, Nat.shiftLeft_add_eq_or_of_lt]
    rw [Nat.shiftRight_eq_div_pow]
    omega
  rw [swapShort, hor, Nat.shiftRight_eq_div_pow, Nat.shiftLeft_eq]
  omega

theorem toNat_xor_sign (u : UInt8) : (u ^^^ 0x80).toNat = (u.toNat + 0x80) % 256 := by
  have hall : ∀ u < 256, u ^^^ 0x80 = (u + 0x80) % 256 := by decide +kernel
  rw [UInt8.toNat_xor]
  exact hall _ u.toNat_lt

theorem decode_two_lt (hx : x.length = 2) : o.decode x < 2 ^ 16 := ByteOrder.decode_lt hx

theorem changeSign_changeSign (hx : x.length = 2) : changeSign o (changeSign o x) = x := by
  have hv : o.decode x < 2 ^ 16 := decode_two_lt hx
  unfold changeSign
  rw [onValues_onValues]
  · refine onValues_self hx ?_
    rw [Nat.xor_assoc, Nat.xor_self, Nat.xor_zero]
  · rw [xor_sign hv]
    exact Nat.mod_lt _ (by decide)

theorem byteSwap_eq (hx : x.length = 2) : byteSwap x = onValues o 2 swapShort x := by
  obtain ⟨a, b, rfl⟩ := List.length_eq_two.1 hx
  have ha := a.toNat_lt
  have hb := b.toNat_lt
  cases o with
  | little =>
    rw [onValues, decode_little, swapShort_eq (by omega), encode_little,
      show (a.toNat + 256 * b.toNat) % 256 * 256 + (a.toNat + 256 * b.toNat) / 256 = b.toNat + 256 * a.toNat by omega,
      show (b.toNat + 256 * a.toNat) / 256 = a.toNat by omega]
    simp [byteSwap, onBytes, UInt8.ofNat_add]
  | big =>
    rw [onValues, decode_big, swapShort_eq (by omega), encode_big,
      show (b.toNat + 256 * a.toNat) % 256 * 256 + (b.toNat + 256 * a.toNat) / 256 = a.toNat + 256 * b.toNat by omega,
      show (a.toNat + 256 * b.toNat) / 256 = b.toNat by omega]
    simp [byteSwap, onBytes, UInt8.ofNat_add]

theorem auNeg16MSBto16LSB_eq (hx : x.length = 2) :
    auNeg16MSBto16LSB x = onValues .little 2 (fun v => swapShort v ^^^ 0x8000) x := by
  obtain ⟨a, b, rfl⟩ := List.length_eq_two.1 hx
  have ha := a.toNat_lt
  have hb := b.toNat_lt
  have hxor := toNat_xor_sign a
  have hv : ((a.toNat + 256 * b.toNat) % 256 * 256 + (a.toNat + 256 * b.toNat) / 256 + 0x8000) % 2 ^ 16 =
      b.toNat + 256 * ((a.toNat + 0x80) % 256) := by
    have hdiv : (a.toNat + 256 * b.toNat) / 256 = b.toNat := by omega
    have hmod : (a.toNat + 256 * b.toNat) % 256 = a.toNat := by omega
    rw [hdiv, hmod]
    omega
  rw [onValues, decode_little, swapShort_eq (by omega), xor_sign (by omega), hv, encode_little,
    show (b.toNat + 256 * ((a.toNat + 0x80) % 256)) / 256 = (a.toNat + 0x80) % 256 by omega, ← hxor]
  simp [auNeg16MSBto16LSB, onBytes, UInt8.ofNat_add]

theorem auNeg16LSBTo16MSB_eq (hx : x.length = 2) :
    auNeg16LSBTo16MSB x = onValues .big 2 (fun v => swapShort v ^^^ 0x8000) x := by
  obtain ⟨a, b, rfl⟩ := List.length_eq_two.1 hx
  have ha := a.toNat_lt
  have hb := b.toNat_lt
  have hxor := toNat_xor_sign b
  have hv : ((b.toNat + 256 * a.toNat) % 256 * 256 + (b.toNat + 256 * a.toNat) / 256 + 0x8000) % 2 ^ 16 =
      a.toNat + 256 * ((b.toNat + 0x80) % 256) := by
    have hdiv : (b.toNat + 256 * a.toNat) / 256 = a.toNat := by omega
    have hmod : (b.toNat + 256 * a.toNat) % 256 = b.toNat := by omega
    rw [hdiv, hmod]
    omega
  rw [onValues, decode_big, swapShort_eq (by omega), xor_sign (by omega), hv, encode_big,
    show (a.toNat + 256 * ((b.toNat + 0x80) % 256)) / 256 = (b.toNat + 0x80) % 256 by omega, ← hxor]
  simp [auNeg16LSBTo16MSB, onBytes, UInt8.ofNat_add]

theorem xor_xor_sign (u : UInt8) : u ^^^ 0x80 ^^^ 0x80 = u := by
  rw [UInt8.xor_assoc, UInt8.xor_self, UInt8.xor_zero]

theorem neg_neg (hx : x.length = 2) :
    auNeg16LSBTo16MSB (auNeg16MSBto16LSB x) = x ∧ auNeg16MSBto16LSB (auNeg16LSBTo16MSB x) = x := by
  obtain ⟨a, b, rfl⟩ := List.length_eq_two.1 hx
  simp [auNeg16MSBto16LSB, auNeg16LSBTo16MSB, onBytes, xor_xor_sign]

/-- To change the sign in front of the exchange is not to change it behind. -/
theorem neg_ne (hx : x.length = 2) : auNeg16LSBTo16MSB x ≠ auNeg16MSBto16LSB x := by
  obtain ⟨a, b, rfl⟩ := List.length_eq_two.1 hx
  intro h
  have hb : b ^^^ 0x80 = b := by simpa [auNeg16MSBto16LSB, auNeg16LSBTo16MSB, onBytes] using congrArg List.head? h
  have hxor := toNat_xor_sign b
  have := b.toNat_lt
  rw [hb] at hxor
  omega

theorem length_converted (format : AuFormat) :
    InPlace.Converts (toNativeSample o format) (sizeof format) 2 ∧ InPlace.Converts (fromNativeSample o format) 2 (sizeof format) ∧
      InPlace.Converts (dataToShortSample o format) (sizeof format) 2 ∧ InPlace.Converts (shortToDataSample o format) 2 (sizeof format) := by
  have honBytes : ∀ g x, x.length = 2 → (onBytes g x).length = 2 := by
    intro g x hx
    obtain ⟨a, b, rfl⟩ := List.length_eq_two.1 hx
    rfl
  refine ⟨?_, ?_, ?_, ?_⟩ <;> cases format <;> cases o <;> intro x hx <;>
    simp [toNativeSample, fromNativeSample, dataToShortSample, shortToDataSample, onValues, changeSign, sizeof] at hx ⊢ <;>
    first
    | exact hx
    | exact honBytes _ _ hx

/-- The library has the unsigned format of the other byte order wrong. -/
def OtherUnsigned (o : ByteOrder) (format : AuFormat) : Prop :=
  format = .linearUnsigned16MSB ∧ o = .little ∨ format = .linearUnsigned16LSB ∧ o = .big

/-- The codes of the two lowest segments and of the highest one. -/
def OuterSegment (u : Nat) : Prop := u / 16 % 8 = 0 ∨ u / 16 % 8 = 1 ∨ u / 16 % 8 = 7

instance (u : Nat) : Decidable (OuterSegment u) := inferInstanceAs (Decidable (_ ∨ _))

/-- The same sample: of ULAW there are two codes of zero. -/
def SameSample (format : AuFormat) (x y : List UInt8) : Prop :=
  x = y ∨ format = .ulaw8 ∧ x ∈ [[0x7f], [0xff]] ∧ y ∈ [[0x7f], [0xff]]

theorem ulaw_roundTrip (u : Nat) (hu : u < 256) :
    ulawToLinear u < 2 ^ 16 ∧ nativeToULAW8 (asInt16 (ulawToLinear u)) < 256 ∧
      ((nativeToULAW8 (asInt16 (ulawToLinear u)) = u ∨
        nativeToULAW8 (asInt16 (ulawToLinear u)) ∈ [0x7f, 0xff] ∧ u ∈ [0x7f, 0xff]) ↔ OuterSegment u) := by
  revert u
  decide +kernel

theorem roundTrip_linear {format : AuFormat} (hf : format ≠ .ulaw8) (hx : x.length = sizeof format) :
    fromNativeSample o format (toNativeSample o format x) = x := by
  have hone : ∀ g h : Nat → Nat, x.length = 1 → (∀ v < 2 ^ 8, g v < 2 ^ 16 ∧ h (g v) = v) →
      onValues o 1 h (onValues o 2 g x) = x := by
    intro g h hx hgh
    have hv : o.decode x < 2 ^ 8 := ByteOrder.decode_lt hx
    rw [onValues_onValues (hgh _ hv).1]
    exact onValues_self hx (hgh _ hv).2
  have hswap : x.length = 2 → byteSwap (byteSwap x) = x := by
    intro hx
    obtain ⟨a, b, rfl⟩ := List.length_eq_two.1 hx
    rfl
  cases format with
  | ulaw8 => exact absurd rfl hf
  | linearUnsigned8 =>
    refine hone (fun s => (s <<< 8) ^^^ 0x8000) (fun s => (s ^^^ 0x8000) >>> 8) hx fun v hv => ⟨?_, ?_⟩
    · refine Nat.xor_lt_two_pow ?_ (by decide)
      rw [Nat.shiftLeft_eq]
      omega
    · rw [Nat.xor_assoc, Nat.xor_self, Nat.xor_zero, Nat.shiftLeft_shiftRight]
  | linearSigned8 =>
    refine hone (fun s => s <<< 8) (fun s => s >>> 8) hx fun v hv => ⟨?_, ?_⟩
    · rw [Nat.shiftLeft_eq]
      omega
    · rw [Nat.shiftLeft_shiftRight]
  | linearSigned16MSB =>
    cases o with
    | little => exact hswap hx
    | big => rfl
  | linearUnsigned16MSB =>
    cases o with
    | little => exact (neg_neg hx).1
    | big => exact changeSign_changeSign hx
  | linearSigned16LSB =>
    cases o with
    | little => rfl
    | big => exact hswap hx
  | linearUnsigned16LSB =>
    cases o with
    | little => exact changeSign_changeSign hx
    | big => exact (neg_neg hx).2

theorem roundTrip_iff {format : AuFormat} (hx : x.length = sizeof format) :
    SameSample format (fromNativeSample o format (toNativeSample o format x)) x ↔
      (format = .ulaw8 → OuterSegment (o.decode x)) := by
  by_cases hf : format = .ulaw8
  · subst hf
    obtain ⟨u, rfl⟩ := List.length_eq_one_iff.1 hx
    obtain ⟨hlinear, hcode, hiff⟩ := ulaw_roundTrip u.toNat u.toNat_lt
    have hsame : fromNativeSample o .ulaw8 (toNativeSample o .ulaw8 [u]) =
        o.encode 1 (nativeToULAW8 (asInt16 (ulawToLinear u.toNat))) := by
      rw [toNativeSample, fromNativeSample, onValues_onValues (by rw [decode_one]; exact hlinear), onValues, decode_one]
    have hone : ∀ n, o.encode 1 n = [UInt8.ofNat n] := by
      intro n
      cases o <;> rfl
    have hmem : ∀ n < 256, ([UInt8.ofNat n] ∈ ([[0x7f], [0xff]] : List (List UInt8)) ↔ n ∈ [0x7f, 0xff]) := by
      decide +kernel
    have hu : [u] = [UInt8.ofNat u.toNat] := by rw [UInt8.ofNat_toNat]
    rw [hsame, hone, decode_one, ← hiff, SameSample]
    constructor
    · intro h _
      rcases h with h | ⟨-, h₁, h₂⟩
      · left
        have := congrArg UInt8.toNat (List.head_eq_of_cons_eq h)
        rwa [UInt8.toNat_ofNat', Nat.mod_eq_of_lt hcode] at this
      · right
        rw [hu] at h₂
        exact ⟨(hmem _ hcode).1 h₁, (hmem _ u.toNat_lt).1 h₂⟩
    · intro h
      rcases h rfl with h | ⟨h₁, h₂⟩
      · left
        rw [h, UInt8.ofNat_toNat]
      · right
        rw [hu]
        exact ⟨rfl, (hmem _ hcode).2 h₁, (hmem _ u.toNat_lt).2 h₂⟩
  · rw [roundTrip_linear hf hx]
    exact ⟨fun _ h => absurd h hf, fun _ => .inl rfl⟩

theorem toNative_eq_dataToShort {format : AuFormat} (hx : x.length = sizeof format) :
    toNativeSample o format x = dataToShortSample o format x := by
  cases format with
  | ulaw8 => rfl
  | linearUnsigned8 =>
    have hv : o.decode x < 2 ^ 8 := ByteOrder.decode_lt hx
    refine onValues_congr (g := fun s => (s <<< 8) ^^^ 0x8000)
      (h := fun x => (((x : Int) - 128) * 2 ^ 8 % 2 ^ 16).toNat) ?_
    simp only [Nat.shiftLeft_eq]
    rw [xor_sign (by omega)]
    omega
  | linearSigned8 => rfl
  | linearSigned16MSB =>
    cases o with
    | little => exact byteSwap_eq hx
    | big => rfl
  | linearUnsigned16MSB =>
    cases o with
    | little => exact auNeg16MSBto16LSB_eq hx
    | big => rfl
  | linearSigned16LSB =>
    cases o with
    | little => rfl
    | big => exact byteSwap_eq hx
  | linearUnsigned16LSB =>
    cases o with
    | little => rfl
    | big => exact auNeg16LSBTo16MSB_eq hx

theorem asInt16_range {v : Nat} (hv : v < 2 ^ 16) : -2 ^ 15 ≤ asInt16 v ∧ asInt16 v < 2 ^ 15 := by
  rw [asInt16, toInt16_eq v hv]
  split <;> omega

/-- The codes of the server and of the library for one sample. -/
theorem nativeToULAW8_eq_iff {x : Int} (hx : -2 ^ 15 ≤ x) (hx' : x < 2 ^ 15) :
    nativeToULAW8 x < 256 ∧ linearToUlaw x < 256 ∧ (nativeToULAW8 x = linearToUlaw x ↔ BiasFree x.natAbs) := by
  have hserver : ulawByte 0 x = 255 - ((if x < 0 then 0x80 else 0) + segment x.natAbs) :=
    ulawByte_eq hx hx' 0 (by decide)
  have hlibrary : ulawByte 0x84 x = 255 - ((if x < 0 then 0x80 else 0) + segment (x.natAbs + 0x84)) :=
    ulawByte_eq hx hx' 0x84 (by decide)
  have h₁ := segment_lt x.natAbs
  have h₂ := segment_lt (x.natAbs + 0x84)
  rw [nativeToULAW8, linearToUlaw, ← segment_bias (a := x.natAbs) (by omega), hserver, hlibrary]
  split <;> omega

/-- The high byte of a native sample, as both have it. -/
theorem unsigned8_of_native {v : Nat} (hv : v < 2 ^ 16) :
    (v ^^^ 0x8000) >>> 8 = ((asInt16 v / 2 ^ 8 + 128) % 2 ^ 8).toNat := by
  rw [xor_sign hv, Nat.shiftRight_eq_div_pow, asInt16, toInt16_eq _ hv]
  split <;> omega

theorem fromNative_eq_shortToData_iff {format : AuFormat} (hx : x.length = 2) :
    fromNativeSample o format x = shortToDataSample o format x ↔
      (format = .ulaw8 → BiasFree (asInt16 (o.decode x)).natAbs) ∧ ¬ OtherUnsigned o format := by
  have hv : o.decode x < 2 ^ 16 := decode_two_lt hx
  cases format with
  | ulaw8 =>
    have hrange := asInt16_range hv
    obtain ⟨hserver, hlibrary, hiff⟩ := nativeToULAW8_eq_iff hrange.1 hrange.2
    have hsame : fromNativeSample o .ulaw8 x = shortToDataSample o .ulaw8 x ↔ _ :=
      onValues_inj (w := 1) (g := fun s => nativeToULAW8 (asInt16 s)) (h := fun s => linearToUlaw (asInt16 s))
        hserver hlibrary
    rw [hsame, hiff]
    simp [OtherUnsigned]
  | linearUnsigned8 =>
    have : fromNativeSample o .linearUnsigned8 x = shortToDataSample o .linearUnsigned8 x := by
      unfold fromNativeSample shortToDataSample onValues
      exact congrArg (o.encode 1) (unsigned8_of_native hv)
    simp [this, OtherUnsigned]
  | linearSigned8 => simp [fromNativeSample, shortToDataSample, OtherUnsigned]
  | linearSigned16MSB =>
    cases o with
    | little => simp [fromNativeSample, shortToDataSample, OtherUnsigned, byteSwap_eq (o := .little) hx]
    | big => simp [fromNativeSample, shortToDataSample, OtherUnsigned]
  | linearUnsigned16MSB =>
    cases o with
    | little => simp [fromNativeSample, shortToDataSample, OtherUnsigned, ← auNeg16MSBto16LSB_eq hx, neg_ne hx]
    | big => simp [fromNativeSample, shortToDataSample, OtherUnsigned, changeSign]
  | linearSigned16LSB =>
    cases o with
    | little => simp [fromNativeSample, shortToDataSample, OtherUnsigned]
    | big => simp [fromNativeSample, shortToDataSample, OtherUnsigned, byteSwap_eq (o := .big) hx]
  | linearUnsigned16LSB =>
    cases o with
    | little => simp [fromNativeSample, shortToDataSample, OtherUnsigned, changeSign]
    | big => simp [fromNativeSample, shortToDataSample, OtherUnsigned, ← auNeg16LSBTo16MSB_eq hx, (neg_ne hx).symm]

end

/-! ### The counters of 16 bits -/

section
variable {f : List UInt8 → List UInt8} {total left rounds k : Nat} {m : List UInt8}

theorem asInt16_of_lt (h : k < 2 ^ 15) : asInt16 k = k := by
  rw [asInt16, toInt16_eq k (by omega), if_pos h]

theorem asInt16_lt (k : Nat) : asInt16 k < 2 ^ 15 := by
  rw [asInt16, toInt16, Int.bmod_def]
  split <;> omega

theorem ulawDown_eq (h : total < 2 ^ 15) (hleft : left ≤ total) : ulawDown f total left m = backward f 1 2 left m := by
  induction left generalizing m with
  | zero => rw [ulawDown, asInt16_of_lt h, if_neg (lt_irrefl _), backward]
  | succ left ih =>
    rw [ulawDown, asInt16_of_lt (by omega), if_pos (by omega), backward]
    congr 1
    funext m
    exact ih (by omega)

theorem ulawUp_eq (h : total < 2 ^ 15) (hk : k ≤ total) (hr : total - k < rounds) :
    ulawUp f total rounds k m = forward f 2 1 (total - k) k m := by
  induction rounds generalizing k m with
  | zero => omega
  | succ rounds ih =>
    rw [ulawUp, asInt16_of_lt (by omega)]
    by_cases hlt : k < total
    · rw [if_pos (by omega), show total - k = total - (k + 1) + 1 by omega, forward]
      congr 1
      funext m
      exact ih (by omega) (by omega)
    · rw [if_neg (by omega), show total - k = 0 by omega, forward]

/-- From so many samples on the counter never gets there. -/
theorem ulawDown_ne (h : 2 ^ 15 ≤ total) (m' : List UInt8) : ulawDown f total left m ≠ .ok m' := by
  induction left generalizing m with
  | zero =>
    have := asInt16_lt total
    rw [ulawDown, if_pos (by omega)]
    intro h
    cases h
  | succ left ih =>
    have := asInt16_lt (total - (left + 1))
    rw [ulawDown, if_pos (by omega)]
    rcases hstep : InPlace.step f 1 2 left m with e | m₁
    · intro h
      cases h
    · exact ih

theorem ulawUp_ne (h : 2 ^ 15 ≤ total) (m' : List UInt8) : ulawUp f total rounds k m ≠ .ok m' := by
  induction rounds generalizing k m with
  | zero =>
    intro h
    cases h
  | succ rounds ih =>
    have := asInt16_lt k
    rw [ulawUp, if_pos (by omega)]
    rcases hstep : InPlace.step f 2 1 k m with e | m₁
    · intro h
      cases h
    · exact ih

end

/-! ### Buffers -/

/-- A buffer of samples, with room for native ones. -/
structure SampleBuffer where
  tracks : Nat
  numSamples : Nat
  bytes : List UInt8
  room : numSamples * tracks * 2 ≤ bytes.length
  /-- an `AuInt32` counts them -/
  size : bytes.length < 2 ^ 31

namespace SampleBuffer

def total (b : SampleBuffer) : Nat := b.numSamples * b.tracks

/-- What the server and the library make of a buffer, as samples of the format and as native ones. -/
structure Agrees (o : ByteOrder) (format : AuFormat) (b : SampleBuffer) : Prop where
  toNative : toNative o format b.tracks b.numSamples b.bytes =
    .ok (convertAll (toNativeSample o format) (sizeof format) 2 b.total b.bytes)
  fromNative : fromNative o format b.tracks b.numSamples b.bytes =
    .ok (convertAll (fromNativeSample o format) 2 (sizeof format) b.total b.bytes)
  dataToShort : auConvertDataToShort o format b.bytes b.total =
    .ok (convertAll (dataToShortSample o format) (sizeof format) 2 b.total b.bytes)
  shortToData : auConvertShortToData o format b.bytes b.total =
    .ok (convertAll (shortToDataSample o format) 2 (sizeof format) b.total b.bytes)
  roundTrip : ∃ m m', Convert.toNative o format b.tracks b.numSamples b.bytes = .ok m ∧
    Convert.fromNative o format b.tracks b.numSamples m = .ok m' ∧
    ∀ k < b.total, SameSample format (item (sizeof format) m' k) (item (sizeof format) b.bytes k)
  same_toNative : Convert.toNative o format b.tracks b.numSamples b.bytes = auConvertDataToShort o format b.bytes b.total
  same_fromNative : Convert.fromNative o format b.tracks b.numSamples b.bytes = auConvertShortToData o format b.bytes b.total

variable {o : ByteOrder} {format : AuFormat} {b : SampleBuffer} {m : List UInt8} {n k : Nat}

theorem total_room (b : SampleBuffer) : b.total * 2 ≤ b.bytes.length := b.room

theorem sizeof_le (format : AuFormat) : sizeof format ≤ 2 := by
  cases format <;> decide

theorem mul_sizeof_le (format : AuFormat) (h : n * 2 ≤ m.length) : n * sizeof format ≤ m.length :=
  (Nat.mul_le_mul_left n (sizeof_le format)).trans h

theorem dataToShort_eq (h : n * 2 ≤ m.length) :
    auConvertDataToShort o format m n = .ok (convertAll (dataToShortSample o format) (sizeof format) 2 n m) :=
  backward_eq (length_converted format).2.2.1 (sizeof_le format) h

theorem shortToData_eq (h : n * 2 ≤ m.length) :
    auConvertShortToData o format m n = .ok (convertAll (shortToDataSample o format) 2 (sizeof format) n m) :=
  forward_eq (length_converted format).2.2.2 (sizeof_le format) h

/-- No sample is read after it is overwritten. -/
theorem toNative_eq (hcount : format = .ulaw8 → b.total < 2 ^ 15) (h : b.total * 2 ≤ m.length) :
    Convert.toNative o format b.tracks b.numSamples m =
      .ok (convertAll (toNativeSample o format) (sizeof format) 2 b.total m) := by
  have hf : InPlace.Converts (toNativeSample o format) (sizeof format) 2 := (length_converted format).1
  cases format with
  | ulaw8 =>
    rw [Convert.toNative]
    exact (ulawDown_eq (hcount rfl) le_rfl).trans (backward_eq hf (by decide) h)
  | linearUnsigned8 | linearSigned8 => exact backward_eq hf (by decide) h
  | _ => exact forward_eq hf le_rfl h

theorem fromNative_eq (hcount : format = .ulaw8 → b.total < 2 ^ 15) (h : b.total * 2 ≤ m.length) :
    Convert.fromNative o format b.tracks b.numSamples m =
      .ok (convertAll (fromNativeSample o format) 2 (sizeof format) b.total m) := by
  have hf : InPlace.Converts (fromNativeSample o format) 2 (sizeof format) := (length_converted format).2.1
  cases format with
  | ulaw8 =>
    have hlen : b.numSamples * b.tracks - 0 < m.length + 1 := by
      rw [total] at h
      omega
    rw [Convert.fromNative]
    exact (ulawUp_eq (hcount rfl) (Nat.zero_le _) hlen).trans (forward_eq hf (by decide) h)
  | linearUnsigned8 | linearSigned8 => exact forward_eq hf (by decide) h
  | _ => exact forward_eq hf le_rfl h

theorem total_lt_of_toNative (h : Convert.toNative o .ulaw8 b.tracks b.numSamples b.bytes = .ok m) :
    b.total < 2 ^ 15 := by
  by_contra hge
  rw [Convert.toNative] at h
  exact ulawDown_ne (by rw [total] at hge; omega) m h

theorem item_toNative (hk : k < b.total) :
    item 2 (convertAll (toNativeSample o format) (sizeof format) 2 b.total b.bytes) k =
      toNativeSample o format (item (sizeof format) b.bytes k) :=
  item_convertAll (length_converted format).1 (mul_sizeof_le format b.total_room) hk

theorem length_item_native (hk : k < b.total) : (item 2 b.bytes k).length = 2 :=
  length_item ((Nat.mul_le_mul_right 2 hk).trans b.total_room)

theorem length_item_data (hk : k < b.total) : (item (sizeof format) b.bytes k).length = sizeof format :=
  length_item ((Nat.mul_le_mul_right _ hk).trans (mul_sizeof_le format b.total_room))

theorem convertAll_congr {f g : List UInt8 → List UInt8} {w w' : Nat} (hfg : ∀ k < n, f (item w m k) = g (item w m k)) :
    convertAll f w w' n m = convertAll g w w' n m := by
  rw [convertAll, convertAll]
  congr 2
  refine List.map_congr_left fun k hk => ?_
  exact hfg k (List.mem_range.1 hk)

/-- The library has the server's values in one direction always, in the other one if it has every sample. -/
theorem toNative_same (format : AuFormat) :
    convertAll (toNativeSample o format) (sizeof format) 2 b.total b.bytes =
      convertAll (dataToShortSample o format) (sizeof format) 2 b.total b.bytes := by
  refine convertAll_congr fun k hk => ?_
  exact toNative_eq_dataToShort (length_item_data hk)

theorem fromNative_same_iff :
    convertAll (fromNativeSample o format) 2 (sizeof format) b.total b.bytes =
        convertAll (shortToDataSample o format) 2 (sizeof format) b.total b.bytes ↔
      ∀ k < b.total, (format = .ulaw8 → BiasFree (asInt16 (o.decode (item 2 b.bytes k))).natAbs) ∧
        ¬ OtherUnsigned o format := by
  have hlen := length_converted (o := o) format
  constructor
  · intro h k hk
    rw [← fromNative_eq_shortToData_iff (length_item_native hk), ← item_convertAll hlen.2.1 b.total_room hk, h,
      item_convertAll hlen.2.2.2 b.total_room hk]
  · intro h
    refine convertAll_congr fun k hk => ?_
    exact (fromNative_eq_shortToData_iff (length_item_native hk)).2 (h k hk)

theorem roundTrip_item (hk : k < b.total) :
    item (sizeof format) (convertAll (fromNativeSample o format) 2 (sizeof format) b.total
        (convertAll (toNativeSample o format) (sizeof format) 2 b.total b.bytes)) k =
      fromNativeSample o format (toNativeSample o format (item (sizeof format) b.bytes k)) := by
  have hlen := length_converted (o := o) format
  rw [item_convertAll hlen.2.1 ?_ hk, item_toNative hk]
  rw [length_convertAll hlen.1 (mul_sizeof_le format b.total_room) b.total_room]
  exact b.total_room

/-- The conversions agree and invert but for ULAW and for the unsigned format of the other byte order: the server's
encoder has no bias, its counters are too short for a long buffer, and the library flips the wrong bit. -/
theorem agrees_iff (o : ByteOrder) (format : AuFormat) (b : SampleBuffer) :
    Agrees o format b ↔
      (format = .ulaw8 → b.total < 2 ^ 15 ∧ ∀ k < b.total,
        OuterSegment (o.decode (item 1 b.bytes k)) ∧ BiasFree (asInt16 (o.decode (item 2 b.bytes k))).natAbs) ∧
      (OtherUnsigned o format → b.total = 0) := by
  have hroom := b.total_room
  have hconverted := length_convertAll (length_converted (o := o) format).1 (mul_sizeof_le format b.total_room) b.total_room
  constructor
  · intro h
    have hcount : format = .ulaw8 → b.total < 2 ^ 15 := by
      rintro rfl
      exact total_lt_of_toNative h.toNative
    have hsame := h.same_fromNative
    rw [h.fromNative, h.shortToData] at hsame
    rw [Except.ok.injEq, fromNative_same_iff] at hsame
    obtain ⟨m, m', hm, hm', hitems⟩ := h.roundTrip
    rw [h.toNative] at hm
    obtain rfl := Except.ok.inj hm
    rw [fromNative_eq hcount (hconverted.symm ▸ hroom)] at hm'
    obtain rfl := Except.ok.inj hm'
    refine ⟨fun hf => ⟨hcount hf, fun k hk => ⟨?_, (hsame k hk).1 hf⟩⟩, fun hother => ?_⟩
    · have := hitems k hk
      rw [roundTrip_item hk, roundTrip_iff (length_item_data hk)] at this
      subst hf
      exact this rfl
    · by_contra hne
      exact (hsame 0 (Nat.pos_of_ne_zero hne)).2 hother
  · intro ⟨hulaw, hother⟩
    have hcount : format = .ulaw8 → b.total < 2 ^ 15 := fun hf => (hulaw hf).1
    have hto := toNative_eq (o := o) hcount hroom
    have hfrom := fromNative_eq (o := o) hcount hroom
    refine ⟨hto, hfrom, dataToShort_eq hroom, shortToData_eq hroom, ?_, ?_, ?_⟩
    · refine ⟨_, _, hto, fromNative_eq hcount (hconverted.symm ▸ hroom), fun k hk => ?_⟩
      rw [roundTrip_item hk, roundTrip_iff (length_item_data hk)]
      rintro rfl
      exact ((hulaw rfl).2 k hk).1
    · rw [hto, dataToShort_eq hroom, toNative_same]
    · rw [hfrom, shortToData_eq hroom, fromNative_same_iff.2]
      intro k hk
      refine ⟨fun hf => ((hulaw hf).2 k hk).2, fun h => ?_⟩
      have := hother h
      omega

end SampleBuffer

/-- One sample of ULAW: back from the native format it has another code. -/
def ulawSample : SampleBuffer where
  tracks := 1
  numSamples := 1
  bytes := [0xd0, 0]
  room := by decide
  size := by decide

theorem not_inverse : ¬ ∀ o format b, SampleBuffer.Agrees o format b := by
  intro h
  have hulaw := ((SampleBuffer.agrees_iff .little .ulaw8 ulawSample).1 (h _ _ _)).1 rfl
  have hsegment := (hulaw.2 0 (by decide)).1
  revert hsegment
  decide

end Convert

end Nas
