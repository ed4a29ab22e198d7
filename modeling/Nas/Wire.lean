import Mathlib.Data.List.Basic
import Mathlib.Tactic.Common
import Mathlib.Algebra.Group.Nat.Defs

/-!
# Numbers as bytes

`encode w n` are the `w` bytes of `n` in a byte order, and `decode` is the number some bytes make up. To
reverse the bytes of a number is to read it in the other order (`decode_reverse`).
-/

namespace Nas

inductive ByteOrder where
  | little
  | big
deriving DecidableEq, Repr

/-- The `w` lowest bytes of a number, from the lowest on. -/
def digits : (w : Nat) → Nat → List UInt8
  | 0, _ => []
  | w + 1, n => UInt8.ofNat n :: digits w (n / 256)

def valueOf : List UInt8 → Nat
  | [] => 0
  | b :: bs => b.toNat + 256 * valueOf bs

@[simp] theorem length_digits (w n : Nat) : (digits w n).length = w := by
  induction w generalizing n with
  | zero => rfl
  | succ w ih => simp [digits, ih]

theorem valueOf_digits {w n : Nat} (h : n < 256 ^ w) : valueOf (digits w n) = n := by
  induction w generalizing n with
  | zero =>
    have : n = 0 := by simpa using h
    rw [this, digits, valueOf]
  | succ w ih =>
    have hd : n / 256 < 256 ^ w := Nat.div_lt_of_lt_mul (by rwa [Nat.pow_succ'] at h)
    rw [digits, valueOf, ih hd, UInt8.toNat_ofNat']
    omega

theorem digits_mod {w n : Nat} : digits w (n % 256 ^ w) = digits w n := by
  induction w generalizing n with
  | zero => rfl
  | succ w ih =>
    have hlow : UInt8.ofNat (n % 256 ^ (w + 1)) = UInt8.ofNat n := by
      apply UInt8.toNat_inj.1
      rw [UInt8.toNat_ofNat', UInt8.toNat_ofNat']
      exact Nat.mod_mod_of_dvd n (Nat.dvd_mul_left 256 (256 ^ w))
    have hhigh : n % 256 ^ (w + 1) / 256 = n / 256 % 256 ^ w := by
      rw [Nat.pow_succ', Nat.mod_mul_right_div_self]
    rw [digits, digits, hlow, hhigh, ih]

theorem digits_valueOf (bs : List UInt8) : digits bs.length (valueOf bs) = bs := by
  induction bs with
  | nil => rfl
  | cons b bs ih =>
    have hb := b.toNat_lt
    have hdiv : (b.toNat + 256 * valueOf bs) / 256 = valueOf bs := by omega
    have hmod : UInt8.ofNat (b.toNat + 256 * valueOf bs) = b := by
      apply UInt8.toNat_inj.1
      rw [UInt8.toNat_ofNat']
      omega
    rw [valueOf, List.length_cons, digits, hdiv, hmod, ih]

theorem valueOf_lt (bs : List UInt8) : valueOf bs < 256 ^ bs.length := by
  induction bs with
  | nil => simp [valueOf]
  | cons b bs ih =>
    have hb := b.toNat_lt
    rw [valueOf, List.length_cons, Nat.pow_succ']
    omega

namespace ByteOrder
variable (o : ByteOrder) {w n : Nat} {bs : List UInt8}

def other : ByteOrder → ByteOrder
  | little => big
  | big => little

def encode (w n : Nat) : List UInt8 :=
  match o with
  | little => digits w n
  | big => (digits w n).reverse

def decode (bs : List UInt8) : Nat :=
  match o with
  | little => valueOf bs
  | big => valueOf bs.reverse

variable {o}

@[simp] theorem other_other : o.other.other = o := by cases o <;> rfl

@[simp] theorem length_encode : (o.encode w n).length = w := by
  cases o <;> simp [encode]

theorem decode_encode (h : n < 256 ^ w) : o.decode (o.encode w n) = n := by
  cases o <;> simp [decode, encode, valueOf_digits h]

/-- Only the lowest bytes are written. -/
theorem encode_mod : o.encode w (n % 256 ^ w) = o.encode w n := by
  cases o <;> simp [encode, digits_mod]

theorem encode_decode (h : bs.length = w) : o.encode w (o.decode bs) = bs := by
  subst h
  cases o with
  | little => exact digits_valueOf bs
  | big =>
    have := digits_valueOf bs.reverse
    rw [List.length_reverse] at this
    simp [decode, encode, this]

theorem decode_lt (h : bs.length = w) : o.decode bs < 256 ^ w := by
  subst h
  cases o with
  | little => exact valueOf_lt bs
  | big =>
    have := valueOf_lt bs.reverse
    rwa [List.length_reverse] at this

theorem decode_reverse : o.decode bs.reverse = o.other.decode bs := by
  cases o <;> simp [decode, other]

theorem encode_reverse : (o.encode w n).reverse = o.other.encode w n := by
  cases o <;> simp [encode, other]

end ByteOrder

end Nas
