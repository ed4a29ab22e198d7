import Mathlib.Algebra.Ring.Basic
import Mathlib.Tactic.Common
import Mathlib.Algebra.Group.Int.Defs
import Mathlib.Algebra.Group.Nat.Defs

/-!
# Fixed point constants

The constants of a flow are 16.16 fixed point numbers (`audio.h`), which the flow compiler multiplies
and adds. `Arith K` is the arithmetic it uses, so that the compiler can be run on the server's 32 bit
numbers (`auFixedPoint`) and on exact ones (`Arith.exact`).
-/

namespace Nas

/-- A 16.16 fixed point number, in units of 1/65536. -/
abbrev AuFixedPoint := Int

/-- The operations the flow compiler does on constants. -/
structure Arith (K : Type) where
  /-- `AuFixedPointFromSum(1, 0)` -/
  one : K
  /-- `AuFixedPointFromSum(0, 0)` -/
  zero : K
  multiply : K → K → K
  add : K → K → K

/-- The arithmetic of a ring. -/
def Arith.exact (K : Type) [CommRing K] : Arith K where
  one := 1
  zero := 0
  multiply := (· * ·)
  add := (· + ·)

/-- An `AuInt32` from the bits of any integer. -/
def wrap32 (x : Int) : Int := x.bmod (2 ^ 32)

/-- `AuFixedPointMultiply`: on the absolute values, the high half of the second factor times the first
and the low half times the two halves of the first. -/
def auFixedPointMultiply (m1 m2 : AuFixedPoint) : AuFixedPoint :=
  let negative := decide (m1 < 0) != decide (m2 < 0)
  let m1 := if m1 < 0 then wrap32 (-m1) else m1
  let m2 := if m2 < 0 then wrap32 (-m2) else m2
  let a := m1 / 2 ^ 16
  let b := m1 % 2 ^ 16
  let c := m2 / 2 ^ 16
  let d := m2 % 2 ^ 16
  let result := wrap32 (wrap32 (d * a) + wrap32 (d * b) / 2 ^ 16 + wrap32 (c * m1))
  if negative then wrap32 (-result) else result

/-- The server's arithmetic. -/
def auFixedPoint : Arith AuFixedPoint where
  one := 2 ^ 16
  zero := 0
  multiply := auFixedPointMultiply
  add x y := wrap32 (x + y)

end Nas
