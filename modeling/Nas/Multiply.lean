import Nas.Mix

/-!
# The fixed point product

`AuFixedPointMultiply` (`auutil.c`) puts the product of the absolute values together from three partial products of
`AuInt32`s and takes the sign from the factors. Of the partial products, the one of the two fractions does not fit when
both are large, and the largest negative number has no absolute value (`multiplies_iff`). Where no operation overflows
the compiler's `auFixedPointMultiply`, which wraps around, is the same function.
-/

namespace Nas
open Mix

/-- `D * A + (D * B >> 16) + C * AB`, of factors that are not negative. -/
def multiplyParts (m1 m2 : AuFixedPoint) : Exec AuFixedPoint := do
  let da ← int32 (m2 % 2 ^ 16 * (m1 / 2 ^ 16))
  let db ← int32 (m2 % 2 ^ 16 * (m1 % 2 ^ 16))
  let low ← int32 (da + db / 2 ^ 16)
  let high ← int32 (m2 / 2 ^ 16 * m1)
  int32 (low + high)

/-- `if (m < 0) m = -m` -/
def magnitude (m : AuFixedPoint) : Exec AuFixedPoint := if m < 0 then int32 (-m) else .ok m

/-- `AuFixedPointMultiply`, where an operation that overflows has no result. -/
def fixedPointMultiply (m1 m2 : AuFixedPoint) : Exec AuFixedPoint := do
  let negative := decide (m1 < 0) != decide (m2 < 0)
  let m1 ← magnitude m1
  let m2 ← magnitude m2
  let result ← multiplyParts m1 m2
  if negative then int32 (-result) else .ok result

/-- The product, toward zero. -/
def product (a b : AuFixedPoint) : Int := (a * b).tdiv (2 ^ 16)

/-- `AuFixedPointMultiply` is the product here: its value, in either order, and the first factor times 1.0. -/
structure Multiplies (a b : AuFixedPoint) : Prop where
  value : fixedPointMultiply a b = .ok (product a b)
  comm : fixedPointMultiply b a = fixedPointMultiply a b
  one : fixedPointMultiply a (2 ^ 16) = .ok a

/-- Both factors have an absolute value, the product of their fractions fits, and the result has an absolute value. -/
structure NoOverflow (a b : Int) : Prop where
  left : a ≠ -2 ^ 31
  right : b ≠ -2 ^ 31
  fractions : (a.natAbs % 2 ^ 16 : Nat) * (b.natAbs % 2 ^ 16) < 2 ^ 31
  result : -2 ^ 47 < a * b

section
variable {a b : Int} {x y : Nat}

/-- The three parts are the product. -/
theorem product_parts (x y : Nat) :
    y % 2 ^ 16 * (x / 2 ^ 16) + y % 2 ^ 16 * (x % 2 ^ 16) / 2 ^ 16 + y / 2 ^ 16 * x = x * y / 2 ^ 16 := by
  have hx := Nat.div_add_mod x (2 ^ 16)
  have hy := Nat.div_add_mod y (2 ^ 16)
  have hsplit : x * y = y % 2 ^ 16 * (x % 2 ^ 16) + 2 ^ 16 * (y % 2 ^ 16 * (x / 2 ^ 16) + y / 2 ^ 16 * x) := by
    calc
      x * y = x * (2 ^ 16 * (y / 2 ^ 16) + y % 2 ^ 16) := by rw [hy]
      _ = 2 ^ 16 * (y / 2 ^ 16 * x) + y % 2 ^ 16 * x := by ring
      _ = 2 ^ 16 * (y / 2 ^ 16 * x) + y % 2 ^ 16 * (2 ^ 16 * (x / 2 ^ 16) + x % 2 ^ 16) := by rw [hx]
      _ = _ := by ring
  rw [hsplit, Nat.add_mul_div_left _ _ (Nat.two_pow_pos 16)]
  omega

theorem int32_natCast (n : Nat) : int32 n = if n < 2 ^ 31 then .ok (n : Int) else .error .fault := by
  by_cases h : n < 2 ^ 31
  · rw [if_pos h]
    exact int32_ok ⟨by omega, by omega⟩
  · rw [if_neg h]
    refine if_neg fun h' => h ?_
    have := h'.2
    omega

theorem cross_lt (hx : x < 2 ^ 31) (y : Nat) : y % 2 ^ 16 * (x / 2 ^ 16) < 2 ^ 31 := by
  have hcross : y % 2 ^ 16 * (x / 2 ^ 16) ≤ 65535 * 32767 := Nat.mul_le_mul (by omega) (by omega)
  omega

theorem low_lt (hx : x < 2 ^ 31) (y : Nat) :
    y % 2 ^ 16 * (x / 2 ^ 16) + y % 2 ^ 16 * (x % 2 ^ 16) / 2 ^ 16 < 2 ^ 31 := by
  have hcross : y % 2 ^ 16 * (x / 2 ^ 16) ≤ 65535 * 32767 := Nat.mul_le_mul (by omega) (by omega)
  have hfractions : y % 2 ^ 16 * (x % 2 ^ 16) ≤ 65535 * 65535 := Nat.mul_le_mul (by omega) (by omega)
  omega

/-- Of the parts, only the product of the fractions and the sum can be too large. -/
theorem multiplyParts_eq (hx : x < 2 ^ 31) :
    multiplyParts x y = if x % 2 ^ 16 * (y % 2 ^ 16) < 2 ^ 31 ∧ x * y / 2 ^ 16 < 2 ^ 31 then .ok ((x * y / 2 ^ 16 : Nat) : Int)
      else .error .fault := by
  have hparts := product_parts x y
  have hcross := cross_lt hx y
  have hlow := low_lt hx y
  unfold multiplyParts
  have hda : ((y : Int) % 2 ^ 16 * ((x : Int) / 2 ^ 16)) = (y % 2 ^ 16 * (x / 2 ^ 16) : Nat) := by norm_cast
  have hdb : ((y : Int) % 2 ^ 16 * ((x : Int) % 2 ^ 16)) = (y % 2 ^ 16 * (x % 2 ^ 16) : Nat) := by norm_cast
  have hhigh : ((y : Int) / 2 ^ 16 * (x : Int)) = (y / 2 ^ 16 * x : Nat) := by norm_cast
  rw [hda, hdb, hhigh, int32_natCast, if_pos hcross, Exec.ok_bind, int32_natCast]
  by_cases hfractions : x % 2 ^ 16 * (y % 2 ^ 16) < 2 ^ 31
  · have hsum : ((y % 2 ^ 16 * (x / 2 ^ 16) : Nat) : Int) + ((y % 2 ^ 16 * (x % 2 ^ 16) : Nat) : Int) / 2 ^ 16 =
        (y % 2 ^ 16 * (x / 2 ^ 16) + y % 2 ^ 16 * (x % 2 ^ 16) / 2 ^ 16 : Nat) := by norm_cast
    rw [if_pos (by rwa [Nat.mul_comm]), Exec.ok_bind, hsum, int32_natCast, if_pos hlow, Exec.ok_bind, int32_natCast]
    by_cases hpart : y / 2 ^ 16 * x < 2 ^ 31
    · rw [if_pos hpart, Exec.ok_bind, ← Int.natCast_add, hparts, int32_natCast]
      by_cases hresult : x * y / 2 ^ 16 < 2 ^ 31
      · rw [if_pos hresult, if_pos ⟨hfractions, hresult⟩]
      · rw [if_neg hresult, if_neg fun h => hresult h.2]
    · rw [if_neg hpart, Exec.error_bind, if_neg fun h => hpart (lt_of_le_of_lt (by omega) h.2)]
  · rw [if_neg (by rwa [Nat.mul_comm]), Exec.error_bind, if_neg fun h => hfractions h.1]

theorem magnitude_eq (h : Mix.Int32 a) : magnitude a = if a = -2 ^ 31 then .error .fault else .ok (a.natAbs : Int) := by
  obtain ⟨hlow, hhigh⟩ := h
  unfold magnitude
  by_cases hmin : a = -2 ^ 31
  · rw [if_pos hmin, if_pos (show a < 0 by omega)]
    refine if_neg fun h => ?_
    have := h.2
    omega
  · rw [if_neg hmin]
    by_cases hneg : a < 0
    · have habs : -a = (a.natAbs : Int) := by omega
      rw [if_pos hneg, int32_ok ⟨by omega, by omega⟩, habs]
    · have habs : a = (a.natAbs : Int) := by omega
      rw [if_neg hneg]
      exact congrArg Except.ok habs

theorem product_eq (a b : Int) : product a b =
    if (decide (a < 0) != decide (b < 0)) = true then -((a.natAbs * b.natAbs / 2 ^ 16 : Nat) : Int)
    else ((a.natAbs * b.natAbs / 2 ^ 16 : Nat) : Int) := by
  have hcast : ((a.natAbs * b.natAbs / 2 ^ 16 : Nat) : Int) = ((a.natAbs : Int) * b.natAbs).tdiv (2 ^ 16) := by
    rw [Int.ofNat_tdiv]
    norm_cast
  unfold product
  rw [hcast]
  by_cases ha : a < 0
  · have hXa : (a.natAbs : Int) = -a := by omega
    by_cases hb : b < 0
    · have hXb : (b.natAbs : Int) = -b := by omega
      rw [if_neg (by simp [ha, hb]), hXa, hXb, neg_mul_neg]
    · have hXb : (b.natAbs : Int) = b := by omega
      rw [if_pos (by simp [ha, hb]), hXa, hXb, neg_mul, Int.neg_tdiv, neg_neg]
  · have hXa : (a.natAbs : Int) = a := by omega
    by_cases hb : b < 0
    · have hXb : (b.natAbs : Int) = -b := by omega
      rw [if_pos (by simp [ha, hb]), hXa, hXb, mul_neg, Int.neg_tdiv, neg_neg]
    · have hXb : (b.natAbs : Int) = b := by omega
      rw [if_neg (by simp [ha, hb]), hXa, hXb]

/-- `AuFixedPointMultiply` has the product or no result. -/
theorem fixedPointMultiply_eq (ha : Mix.Int32 a) (hb : Mix.Int32 b) : fixedPointMultiply a b =
    if a ≠ -2 ^ 31 ∧ b ≠ -2 ^ 31 ∧ a.natAbs % 2 ^ 16 * (b.natAbs % 2 ^ 16) < 2 ^ 31 ∧
      a.natAbs * b.natAbs / 2 ^ 16 < 2 ^ 31 then .ok (product a b) else .error .fault := by
  unfold fixedPointMultiply
  rw [magnitude_eq ha, magnitude_eq hb]
  by_cases hamin : a = -2 ^ 31
  · rw [if_pos hamin, Exec.error_bind, if_neg fun h => h.1 hamin]
  by_cases hbmin : b = -2 ^ 31
  · rw [if_neg hamin, if_pos hbmin, Exec.ok_bind, Exec.error_bind, if_neg fun h => h.2.1 hbmin]
  have hX : a.natAbs < 2 ^ 31 := by
    have := ha.1
    have := ha.2
    omega
  rw [if_neg hamin, if_neg hbmin, Exec.ok_bind, Exec.ok_bind, multiplyParts_eq hX]
  by_cases hfits : a.natAbs % 2 ^ 16 * (b.natAbs % 2 ^ 16) < 2 ^ 31 ∧ a.natAbs * b.natAbs / 2 ^ 16 < 2 ^ 31
  · rw [if_pos hfits, if_pos ⟨hamin, hbmin, hfits⟩, Exec.ok_bind, product_eq]
    have hresult := hfits.2
    split
    · exact int32_ok ⟨by omega, by omega⟩
    · rfl
  · rw [if_neg hfits, if_neg fun h => hfits h.2.2, Exec.error_bind]

theorem wrap32_of_int32 (h : Mix.Int32 a) : wrap32 a = a := by
  obtain ⟨hlow, hhigh⟩ := h
  exact Int.bmod_eq_of_le (by omega) (by omega)

theorem magnitude_ok {v : Int} (h : magnitude a = .ok v) : (if a < 0 then wrap32 (-a) else a) = v := by
  unfold magnitude at h
  split at h
  · obtain ⟨hfit, rfl⟩ := int32_eq_ok.1 h
    rw [if_pos ‹_›, wrap32_of_int32 hfit]
  · cases h
    rw [if_neg ‹_›]

/-- What wraps around in the compiler does not where there is a result. -/
theorem auFixedPointMultiply_eq {v : Int} (h : fixedPointMultiply a b = .ok v) : auFixedPointMultiply a b = v := by
  obtain ⟨x, hx, h⟩ := Exec.bind_eq_ok.1 h
  obtain ⟨y, hy, h⟩ := Exec.bind_eq_ok.1 h
  obtain ⟨result, hresult, h⟩ := Exec.bind_eq_ok.1 h
  obtain ⟨da, hda, hresult⟩ := Exec.bind_eq_ok.1 hresult
  obtain ⟨db, hdb, hresult⟩ := Exec.bind_eq_ok.1 hresult
  obtain ⟨low, hlow, hresult⟩ := Exec.bind_eq_ok.1 hresult
  obtain ⟨high, hhigh, hresult⟩ := Exec.bind_eq_ok.1 hresult
  obtain ⟨hdaFit, rfl⟩ := int32_eq_ok.1 hda
  obtain ⟨hdbFit, rfl⟩ := int32_eq_ok.1 hdb
  obtain ⟨-, rfl⟩ := int32_eq_ok.1 hlow
  obtain ⟨hhighFit, rfl⟩ := int32_eq_ok.1 hhigh
  obtain ⟨hfit, rfl⟩ := int32_eq_ok.1 hresult
  unfold auFixedPointMultiply
  dsimp only
  rw [magnitude_ok hx, magnitude_ok hy, wrap32_of_int32 hdaFit, wrap32_of_int32 hdbFit, wrap32_of_int32 hhighFit, wrap32_of_int32 hfit]
  split at h
  · obtain ⟨hneg, rfl⟩ := int32_eq_ok.1 h
    rw [if_pos ‹_›, wrap32_of_int32 hneg]
  · cases h
    rw [if_neg ‹_›]

theorem product_comm (a b : Int) : product a b = product b a := by
  rw [product, product, mul_comm]

theorem product_one (a : Int) : product a (2 ^ 16) = a := Int.mul_tdiv_cancel a (by decide)

/-- The order of the factors makes no difference, not even to whether there is a result. -/
theorem fixedPointMultiply_comm (ha : Mix.Int32 a) (hb : Mix.Int32 b) : fixedPointMultiply b a = fixedPointMultiply a b := by
  rw [fixedPointMultiply_eq ha hb, fixedPointMultiply_eq hb ha, product_comm b a, Nat.mul_comm b.natAbs,
    Nat.mul_comm (b.natAbs % _)]
  simp only [and_left_comm]

theorem natAbs_lt_iff (hfit : Mix.Int32 (product a b)) :
    a.natAbs * b.natAbs / 2 ^ 16 < 2 ^ 31 ↔ -2 ^ 47 < a * b := by
  obtain ⟨hlow, hhigh⟩ := hfit
  rw [product_eq] at hlow hhigh
  have habs := Int.natAbs_mul a b
  generalize a.natAbs * b.natAbs = n at *
  by_cases hsign : (decide (a < 0) != decide (b < 0)) = true
  · rw [if_pos hsign] at hlow hhigh
    have hneg : a * b ≤ 0 := by
      rcases lt_or_ge a 0 with ha | ha
      · rcases lt_or_ge b 0 with hb | hb
        · simp [ha, hb] at hsign
        · exact mul_nonpos_of_nonpos_of_nonneg ha.le hb
      · rcases lt_or_ge b 0 with hb | hb
        · exact mul_nonpos_of_nonneg_of_nonpos ha hb.le
        · simp [ha.not_gt, hb.not_gt] at hsign
    omega
  · rw [if_neg hsign] at hlow hhigh
    have hnonneg : 0 ≤ a * b := by
      rcases lt_or_ge a 0 with ha | ha
      · rcases lt_or_ge b 0 with hb | hb
        · exact mul_nonneg_of_nonpos_of_nonpos ha.le hb.le
        · simp [ha, hb.not_gt] at hsign
      · rcases lt_or_ge b 0 with hb | hb
        · simp [ha.not_gt, hb] at hsign
        · exact mul_nonneg ha hb
    omega

/-- Where the product fits, `AuFixedPointMultiply` is multiplication just when no operation overflows. -/
theorem multiplies_iff (ha : Mix.Int32 a) (hb : Mix.Int32 b) (hfit : Mix.Int32 (product a b)) :
    Multiplies a b ↔ NoOverflow a b := by
  have heq := fixedPointMultiply_eq ha hb
  have hresult := natAbs_lt_iff hfit
  constructor
  · intro h
    have hvalue := h.value
    rw [heq] at hvalue
    split at hvalue
    · rename_i hok
      obtain ⟨hamin, hbmin, hfractions, hlt⟩ := hok
      exact ⟨hamin, hbmin, hfractions, hresult.1 hlt⟩
    · cases hvalue
  · rintro ⟨hamin, hbmin, hfractions, hlt⟩
    refine ⟨?_, fixedPointMultiply_comm ha hb, ?_⟩
    · rw [heq, if_pos ⟨hamin, hbmin, hfractions, hresult.2 hlt⟩]
    · have hone : (2 ^ 16 : Int).natAbs = 2 ^ 16 := by decide
      rw [fixedPointMultiply_eq ha ⟨by decide, by decide⟩, hone, product_one, Nat.mod_self, Nat.mul_zero,
        Nat.mul_div_cancel _ (Nat.two_pow_pos 16)]
      refine if_pos ⟨hamin, by decide, by decide, ?_⟩
      have := ha.1
      have := ha.2
      omega

theorem quarters_multiply : Multiplies (3 * 2 ^ 14) (-2 ^ 17) :=
  (multiplies_iff (by decide) (by decide) (by decide)).2 ⟨by decide, by decide, by decide, by decide⟩

/-- The fractions of two factors just below 1.0 have a product of almost 2^32. -/
theorem fractions_overflow : ¬ ∀ a b : AuFixedPoint, Mix.Int32 a → Mix.Int32 b → Mix.Int32 (product a b) → Multiplies a b := by
  intro h
  have hvalue := (h 65535 65535 (by decide) (by decide) (by decide)).value
  exact absurd hvalue (by decide)

end

end Nas
