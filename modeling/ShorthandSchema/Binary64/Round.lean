import ShorthandSchema.Binary64.Basic
import ShorthandSchema.Decimal.Basic

/-! # Binary64: the nearest number

Rounding to nearest with ties to even, in exact arithmetic. A magnitude is first rounded as if the
exponents had no upper end; a result past the largest finite number is an infinity.

* `representable_roundUnits`: what rounding gives is representable unless it overflows.
* `ofDecimal`: the number nearest to a decimal, `ofInt`: nearest to an integer. -/

namespace ShorthandSchema.Binary64

/-- **The integer nearest to `num / den`**, a tie going to the even one. -/
def roundDiv (num den : Nat) : Nat :=
  let quotient := num / den
  let twice := 2 * (num % den)
  if twice < den ∨ (twice = den ∧ quotient % 2 = 0) then quotient else quotient + 1

/-- The number of low bits of a quotient that a significand of 53 bits has no room for. -/
def excess (num den : Nat) : Nat := (num / den).log2 - 52

/-- **The magnitude nearest to `num / den` units** that has at most 53 significant bits. -/
def roundUnits (num den : Nat) : Nat :=
  roundDiv num (den <<< excess num den) <<< excess num den

theorem roundDiv_le (num den : Nat) : roundDiv num den ≤ num / den + 1 := by
  unfold roundDiv
  dsimp only
  split <;> omega

theorem le_roundDiv (num den : Nat) : num / den ≤ roundDiv num den := by
  unfold roundDiv
  dsimp only
  split <;> omega

theorem roundDiv_excess_le (num den : Nat) :
    roundDiv num (den <<< excess num den) ≤ 1 <<< 53 := by
  rw [Nat.one_shiftLeft, Nat.shiftLeft_eq]
  have hq : num / (den * 2 ^ excess num den) < 2 ^ 53 := by
    rw [← Nat.div_div_eq_div_mul, Nat.div_lt_iff_lt_mul (Nat.two_pow_pos _), ← Nat.pow_add]
    refine Nat.lt_of_lt_of_le Nat.lt_log2_self (Nat.pow_le_pow_right (by decide) ?_)
    unfold excess
    omega
  have := roundDiv_le num (den * 2 ^ excess num den)
  omega

/-- A multiple of a power of two with at most 53 bits above it keeps its bits. -/
theorem shift_dvd_shift {r : Nat} (k : Nat) (h : r ≤ 1 <<< 53) :
    1 <<< ((r <<< k).log2 - 52) ∣ r <<< k := by
  rw [Nat.one_shiftLeft] at h ⊢
  rw [Nat.shiftLeft_eq]
  by_cases hr : r = 0
  · simp [hr]
  rcases Nat.lt_or_eq_of_le h with hlt | rfl
  · have hlog : (r * 2 ^ k).log2 < 53 + k := by
      rw [Nat.log2_lt (Nat.mul_ne_zero hr (Nat.ne_of_gt (Nat.two_pow_pos k))), Nat.pow_add]
      exact Nat.mul_lt_mul_of_pos_right hlt (Nat.two_pow_pos k)
    exact Nat.dvd_trans (Nat.pow_dvd_pow 2 (by omega)) (Nat.dvd_mul_left _ _)
  · rw [← Nat.pow_add, Nat.log2_two_pow]
    exact Nat.pow_dvd_pow 2 (by omega)

theorem representable_roundUnits {num den : Nat} (h : roundUnits num den < limit) :
    Representable (roundUnits num den) :=
  ⟨h, shift_dvd_shift _ (roundDiv_excess_le num den)⟩

/-- The number nearest to `num / den` units with the given sign. -/
def ofUnits (negative : Bool) (num den : Nat) : Binary64 :=
  if h : roundUnits num den < limit then
    .finite ⟨negative, roundUnits num den, representable_roundUnits h⟩
  else .infinite negative

/-- The number nearest to `num / den` with the given sign. -/
def ofRatio (negative : Bool) (num den : Nat) : Binary64 :=
  ofUnits negative (num * one) den

/-! ### Decimals and integers -/

/-- Decimal exponents above this one lead past the finite numbers. -/
def largestExponent : Int := 400

/-- Whether a nonzero decimal is plainly too small: `10 ^ e ≤ 2 ^ (3 * e)` for `e ≤ 0`, so it is
below half of the least positive number. -/
def vanishes (d : Decimal) : Bool :=
  decide (d.exponent < 0 ∧ (d.digits.log2 : Int) + 1 + 3 * d.exponent ≤ -(unitExponent + 1))

/-- **The number nearest to a decimal** with the given sign. A decimal far outside the range is
decided by its exponent alone. -/
def ofDecimal (negative : Bool) (d : Decimal) : Binary64 :=
  if d.digits = 0 ∨ vanishes d then .finite (.zero negative)
  else if largestExponent < d.exponent then .infinite negative
  else if 0 ≤ d.exponent then ofRatio negative (d.digits * Nat.pow 10 d.exponent.toNat) 1
  else ofRatio negative d.digits (Nat.pow 10 (-d.exponent).toNat)

/-- The number nearest to an integer. -/
def ofInt (k : Int) : Binary64 := ofDecimal (decide (k < 0)) ⟨k.natAbs, 0⟩

end ShorthandSchema.Binary64
