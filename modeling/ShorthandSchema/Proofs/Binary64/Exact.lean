import Mathlib.Tactic.SplitIfs
import ShorthandSchema.Binary64.Round

/-! # Binary64: numbers that rounding keeps

Rounding has an effect only on magnitudes that are not representable. So an integral number is
found again from its integer, up to the sign of a zero; `Alike` numbers are told apart by no
comparison.

* `roundUnits_of_representable`: a representable magnitude is its own rounding.
* `alike_ofInt_toInt`: the number nearest to the integer of an integral number is that number. -/

namespace ShorthandSchema.Binary64

/-! ### Numbers that compare alike -/

/-- **Equal numbers, or zeros of either sign.** -/
inductive Alike : Binary64 → Binary64 → Prop
  | refl (a : Binary64) : Alike a a
  | finite {x y : Finite} (h : x.scaled = y.scaled) : Alike (.finite x) (.finite y)

namespace Alike

variable {a b : Binary64} (h : Alike a b)
include h

theorem symm : Alike b a := by
  cases h with
  | refl => exact .refl _
  | finite h => exact .finite h.symm

theorem trans {c : Binary64} (hc : Alike b c) : Alike a c := by
  cases h with
  | refl => exact hc
  | finite h =>
    cases hc with
    | refl => exact .finite h
    | finite hc => exact .finite (h.trans hc)

theorem less_left (c : Binary64) : a.less c = b.less c := by
  cases h with
  | refl => rfl
  | finite h => cases c <;> simp [less, h]

theorem less_right (c : Binary64) : c.less a = c.less b := by
  cases h with
  | refl => rfl
  | finite h => cases c <;> simp [less, h]

theorem same_left (c : Binary64) : a.same c = b.same c := by
  cases h with
  | refl => rfl
  | finite h => cases c <;> simp [same, h]

end Alike

theorem Finite.eq_of_units {x y : Finite} (hn : x.negative = y.negative)
    (hu : x.units = y.units) : x = y := by
  cases x
  cases y
  cases hn
  cases hu
  rfl

theorem scaled_zero (negative : Bool) : (Finite.zero negative).scaled = 0 := by
  cases negative <;> rfl

theorem Finite.isIntegral_iff_dvd {x : Finite} : x.isIntegral ↔ one ∣ x.units := by
  rw [isIntegral, beq_iff_eq, Nat.dvd_iff_mod_eq_zero]

/-! ### Representable magnitudes -/

theorem roundDiv_of_dvd {num den : Nat} (hd : 0 < den) (h : den ∣ num) :
    roundDiv num den = num / den := by
  have hm : num % den = 0 := Nat.mod_eq_zero_of_dvd h
  unfold roundDiv
  rw [if_pos (Or.inl (by omega))]

/-- **A representable magnitude is its own rounding.** -/
theorem roundUnits_of_representable {m : Nat} (h : Representable m) : roundUnits m 1 = m := by
  have hd : 1 <<< excess m 1 ∣ m := by
    unfold excess
    rw [Nat.div_one]
    exact h.2
  have hpos : 0 < 1 <<< excess m 1 := by
    rw [Nat.one_shiftLeft]
    exact Nat.two_pow_pos _
  have hs : roundUnits m 1 = m / 1 <<< excess m 1 * 1 <<< excess m 1 := by
    rw [roundUnits, roundDiv_of_dvd hpos hd, Nat.shiftLeft_eq, Nat.one_shiftLeft]
  rw [hs, Nat.div_mul_cancel hd]

theorem ofUnits_units (x : Finite) : ofUnits x.negative x.units 1 = .finite x := by
  have h := roundUnits_of_representable x.representable
  unfold ofUnits
  rw [dif_pos (by rw [h]; exact x.representable.1)]
  exact congrArg finite (Finite.eq_of_units rfl h)

/-! ### Integers -/

theorem ofInt_of_ne_zero {k : Int} (h : k ≠ 0) :
    ofInt k = ofUnits (decide (k < 0)) (k.natAbs * one) 1 := by
  have hv : vanishes ⟨k.natAbs, 0⟩ = false := rfl
  have hd : ¬ (k.natAbs = 0 ∨ vanishes ⟨k.natAbs, 0⟩ = true) := by
    rw [hv]
    simp [h]
  unfold ofInt ofDecimal
  rw [if_neg hd, if_neg (show ¬ largestExponent < 0 by decide), if_pos (Int.le_refl 0), ofRatio]
  simp

theorem ofInt_zero : ofInt 0 = .finite (.zero false) := rfl

theorem alike_ofInt_toInt {x : Finite} (h : x.isIntegral) : Alike (ofInt x.toInt) (.finite x) := by
  have hu : x.units / one * one = x.units := Nat.div_mul_cancel (Finite.isIntegral_iff_dvd.mp h)
  by_cases h0 : x.units = 0
  · have hx : x.toInt = 0 := by simp [Finite.toInt, h0]
    rw [hx, ofInt_zero]
    refine .finite ?_
    rw [scaled_zero]
    simp [Finite.scaled, h0]
  · have hq : 0 < x.units / one := Nat.pos_of_ne_zero fun e => h0 (by rw [← hu, e, Nat.zero_mul])
    have hne : x.toInt ≠ 0 := by
      unfold Finite.toInt
      split <;> omega
    have habs : x.toInt.natAbs = x.units / one := by
      unfold Finite.toInt
      split <;> omega
    have hneg : decide (x.toInt < 0) = x.negative := by
      unfold Finite.toInt
      cases x.negative <;> simp <;> omega
    rw [ofInt_of_ne_zero hne, habs, hneg, hu, ofUnits_units]
    exact .refl _

/-! ### Numbers without fraction -/

namespace Finite

theorem isIntegral_truncate (x : Finite) : x.truncate.isIntegral := by
  simp [isIntegral, truncate]

theorem truncate_of_isIntegral {x : Finite} (h : x.isIntegral) : x.truncate = x :=
  eq_of_units rfl (Nat.div_mul_cancel (isIntegral_iff_dvd.mp h))

end Finite

end ShorthandSchema.Binary64
