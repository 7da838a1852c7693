import Mathlib.Data.Nat.Log
import ShorthandSchema.Proofs.Binary64.Exact

/-! # Binary64: rounding and order

Rounding keeps order, so it stays between the representable magnitudes on both sides of a ratio. It
depends on the ratio only, not on how it is written, and it keeps integers integral.

* `roundUnits_mono`: rounding is monotone.
* `roundUnits_mul`: a common factor does not matter.
* `isIntegral_of_ofInt`: the number nearest to an integer has no fraction.
* `scaled_mono_of_ofInt`: rounding keeps the order of integers. -/

namespace ShorthandSchema.Binary64

/-! ### Order -/

theorem roundDiv_mono {a b den : Nat} (h : a ≤ b) : roundDiv a den ≤ roundDiv b den := by
  rcases Nat.eq_or_lt_of_le (Nat.div_le_div_right h : a / den ≤ b / den) with hq | hq
  · -- the quotients are equal, so the remainders are in order
    have ha := Nat.div_add_mod a den
    have hb := Nat.div_add_mod b den
    rw [← hq] at hb
    unfold roundDiv
    dsimp only
    rw [← hq]
    split <;> split <;> omega
  · exact Nat.le_trans (roundDiv_le a den) (Nat.le_trans hq (le_roundDiv b den))

theorem roundUnits_le (num den : Nat) : roundUnits num den ≤ 1 <<< (53 + excess num den) := by
  have h := roundDiv_excess_le num den
  rw [Nat.one_shiftLeft] at h
  rw [roundUnits, Nat.one_shiftLeft, Nat.shiftLeft_eq, Nat.pow_add]
  exact Nat.mul_le_mul_right _ h

/-- A ratio with more than 53 bits has 53 of them above those that are dropped. -/
theorem le_div_of_excess {num den : Nat} (h : 0 < excess num den) :
    1 <<< (52 + excess num den) ≤ num / den := by
  have hlog : 52 + excess num den = (num / den).log2 := by
    unfold excess at h ⊢
    omega
  rw [Nat.one_shiftLeft, hlog]
  refine Nat.log2_self_le fun h0 => ?_
  rw [excess, h0] at h
  exact absurd h (by decide)

theorem le_roundDiv_excess {num den : Nat} (h : 0 < excess num den) :
    1 <<< 52 ≤ roundDiv num (den <<< excess num den) := by
  have hq := le_div_of_excess h
  rw [Nat.one_shiftLeft] at hq ⊢
  refine Nat.le_trans ?_ (le_roundDiv _ _)
  rw [Nat.shiftLeft_eq, ← Nat.div_div_eq_div_mul, Nat.le_div_iff_mul_le (Nat.two_pow_pos _),
    ← Nat.pow_add]
  exact hq

theorem le_roundUnits {num den : Nat} (h : 0 < excess num den) :
    1 <<< (52 + excess num den) ≤ roundUnits num den := by
  have hr := le_roundDiv_excess h
  rw [Nat.one_shiftLeft] at hr
  rw [roundUnits, Nat.one_shiftLeft, Nat.shiftLeft_eq, Nat.pow_add]
  exact Nat.mul_le_mul_right _ hr

/-- **Rounding keeps order.** -/
theorem roundUnits_mono {a b den : Nat} (h : a ≤ b) : roundUnits a den ≤ roundUnits b den := by
  have hq : a / den ≤ b / den := Nat.div_le_div_right h
  have he : excess a den ≤ excess b den := by
    unfold excess
    rw [Nat.log2_eq_log_two, Nat.log2_eq_log_two]
    exact Nat.sub_le_sub_right (Nat.log_mono_right hq) 52
  rcases Nat.eq_or_lt_of_le he with he | he
  · simp only [roundUnits, he, Nat.shiftLeft_eq]
    exact Nat.mul_le_mul_right _ (roundDiv_mono h)
  · have hpow : 1 <<< (53 + excess a den) ≤ 1 <<< (52 + excess b den) := by
      rw [Nat.one_shiftLeft, Nat.one_shiftLeft]
      exact Nat.pow_le_pow_right (by decide) (by omega)
    calc roundUnits a den ≤ 1 <<< (53 + excess a den) := roundUnits_le a den
      _ ≤ 1 <<< (52 + excess b den) := hpow
      _ ≤ roundUnits b den := le_roundUnits (by omega)

theorem le_roundUnits_of_le {a m : Nat} (hm : Representable m) (h : m ≤ a) :
    m ≤ roundUnits a 1 := by
  rw [← roundUnits_of_representable hm]
  exact roundUnits_mono h

/-! ### Ratios -/

theorem roundDiv_mul {k : Nat} (hk : 0 < k) (num den : Nat) :
    roundDiv (num * k) (den * k) = roundDiv num den := by
  have hlt : 2 * (num % den) * k < den * k ↔ 2 * (num % den) < den := Nat.mul_lt_mul_right hk
  have heq : 2 * (num % den) * k = den * k ↔ 2 * (num % den) = den :=
    Nat.mul_left_inj (Nat.ne_of_gt hk)
  unfold roundDiv
  simp only [Nat.mul_div_mul_right _ _ hk, Nat.mul_mod_mul_right, ← Nat.mul_assoc, hlt, heq]

theorem roundUnits_mul {k : Nat} (hk : 0 < k) (num den : Nat) :
    roundUnits (num * k) (den * k) = roundUnits num den := by
  have he : excess (num * k) (den * k) = excess num den := by
    rw [excess, Nat.mul_div_mul_right _ _ hk, excess]
  have hs : (den * k) <<< excess num den = den <<< excess num den * k := by
    rw [Nat.shiftLeft_eq, Nat.shiftLeft_eq, Nat.mul_right_comm]
  rw [roundUnits, he, hs, roundDiv_mul hk, roundUnits]

theorem ofUnits_mul {k : Nat} (hk : 0 < k) (negative : Bool) (num den : Nat) :
    ofUnits negative (num * k) (den * k) = ofUnits negative num den := by
  simp only [ofUnits, roundUnits_mul hk]

theorem ofRatio_mul {k : Nat} (hk : 0 < k) (negative : Bool) (num den : Nat) :
    ofRatio negative (num * k) (den * k) = ofRatio negative num den := by
  rw [ofRatio, Nat.mul_right_comm, ofUnits_mul hk, ofRatio]

/-! ### Integers -/

theorem one_pos : 0 < one := by decide +kernel

theorem one_shiftLeft_dvd {k l : Nat} (h : k ≤ l) : 1 <<< k ∣ 1 <<< l := by
  rw [Nat.one_shiftLeft, Nat.one_shiftLeft]
  exact Nat.pow_dvd_pow 2 h

theorem one_dvd_roundUnits (j : Nat) : one ∣ roundUnits (j * one) 1 := by
  rcases Nat.le_total unitExponent (excess (j * one) 1) with h | h
  · have hone : one ∣ 1 <<< excess (j * one) 1 := one_shiftLeft_dvd h
    rw [roundUnits, Nat.shiftLeft_eq, ← Nat.one_shiftLeft]
    exact Nat.dvd_trans hone (Nat.dvd_mul_left _ _)
  · -- no bit of the integer is dropped
    have hd : 1 <<< excess (j * one) 1 ∣ j * one := by
      have hone : 1 <<< excess (j * one) 1 ∣ one := one_shiftLeft_dvd h
      exact Nat.dvd_trans hone (Nat.dvd_mul_left one j)
    have hpos : 0 < 1 <<< excess (j * one) 1 := by
      rw [Nat.one_shiftLeft]
      exact Nat.two_pow_pos _
    rw [roundUnits, roundDiv_of_dvd hpos hd, Nat.shiftLeft_eq, ← Nat.one_shiftLeft,
      Nat.div_mul_cancel hd]
    exact Nat.dvd_mul_left one j

theorem eq_of_ofUnits {negative : Bool} {num den : Nat} {x : Finite}
    (h : ofUnits negative num den = .finite x) :
    x.negative = negative ∧ x.units = roundUnits num den := by
  unfold ofUnits at h
  split at h
  · cases h
    exact ⟨rfl, rfl⟩
  · cases h

theorem eq_of_ofInt {k : Int} (hk : k ≠ 0) {x : Finite} (h : ofInt k = .finite x) :
    x.negative = decide (k < 0) ∧ x.units = roundUnits (k.natAbs * one) 1 := by
  rw [ofInt_of_ne_zero hk] at h
  exact eq_of_ofUnits h

theorem isIntegral_of_ofInt {k : Int} {x : Finite} (h : ofInt k = .finite x) : x.isIntegral := by
  by_cases hk : k = 0
  · subst hk
    cases h
    rfl
  · rw [Finite.isIntegral_iff_dvd, (eq_of_ofInt hk h).2]
    exact one_dvd_roundUnits k.natAbs

/-! ### The order of integers -/

theorem units_of_ofInt {k : Int} {x : Finite} (h : ofInt k = .finite x) :
    x.units = roundUnits (k.natAbs * one) 1 := by
  by_cases hk : k = 0
  · subst hk
    cases h
    rw [Int.natAbs_zero, Nat.zero_mul, roundUnits_of_representable representable_zero]
    rfl
  · exact (eq_of_ofInt hk h).2

theorem scaled_of_ofInt {k : Int} {x : Finite} (h : ofInt k = .finite x) :
    x.scaled = if k < 0 then -(roundUnits (k.natAbs * one) 1 : Int)
      else roundUnits (k.natAbs * one) 1 := by
  by_cases hk : k = 0
  · subst hk
    have hu := units_of_ofInt h
    cases h
    rw [if_neg (Int.lt_irrefl 0), ← hu]
    rfl
  · obtain ⟨hneg, hu⟩ := eq_of_ofInt hk h
    rw [Finite.scaled, hneg, hu]
    by_cases hlt : k < 0 <;> simp [hlt]

/-- **Rounding keeps the order of integers.** -/
theorem scaled_mono_of_ofInt {j k : Int} {x y : Finite} (hx : ofInt j = .finite x)
    (hy : ofInt k = .finite y) (h : j ≤ k) : x.scaled ≤ y.scaled := by
  rw [scaled_of_ofInt hx, scaled_of_ofInt hy]
  by_cases hj : j < 0
  · by_cases hk : k < 0
    · have habs : k.natAbs * one ≤ j.natAbs * one := Nat.mul_le_mul_right one (by omega)
      have hr : roundUnits (k.natAbs * one) 1 ≤ roundUnits (j.natAbs * one) 1 :=
        roundUnits_mono habs
      rw [if_pos hj, if_pos hk]
      omega
    · rw [if_pos hj, if_neg hk]
      omega
  · have habs : j.natAbs * one ≤ k.natAbs * one := Nat.mul_le_mul_right one (by omega)
    have hr : roundUnits (j.natAbs * one) 1 ≤ roundUnits (k.natAbs * one) 1 := roundUnits_mono habs
    rw [if_neg hj, if_neg (by omega)]
    omega

theorem exists_ofInt_of_natAbs_le {k : Int} (h : k.natAbs ≤ 18446744073709551616) :
    ∃ x, ofInt k = .finite x := by
  by_cases hk : k = 0
  · exact ⟨.zero false, by rw [hk, ofInt_zero]⟩
  · have hrep : Representable (18446744073709551616 * one) := by decide +kernel
    have hlt : roundUnits (k.natAbs * one) 1 < limit := by
      refine Nat.lt_of_le_of_lt (roundUnits_mono (Nat.mul_le_mul_right one h)) ?_
      rw [roundUnits_of_representable hrep]
      exact hrep.1
    rw [ofInt_of_ne_zero hk, ofUnits, dif_pos hlt]
    exact ⟨_, rfl⟩

theorem less_of_scaled_le {x y : Finite} (h : x.scaled ≤ y.scaled) {b : Binary64}
    (hb : less (.finite y) b) : less (.finite x) b := by
  cases b with
  | finite z =>
    simp only [less, decide_eq_true_eq] at hb ⊢
    omega
  | infinite negative => exact hb
  | nan => exact hb

theorem less_of_le_scaled {x y : Finite} (h : x.scaled ≤ y.scaled) {b : Binary64}
    (hb : less b (.finite x)) : less b (.finite y) := by
  cases b with
  | finite z =>
    simp only [less, decide_eq_true_eq] at hb ⊢
    omega
  | infinite negative => exact hb
  | nan => exact hb

end ShorthandSchema.Binary64
