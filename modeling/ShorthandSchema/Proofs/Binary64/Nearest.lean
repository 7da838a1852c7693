import Mathlib.Algebra.Order.Field.Basic
import Mathlib.Data.Nat.Dist
import ShorthandSchema.Proofs.FloatInputs

/-! # Binary64: rounding goes to the nearest number

A ratio is rounded to a multiple of a power of two, which leaves 53 bits. Among these multiples the
result is nearest by the rounding of quotients; a magnitude that is no such multiple has a smaller
exponent and is farther away. A tie can thus only be between two multiples, and goes to the even
one.

* `dist_roundUnits_le`: no magnitude is nearer to a ratio than its rounding.
* `even_significand_roundUnits`: one that is as near is left for an even significand.
* `nearestTo_of_ofInt`: an integer is rounded to the nearest number, a tie to the even one. -/

namespace ShorthandSchema.Binary64

/-! ### Quotients -/

variable {num den : Nat}

theorem two_mul_dist_roundDiv_le (hd : 0 < den) (num : Nat) :
    2 * Nat.dist (roundDiv num den * den) num ≤ den := by
  have hnum : num / den * den + num % den = num := Nat.div_add_mod' num den
  have hr : num % den < den := Nat.mod_lt _ hd
  have hsucc : (num / den + 1) * den = num / den * den + den := Nat.succ_mul _ _
  unfold roundDiv Nat.dist
  dsimp only
  split <;> omega

theorem even_roundDiv_of_half (hd : 0 < den)
    (h : 2 * Nat.dist (roundDiv num den * den) num = den) : Even (roundDiv num den) := by
  have hnum : num / den * den + num % den = num := Nat.div_add_mod' num den
  have hr : num % den < den := Nat.mod_lt _ hd
  have hsucc : (num / den + 1) * den = num / den * den + den := Nat.succ_mul _ _
  rw [Nat.even_iff]
  unfold roundDiv Nat.dist at h
  unfold roundDiv
  dsimp only at h ⊢
  split <;> split at h <;> omega

/-- Two multiples are at least one unit apart, so the other one is not nearer. -/
theorem le_dist_add_dist {t : Nat} (h : t ≠ roundDiv num den) :
    den ≤ Nat.dist (t * den) num + Nat.dist (roundDiv num den * den) num := by
  have hunit : den ≤ Nat.dist (t * den) (roundDiv num den * den) := by
    rw [Nat.dist_mul_right]
    exact Nat.le_mul_of_pos_left den (Nat.dist_pos_of_ne h)
  have htri := Nat.dist.triangle_inequality (t * den) num (roundDiv num den * den)
  rw [Nat.dist_comm num] at htri
  omega

theorem dist_roundDiv_le (hd : 0 < den) (num t : Nat) :
    Nat.dist (roundDiv num den * den) num ≤ Nat.dist (t * den) num := by
  by_cases h : t = roundDiv num den
  · rw [h]
  · have hhalf := two_mul_dist_roundDiv_le hd num
    have hapart := le_dist_add_dist h
    omega

theorem even_roundDiv_of_dist_eq (hd : 0 < den) {t : Nat} (hne : t ≠ roundDiv num den)
    (h : Nat.dist (t * den) num = Nat.dist (roundDiv num den * den) num) :
    Even (roundDiv num den) := by
  have hhalf := two_mul_dist_roundDiv_le hd num
  have hapart := le_dist_add_dist hne
  exact even_roundDiv_of_half hd (by omega)

/-! ### Magnitudes -/

/-- The leading 53 bits of a magnitude. -/
def significand (m : Nat) : Nat := m >>> (m.log2 - 52)

theorem shiftLeft_mul (t k den : Nat) : t <<< k * den = t * den <<< k := by
  rw [Nat.shiftLeft_eq, Nat.shiftLeft_eq, Nat.mul_assoc, Nat.mul_comm (2 ^ k)]

theorem shiftLeft_pos (hd : 0 < den) (k : Nat) : 0 < den <<< k := by
  rw [Nat.shiftLeft_eq]
  positivity

theorem dist_roundUnits_le_shift (hd : 0 < den) (num t : Nat) :
    Nat.dist (roundUnits num den * den) num ≤ Nat.dist (t <<< excess num den * den) num := by
  rw [roundUnits, shiftLeft_mul, shiftLeft_mul]
  exact dist_roundDiv_le (shiftLeft_pos hd _) num t

/-- **A magnitude of 53 bits is a multiple of the unit that a ratio is rounded to**, or it is
farther from the ratio than the result. -/
theorem eq_shift_or_dist_lt (hd : 0 < den) (num : Nat) {m : Nat}
    (hm : 1 <<< (m.log2 - 52) ∣ m) :
    (∃ t, m = t <<< excess num den) ∨
      Nat.dist (roundUnits num den * den) num < Nat.dist (m * den) num := by
  by_cases hlog : excess num den ≤ m.log2 - 52
  · obtain ⟨t, ht⟩ := Nat.dvd_trans (one_shiftLeft_dvd hlog) hm
    exact Or.inl ⟨t, by rw [ht, Nat.one_shiftLeft, Nat.shiftLeft_eq, Nat.mul_comm]⟩
  · -- a power of two, itself a multiple, lies between `m` and the ratio
    right
    have he : 0 < excess num den := by omega
    have hlt : m < 1 <<< (52 + excess num den) := by
      rw [Nat.one_shiftLeft]
      by_cases h0 : m = 0
      · rw [h0]
        positivity
      · exact (Nat.log2_lt h0).mp (by omega)
    have hle : 1 <<< (52 + excess num den) * den ≤ num :=
      (Nat.le_div_iff_mul_le hd).mp (le_div_of_excess he)
    have hstep : m * den < 1 <<< (52 + excess num den) * den := Nat.mul_lt_mul_of_pos_right hlt hd
    have hround := dist_roundUnits_le_shift hd num (1 <<< 52)
    rw [← Nat.shiftLeft_add] at hround
    unfold Nat.dist at hround ⊢
    omega

/-- **No magnitude is nearer to a ratio than its rounding.** -/
theorem dist_roundUnits_le (hd : 0 < den) (num : Nat) {m : Nat} (hm : 1 <<< (m.log2 - 52) ∣ m) :
    Nat.dist (roundUnits num den * den) num ≤ Nat.dist (m * den) num := by
  rcases eq_shift_or_dist_lt hd num hm with ⟨t, rfl⟩ | h
  · exact dist_roundUnits_le_shift hd num t
  · exact h.le

theorem log2_shiftLeft {r : Nat} (h : r ≠ 0) (k : Nat) : (r <<< k).log2 = r.log2 + k := by
  have hlo : 2 ^ r.log2 ≤ r := Nat.log2_self_le h
  have hhi : r < 2 ^ (r.log2 + 1) := Nat.lt_log2_self
  have hk : 0 < 2 ^ k := by positivity
  rw [Nat.shiftLeft_eq, Nat.log2_eq_iff (by positivity)]
  refine ⟨?_, ?_⟩
  · rw [Nat.pow_add]
    exact Nat.mul_le_mul_right _ hlo
  · rw [Nat.add_right_comm, Nat.pow_add]
    exact Nat.mul_lt_mul_of_pos_right hhi hk

/-- The significand of an even number of units is even, as it is this number or, when all 53 bits
overflow, a power of two. -/
theorem even_significand_shift {r k : Nat} (hr : Even r) (hle : r ≤ 1 <<< 53)
    (hge : 0 < k → 1 <<< 52 ≤ r) : Even (significand (r <<< k)) := by
  rw [Nat.one_shiftLeft] at hle hge
  by_cases h0 : r = 0
  · subst h0
    simp [significand]
  rw [significand, log2_shiftLeft h0]
  rcases Nat.lt_or_eq_of_le hle with hlt | rfl
  · have hlog : r.log2 < 53 := (Nat.log2_lt h0).mpr hlt
    have hk : r.log2 + k - 52 = k := by
      rcases Nat.eq_zero_or_pos k with rfl | hk
      · omega
      · have := (Nat.le_log2 h0).mpr (hge hk)
        omega
    rw [hk, Nat.shiftLeft_shiftRight]
    exact hr
  · have hk : (2 ^ 53).log2 + k - 52 = k + 1 := by
      rw [Nat.log2_two_pow]
      omega
    rw [hk, Nat.shiftRight_add, Nat.shiftLeft_shiftRight]
    decide

/-- **A magnitude that is as near to a ratio as its rounding** is left for an even significand. -/
theorem even_significand_roundUnits (hd : 0 < den) {m : Nat} (hm : 1 <<< (m.log2 - 52) ∣ m)
    (hne : m ≠ roundUnits num den)
    (h : Nat.dist (m * den) num = Nat.dist (roundUnits num den * den) num) :
    Even (significand (roundUnits num den)) := by
  rcases eq_shift_or_dist_lt hd num hm with ⟨t, rfl⟩ | hlt
  · have ht : t ≠ roundDiv num (den <<< excess num den) := fun ht => hne (by rw [ht, roundUnits])
    rw [roundUnits, shiftLeft_mul, shiftLeft_mul] at h
    have heven := even_roundDiv_of_dist_eq (shiftLeft_pos hd _) ht h
    exact even_significand_shift heven (roundDiv_excess_le num den) le_roundDiv_excess
  · omega

/-! ### Integers -/

/-- **A number nearest to a rational**: none is nearer, and one that is as near is left for an even
significand. -/
structure Finite.NearestTo (x : Finite) (q : Rat) : Prop where
  le : ∀ y : Finite, |x.toRat - q| ≤ |y.toRat - q|
  even : ∀ y : Finite, y.toRat ≠ x.toRat → |y.toRat - q| = |x.toRat - q| →
    Even (significand x.units)

/-- The distance of a number from an integer, in units. -/
def Finite.distance (x : Finite) (k : Int) : Nat := (x.scaled - k * one).natAbs

theorem Finite.abs_toRat_sub (x : Finite) (k : Int) :
    |x.toRat - k| = (x.distance k : Rat) / (one : Rat) := by
  have hone : (0 : Rat) < one := Nat.cast_pos.mpr one_pos
  have hsub : x.toRat - k = ((x.scaled - k * one : Int) : Rat) / (one : Rat) := by
    rw [toRat]
    field_simp
    push_cast
    ring
  rw [hsub, abs_div, abs_of_pos hone, distance, Nat.cast_natAbs, Int.cast_abs]

theorem Finite.abs_toRat_sub_le_iff {x y : Finite} {k : Int} :
    |x.toRat - k| ≤ |y.toRat - k| ↔ x.distance k ≤ y.distance k := by
  have hone : (0 : Rat) < one := Nat.cast_pos.mpr one_pos
  rw [abs_toRat_sub, abs_toRat_sub, div_le_div_iff_of_pos_right hone, Nat.cast_le]

theorem scaled_intCast (k : Int) :
    k * one = if k < 0 then -((k.natAbs * one : Nat) : Int) else (k.natAbs * one : Nat) := by
  rw [Nat.cast_mul]
  split
  · rw [← Int.neg_mul]
    congr 1
    omega
  · congr 1
    omega

theorem Finite.dist_units_le (y : Finite) (k : Int) :
    Nat.dist y.units (k.natAbs * one) ≤ y.distance k := by
  unfold Nat.dist distance scaled
  rw [scaled_intCast]
  split <;> split <;> omega

section Integer

variable {k : Int} {x : Finite} (h : ofInt k = .finite x)
include h

/-- The rounding of an integer has its sign, so only the magnitudes are apart. -/
theorem distance_of_ofInt : x.distance k = Nat.dist x.units (k.natAbs * one) := by
  rw [Finite.distance, scaled_of_ofInt h, units_of_ofInt h, scaled_intCast]
  unfold Nat.dist
  split <;> omega

theorem dist_units_le_of_ofInt (y : Finite) :
    Nat.dist x.units (k.natAbs * one) ≤ Nat.dist y.units (k.natAbs * one) := by
  have hround := dist_roundUnits_le Nat.one_pos (k.natAbs * one) y.representable.2
  rwa [Nat.mul_one, Nat.mul_one, ← units_of_ofInt h] at hround

theorem units_ne_of_distance_eq {y : Finite} (hne : y.scaled ≠ x.scaled)
    (hd : y.distance k = x.distance k) : y.units ≠ x.units := by
  intro hunits
  have hzero : k.natAbs * one = 0 → x.units = 0 := fun h0 => by
    rw [units_of_ofInt h, h0, roundUnits_of_representable representable_zero]
  rw [distance_of_ofInt h, Finite.distance, scaled_intCast] at hd
  rw [scaled_of_ofInt h, ← units_of_ofInt h] at hne
  unfold Finite.scaled at hne hd
  unfold Nat.dist at hd
  rw [hunits] at hne hd
  generalize k.natAbs * one = magnitude at hzero hd
  generalize y.negative = negative at hne hd
  by_cases hk : k < 0
  · rw [if_pos hk] at hne hd
    cases negative with
    | true => exact hne rfl
    | false =>
      rw [if_neg Bool.false_ne_true] at hne hd
      omega
  · rw [if_neg hk] at hne hd
    cases negative with
    | true =>
      rw [if_pos rfl] at hne hd
      omega
    | false => exact hne rfl

/-- **An integer is rounded to the nearest number, a tie to the even one.** -/
theorem nearestTo_of_ofInt : x.NearestTo k where
  le y := by
    rw [Finite.abs_toRat_sub_le_iff]
    calc x.distance k = Nat.dist x.units (k.natAbs * one) := distance_of_ofInt h
      _ ≤ Nat.dist y.units (k.natAbs * one) := dist_units_le_of_ofInt h y
      _ ≤ y.distance k := y.dist_units_le k
  even y hne heq := by
    have hd : y.distance k = x.distance k :=
      Nat.le_antisymm (Finite.abs_toRat_sub_le_iff.mp heq.le)
        (Finite.abs_toRat_sub_le_iff.mp heq.ge)
    have hscaled : y.scaled ≠ x.scaled := fun e => hne (by rw [Finite.toRat, Finite.toRat, e])
    have hunits := units_ne_of_distance_eq h hscaled hd
    have hdist : Nat.dist y.units (k.natAbs * one) = Nat.dist x.units (k.natAbs * one) := by
      have hle := y.dist_units_le k
      rw [hd, distance_of_ofInt h] at hle
      exact Nat.le_antisymm hle (dist_units_le_of_ofInt h y)
    rw [units_of_ofInt h] at hunits hdist ⊢
    refine even_significand_roundUnits Nat.one_pos y.representable.2 hunits ?_
    rw [Nat.mul_one, Nat.mul_one]
    exact hdist

end Integer

end ShorthandSchema.Binary64
