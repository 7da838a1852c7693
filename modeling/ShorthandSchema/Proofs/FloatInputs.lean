import Mathlib.Data.Rat.Floor
import ShorthandSchema.Proofs.Binary64.Order
import ShorthandSchema.Proofs.NumberForm

/-! # Float inputs: which value they keep

A finite binary64 number denotes a rational number. Coercion keeps it, or its integral part if no
fraction is wanted, and writes it as an integer whenever it is one of the signed range. The range is
tested with numbers, `-2 ^ 63` and `2 ^ 63 - 1`, the second of which is rounded up to `2 ^ 63`; a
number between them is cast to an integer, where a cast stops at the ends of the range.

* `toRat_truncate`: dropping the fraction rounds toward zero.
* `toJson_finite`: the tests with numbers are those of the range, and the cast stops at no end.
* `Json.asNumber?_float`: what coercion makes of a float. -/

namespace ShorthandSchema

open Binary64 (Finite)

/-- A rational number without its fraction. -/
def towardZero (q : Rat) : Int := if 0 ≤ q then ⌊q⌋ else ⌈q⌉

theorem towardZero_of_nonneg {q : Rat} (h : 0 ≤ q) : towardZero q = ⌊q⌋ := if_pos h

theorem towardZero_neg (q : Rat) : towardZero (-q) = -towardZero q := by
  unfold towardZero
  rw [Int.floor_neg, Int.ceil_neg]
  rcases lt_trichotomy q 0 with h | rfl | h
  · rw [if_pos (neg_nonneg.mpr h.le), if_neg (not_le.mpr h)]
  · simp
  · rw [if_neg (by simpa using h), if_pos h.le]

namespace Binary64

/-! ### The rational numbers that are denoted -/

namespace Finite

/-- **The rational number that a finite number denotes.** -/
def toRat (x : Finite) : Rat := (x.scaled : Rat) / (one : Rat)

variable {x : Finite}

theorem toRat_eq_intCast_iff {k : Int} : x.toRat = k ↔ x.scaled = k * one := by
  have hone : (one : Rat) ≠ 0 := Nat.cast_ne_zero.mpr (Nat.ne_of_gt one_pos)
  rw [toRat, div_eq_iff hone]
  exact_mod_cast Iff.rfl

theorem scaled_of_isIntegral (h : x.isIntegral) : x.scaled = x.toInt * one := by
  have hu : ((x.units / one : Nat) : Int) * one = x.units := by
    exact_mod_cast Nat.div_mul_cancel (isIntegral_iff_dvd.mp h)
  unfold scaled toInt
  split
  · rw [Int.neg_mul, hu]
  · rw [hu]

theorem toRat_of_isIntegral (h : x.isIntegral) : x.toRat = x.toInt :=
  toRat_eq_intCast_iff.mpr (scaled_of_isIntegral h)

theorem isIntegral_iff_toRat : x.isIntegral ↔ ∃ k : Int, x.toRat = k := by
  refine ⟨fun h => ⟨_, toRat_of_isIntegral h⟩, ?_⟩
  rintro ⟨k, hk⟩
  have hd : (one : Int) ∣ x.scaled := ⟨k, by rw [toRat_eq_intCast_iff.mp hk, Int.mul_comm]⟩
  rw [isIntegral_iff_dvd]
  unfold scaled at hd
  split at hd
  · exact Int.natCast_dvd_natCast.mp (Int.dvd_neg.mp hd)
  · exact Int.natCast_dvd_natCast.mp hd

theorem toInt_truncate (x : Finite) : x.truncate.toInt = x.toInt := by
  unfold toInt truncate
  rw [Nat.mul_div_cancel _ one_pos]

theorem towardZero_toRat (x : Finite) : towardZero x.toRat = x.toInt := by
  have hfloor : ⌊(x.units : Rat) / (one : Rat)⌋ = ((x.units / one : Nat) : Int) := by
    rw [Rat.floor_natCast_div_natCast, Int.natCast_ediv]
  have hpos : 0 ≤ (x.units : Rat) / (one : Rat) := by positivity
  unfold toRat scaled toInt
  cases x.negative with
  | false =>
    simp only [Bool.false_eq_true, if_false, Int.cast_natCast]
    rw [towardZero_of_nonneg hpos, hfloor]
  | true =>
    simp only [if_true, Int.cast_neg, Int.cast_natCast, neg_div]
    rw [towardZero_neg, towardZero_of_nonneg hpos, hfloor]

/-- **Dropping the fraction rounds toward zero.** -/
theorem toRat_truncate (x : Finite) : x.truncate.toRat = towardZero x.toRat := by
  rw [toRat_of_isIntegral x.isIntegral_truncate, toInt_truncate, towardZero_toRat]

/-- A number beyond the signed range has more than 53 bits before the point, and none after it. -/
theorem isIntegral_of_not_signed (h : ¬ Json.Signed x.toInt) : x.isIntegral := by
  have hq : 9223372036854775808 ≤ x.units / one := by
    unfold Json.Signed toInt at h
    generalize x.units / one = q at h ⊢
    split at h <;> omega
  have hu : 1 <<< (unitExponent + 63) ≤ x.units := by
    have hone : 9223372036854775808 * one = 1 <<< (unitExponent + 63) := by decide +kernel
    rw [← hone]
    exact (Nat.le_div_iff_mul_le one_pos).mp hq
  have hlog : unitExponent + 63 ≤ x.units.log2 := by
    rw [Nat.one_shiftLeft] at hu
    have hpos : 0 < x.units := Nat.lt_of_lt_of_le (Nat.two_pow_pos _) hu
    exact (Nat.le_log2 (Nat.ne_of_gt hpos)).mpr hu
  rw [isIntegral_iff_dvd]
  exact Nat.dvd_trans (one_shiftLeft_dvd (by omega)) x.representable.2

end Finite

/-! ### Casts and tests by comparison -/

/-- **A number as an integer of 64 bits with a sign**: the integral part, or the end of the range
that it is beyond. NaN gives zero. -/
def castSigned : Binary64 → Int
  | finite x =>
    if x.toInt < -9223372036854775808 then -9223372036854775808
    else if 9223372036854775807 < x.toInt then 9223372036854775807
    else x.toInt
  | infinite negative => if negative then -9223372036854775808 else 9223372036854775807
  | nan => 0

theorem signed_castSigned (a : Binary64) : Json.Signed a.castSigned := by
  unfold Json.Signed
  cases a with
  | finite x =>
    simp only [castSigned]
    split
    · omega
    · split <;> omega
  | infinite negative => cases negative <;> decide
  | nan => decide

/-- Whether the fraction of a number is zero; an infinity has none that is a number. -/
def hasNoFraction : Binary64 → Bool
  | finite x => x.isIntegral
  | _ => false

/-- Whether a number is between the ends of the signed range, which are rounded to numbers. -/
def betweenEnds (a : Binary64) : Bool :=
  (less (ofInt (-9223372036854775808)) a || same (ofInt (-9223372036854775808)) a) &&
    less a (ofInt 9223372036854775807)

/-- **The JSON value of a number**: the integer it is cast to if it has no fraction and is between
the ends of the signed range; else the number, or null for one that JSON does not have. -/
def toJson (a : Binary64) : Json :=
  if a.hasNoFraction ∧ a.betweenEnds then
    .number (.integer a.castSigned a.signed_castSigned.exact)
  else
    match a with
    | finite x => .number (.float x)
    | _ => .null

theorem exists_ofInt_least :
    ∃ y, ofInt (-9223372036854775808) = .finite y ∧ y.scaled = -9223372036854775808 * one :=
  ⟨⟨true, 9223372036854775808 * one, by decide +kernel⟩, by decide +kernel, by
    rw [Finite.scaled, if_pos rfl, Int.natCast_mul, Int.neg_mul]
    rfl⟩

/-- The greatest integer of the range is none, and is rounded up. -/
theorem exists_ofInt_greatest :
    ∃ y, ofInt 9223372036854775807 = .finite y ∧ y.scaled = 9223372036854775808 * one :=
  ⟨⟨false, 9223372036854775808 * one, by decide +kernel⟩, by decide +kernel, by
    rw [Finite.scaled, if_neg (by decide), Int.natCast_mul]
    rfl⟩

variable {x : Finite}

theorem betweenEnds_iff_signed (h : x.isIntegral) :
    (finite x).betweenEnds ↔ Json.Signed x.toInt := by
  have hpos : (0 : Int) < one := Int.natCast_pos.mpr one_pos
  have hleast : (-9223372036854775808 * one < x.toInt * one ∨
      -9223372036854775808 * one = x.toInt * one) ↔ -9223372036854775808 ≤ x.toInt := by
    rw [Int.mul_lt_mul_right hpos, Int.mul_eq_mul_right_iff hpos.ne', Int.le_iff_lt_or_eq]
  have hgreatest : x.toInt * one < 9223372036854775808 * one ↔ x.toInt < 9223372036854775808 :=
    Int.mul_lt_mul_right hpos
  obtain ⟨y, hy, hleasty⟩ := exists_ofInt_least
  obtain ⟨z, hz, hgreatestz⟩ := exists_ofInt_greatest
  rw [betweenEnds, hy, hz]
  simp only [less, same, Bool.and_eq_true, Bool.or_eq_true, decide_eq_true_iff,
    Finite.scaled_of_isIntegral h, hleasty, hgreatestz]
  rw [hleast, hgreatest, Json.Signed]

theorem castSigned_of_signed (h : Json.Signed x.toInt) : (finite x).castSigned = x.toInt := by
  unfold Json.Signed at h
  simp only [castSigned]
  rw [if_neg (by omega), if_neg (by omega)]

/-- **The tests with numbers are those of the range**, the cast stops at no end, and null does not
come out of a finite number. -/
theorem toJson_finite (x : Finite) : (finite x).toJson = .number (.ofFinite x) := by
  unfold toJson
  split
  · rename_i h
    have hs := (betweenEnds_iff_signed h.1).mp h.2
    rw [Json.Number.ofFinite_of_signed h.1 (castSigned_of_signed hs).symm (signed_castSigned _)]
  · rename_i h
    have hs : ¬ (x.isIntegral ∧ Json.Signed x.toInt) := fun hs =>
      h ⟨hs.1, (betweenEnds_iff_signed hs.1).mpr hs.2⟩
    rw [Json.Number.ofFinite, dif_neg hs]

end Binary64

/-! ### Coerced floats -/

namespace Json.Number

/-- The rational number of a JSON number. -/
def toRat : Json.Number → Rat
  | integer k _ => k
  | float x => x.toRat

/-- A JSON number that is written as an integer. -/
def IsInteger (n : Json.Number) : Prop := ∃ k exact, n = integer k exact

theorem toRat_ofFinite (x : Finite) : (ofFinite x).toRat = x.toRat := by
  unfold ofFinite
  split
  · rename_i h
    exact (Finite.toRat_of_isIntegral h.1).symm
  · rfl

theorem isInteger_ofFinite_iff {x : Finite} :
    (ofFinite x).IsInteger ↔ x.isIntegral ∧ Json.Signed x.toInt := by
  unfold ofFinite
  split
  · rename_i h
    exact iff_of_true ⟨_, _, rfl⟩ h
  · rename_i h
    refine iff_of_false ?_ h
    rintro ⟨k, exact, hk⟩
    cases hk

theorem isInteger_ofFinite_iff_toRat {x : Finite} :
    (ofFinite x).IsInteger ↔ ∃ k : Int, x.toRat = k ∧ Json.Signed k := by
  rw [isInteger_ofFinite_iff]
  constructor
  · rintro ⟨h, hs⟩
    exact ⟨x.toInt, Finite.toRat_of_isIntegral h, hs⟩
  · rintro ⟨k, hk, hs⟩
    have h : x.isIntegral := Finite.isIntegral_iff_toRat.mpr ⟨k, hk⟩
    rw [Finite.toRat_of_isIntegral h] at hk
    have hk : x.toInt = k := by exact_mod_cast hk
    rw [hk]
    exact ⟨h, hs⟩

end Json.Number

/-- **What coercion makes of a float.** It keeps the rational number, or rounds it toward zero. The
result is written as an integer if it is one of the signed range, and is the float itself otherwise.
The cast to an integer gives the number that is cast, and null is never written. -/
theorem Json.asNumber?_float (whole : Bool) (x : Finite) :
    ∃ y n, (Json.number (.float x)).asNumber? whole = some ⟨.finite y, n⟩ ∧
      y.toRat = n.toRat ∧
      n.toRat = (if whole then (towardZero x.toRat : Rat) else x.toRat) ∧
      (n.IsInteger ↔ ∃ k : Int, n.toRat = k ∧ Json.Signed k) ∧
      (¬ n.IsInteger → n = .float x) ∧
      (Binary64.finite y).toJson = .number n ∧
      (n.IsInteger → ((Binary64.finite y).castSigned : Rat) = y.toRat) := by
  have hcast {y : Finite} (h : (Number.ofFinite y).IsInteger) :
      ((Binary64.finite y).castSigned : Rat) = y.toRat := by
    obtain ⟨hi, hs⟩ := Number.isInteger_ofFinite_iff.mp h
    rw [Binary64.castSigned_of_signed hs, Finite.toRat_of_isIntegral hi]
  have hfloat {y : Finite} (h : ¬ (Number.ofFinite y).IsInteger) : Number.ofFinite y = .float y :=
    dif_neg fun hx => h (Number.isInteger_ofFinite_iff.mpr hx)
  cases whole with
  | false =>
    refine ⟨x, .ofFinite x, rfl, (Number.toRat_ofFinite x).symm, Number.toRat_ofFinite x, ?_,
      hfloat, Binary64.toJson_finite x, hcast⟩
    rw [Number.toRat_ofFinite, Number.isInteger_ofFinite_iff_toRat]
  | true =>
    refine ⟨x.truncate, .ofFinite x.truncate, rfl, (Number.toRat_ofFinite _).symm, ?_, ?_,
      fun h => ?_, Binary64.toJson_finite _, hcast⟩
    · rw [Number.toRat_ofFinite, Finite.toRat_truncate, if_pos rfl]
    · rw [Number.toRat_ofFinite, Number.isInteger_ofFinite_iff_toRat]
    · -- a number beyond the range has no fraction to drop
      have hs : ¬ Json.Signed x.toInt := fun hs =>
        h (Number.isInteger_ofFinite_iff.mpr ⟨x.isIntegral_truncate, by rwa [x.toInt_truncate]⟩)
      rw [hfloat h, Finite.truncate_of_isIntegral (Finite.isIntegral_of_not_signed hs)]

end ShorthandSchema
