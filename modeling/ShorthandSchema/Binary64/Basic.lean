/-! # Binary64: the values

The finite binary64 numbers are the magnitudes `m * 2 ^ -1074` with a sign, where `m` is below
`2 ^ 2098` and has at most 53 significant bits; both zeros are kept apart. The infinities and NaN
complete the format.

* `Finite.scaled`: the value as an integer number of units `2 ^ -1074`; order and equality of
  numbers are those of these integers.
* `Finite.truncate`: the integral part, which is again a finite number. -/

namespace ShorthandSchema

namespace Binary64

/-- The exponent of the units: the least positive number is `2 ^ -unitExponent`. -/
def unitExponent : Nat := 1074

/-- The number one, in units. -/
def one : Nat := 1 <<< unitExponent

/-- The exponent of the first power of two beyond the finite numbers, in units. -/
def limitExponent : Nat := 2098

/-- The first power of two beyond the finite numbers, in units. -/
def limit : Nat := 1 <<< limitExponent

/-- **The magnitudes of the finite numbers**, in units. -/
def Representable (m : Nat) : Prop := m < limit ∧ 1 <<< (m.log2 - 52) ∣ m

instance (m : Nat) : Decidable (Representable m) :=
  inferInstanceAs (Decidable (_ ∧ _))

/-- A finite number: a sign and a representable magnitude. -/
structure Finite where
  negative : Bool
  units : Nat
  representable : Representable units
deriving DecidableEq

end Binary64

open Binary64 in
/-- **A binary64 number.** -/
inductive Binary64 where
  | finite (x : Finite)
  | infinite (negative : Bool)
  | nan
deriving DecidableEq

namespace Binary64

theorem representable_zero : Representable 0 :=
  ⟨by rw [limit, Nat.one_shiftLeft]; exact Nat.two_pow_pos _, Nat.dvd_zero _⟩

/-! ### Finite numbers -/

namespace Finite

/-- Zero, of either sign. -/
def zero (negative : Bool) : Finite := ⟨negative, 0, representable_zero⟩

instance : Inhabited Finite := ⟨zero false⟩

/-- The value as a number of units. -/
def scaled (x : Finite) : Int := if x.negative then -x.units else x.units

/-- The integer that remains when the fraction is dropped. -/
def toInt (x : Finite) : Int :=
  if x.negative then -(x.units / one : Nat) else (x.units / one : Nat)

/-- Whether the number has no fraction. -/
def isIntegral (x : Finite) : Bool := x.units % one == 0

end Finite

theorem Representable.dropFraction {m : Nat} (h : Representable m) (k : Nat) :
    Representable (m / 1 <<< k * 1 <<< k) := by
  obtain ⟨hlt, hdvd⟩ := h
  unfold Representable
  simp only [Nat.one_shiftLeft] at hdvd ⊢
  refine ⟨Nat.lt_of_le_of_lt (Nat.div_mul_le_self _ _) hlt, ?_⟩
  by_cases hk : m < 2 ^ k
  · rw [Nat.div_eq_of_lt hk, Nat.zero_mul]
    exact Nat.dvd_zero _
  · by_cases hs : m.log2 - 52 ≤ k
    · have hle : (m / 2 ^ k * 2 ^ k).log2 - 52 ≤ k := by
        refine Nat.le_trans (Nat.sub_le_sub_right ?_ 52) hs
        by_cases h0 : m / 2 ^ k * 2 ^ k = 0
        · simp [h0]
        · have hm : m ≠ 0 := fun e => h0 (by simp [e])
          exact (Nat.le_log2 hm).2
            (Nat.le_trans (Nat.log2_self_le h0) (Nat.div_mul_le_self _ _))
      exact Nat.dvd_trans (Nat.pow_dvd_pow 2 hle) (Nat.dvd_mul_left _ _)
    · have hd : 2 ^ k ∣ m := Nat.dvd_trans (Nat.pow_dvd_pow 2 (by omega)) hdvd
      rwa [Nat.div_mul_cancel hd]

/-- **The number without its fraction**, with the same sign. -/
def Finite.truncate (x : Finite) : Finite :=
  ⟨x.negative, x.units / one * one, x.representable.dropFraction unitExponent⟩

/-! ### Order and equality of numbers -/

/-- Whether `a < b`; NaN is not comparable. -/
def less : Binary64 → Binary64 → Bool
  | finite x, finite y => decide (x.scaled < y.scaled)
  | finite _, infinite negative => !negative
  | infinite negative, finite _ => negative
  | infinite a, infinite b => a && !b
  | nan, _ => false
  | _, nan => false

/-- Whether the two are the same number: the zeros are, NaN never is. -/
def same : Binary64 → Binary64 → Bool
  | finite x, finite y => decide (x.scaled = y.scaled)
  | infinite a, infinite b => a == b
  | _, _ => false

/-- Whether the number is a zero of either sign. -/
def Finite.isZero (x : Finite) : Bool := x.units == 0

end Binary64

end ShorthandSchema
