import ShorthandSchema.Binary64.Round

/-! # Decimals: the shortest one that reads back

A binary64 magnitude has an exact decimal with units `10 ^ -1074`. On the coarser grids of `1`, `2`,
… significant digits only its two neighbours are of interest: the first grid with a neighbour that
reads back as the magnitude gives the shortest decimal, and of two such neighbours the nearer is
taken. -/

namespace ShorthandSchema

/-- Which neighbour is taken when a number is half way between both. -/
inductive Tie where
  /-- The one whose last digit is even. -/
  | toEven
  /-- The larger one. -/
  | up
deriving DecidableEq, Repr

namespace Decimal

open Binary64 (Finite)

/-- The digits of the exact decimal of a magnitude, in units of `10 ^ -1074`. -/
def exactDigits (x : Finite) : Nat := x.units * Nat.pow 5 Binary64.unitExponent

/-- The exact decimal of a magnitude. -/
def exact (x : Finite) : Decimal := ⟨exactDigits x, -Binary64.unitExponent⟩

/-- Whether a decimal is read as the magnitude of `x`. -/
def readsAs (x : Finite) (d : Decimal) : Bool :=
  Binary64.ofDecimal x.negative d == .finite x

/-- The grid point that stands for `whole / cut`: a neighbour that reads back, the nearer one if
both do. -/
def choose (tie : Tie) (x : Finite) (whole cut : Nat) (exponent : Int) : Option Decimal :=
  let low := trimmed ⟨whole / cut, exponent⟩
  let high := trimmed ⟨whole / cut + 1, exponent⟩
  let twice := 2 * (whole % cut)
  if twice < cut ∨ (twice = cut ∧ tie = .toEven ∧ whole / cut % 2 = 0) then
    [low, high].find? (readsAs x)
  else [high, low].find? (readsAs x)

/-- The decimal with the fewest of `count`, `count + 1`, … digits that reads back, trying `tries`
lengths; `length` is the number of digits of the exact decimal. -/
def shortestFrom (tie : Tie) (x : Finite) (length : Nat) : (tries count : Nat) → Option Decimal
  | 0, _ => none
  | tries + 1, count =>
    let cut := length - count
    (choose tie x (exactDigits x) (Nat.pow 10 cut) (cut - Binary64.unitExponent)).or
      (shortestFrom tie x length tries (count + 1))

/-- Seventeen digits tell all binary64 numbers apart. -/
def mostDigits : Nat := 17

/-- **The shortest decimal that reads back as a magnitude**, the nearest of those. -/
def shortest (tie : Tie) (x : Finite) : Decimal :=
  (shortestFrom tie x (Nat.toDigits 10 (exactDigits x)).length mostDigits 1).getD (exact x)

/-! ### What is written reads back -/

theorem readsAs_of_choose {tie : Tie} {x : Finite} {whole cut : Nat} {exponent : Int}
    {d : Decimal} (h : choose tie x whole cut exponent = some d) : readsAs x d := by
  unfold choose at h
  dsimp only at h
  split at h <;> exact List.find?_some h

theorem readsAs_of_shortestFrom {tie : Tie} {x : Finite} {length tries count : Nat} {d : Decimal}
    (h : shortestFrom tie x length tries count = some d) : readsAs x d := by
  induction tries generalizing count with
  | zero => cases h
  | succ tries ih =>
    rw [shortestFrom, Option.or_eq_some_iff] at h
    rcases h with h | ⟨-, h⟩
    · exact readsAs_of_choose h
    · exact ih h

end Decimal

end ShorthandSchema
