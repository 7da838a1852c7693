import ShorthandSchema.Decimal.Shortest

/-! # Decimals: how a binary64 number is written

A layout says which decimal stands for a number and how its digits are laid out. -/

namespace ShorthandSchema

/-- **The decisions of a number format.** -/
structure Layout where
  /-- Which of two equally near shortest decimals is written. -/
  tie : Tie
  /-- The exponents of the first digit for which the digits are laid out around the point. -/
  positional : Int → Bool
  /-- Whether a number without fraction is still given one zero after the point. -/
  fraction : Bool

namespace Layout

/-- Digits around the point; `place` is the exponent of the first digit. -/
def around (layout : Layout) (digits : List Char) (place : Int) : List Char :=
  if place < 0 then
    '0' :: '.' :: (Decimal.zeros (-place - 1).toNat ++ digits)
  else
    let whole := place.toNat + 1
    if digits.length ≤ whole then
      digits ++ Decimal.zeros (whole - digits.length) ++
        if layout.fraction then ['.', '0'] else []
    else
      digits.take whole ++ '.' :: digits.drop whole

/-- One digit, the other digits after the point, and the signed exponent. -/
def scientific (digits : List Char) (place : Int) : List Char :=
  digits.take 1 ++ (if digits.length ≤ 1 then [] else '.' :: digits.drop 1) ++
    'e' :: (if place < 0 then '-' else '+') :: Nat.toDigits 10 place.natAbs

/-- The text of a magnitude that is not zero. -/
def magnitude (layout : Layout) (d : Decimal) : List Char :=
  let digits := Nat.toDigits 10 d.digits
  let place := (digits.length : Int) - 1 + d.exponent
  if layout.positional place then layout.around digits place else scientific digits place

/-- **The text of a finite number.** -/
def finite (layout : Layout) (x : Binary64.Finite) : List Char :=
  (if x.negative then ['-'] else []) ++
    if x.units = 0 then layout.around ['0'] 0
    else layout.magnitude (Decimal.shortest layout.tie x)

/-- The layout of JSON text: positional from `0.00001` to below `10 ^ 16`. -/
def json : Layout := ⟨.toEven, fun place => decide (-5 ≤ place ∧ place < 16), true⟩

/-- The layout of numbers in messages: never an exponent. -/
def plain : Layout := ⟨.up, fun _ => true, false⟩

end Layout

/-- The text of a number in a message. -/
def Binary64.plainText : Binary64 → String
  | .finite x => String.ofList (Layout.plain.finite x)
  | .infinite negative => if negative then "-inf" else "inf"
  | .nan => "NaN"

end ShorthandSchema
