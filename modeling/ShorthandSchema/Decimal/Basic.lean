/-! # Decimals: digits and a power of ten

A decimal is a natural number of units, each a power of ten. Digits are ASCII, most significant
first. -/

namespace ShorthandSchema

/-- The number `digits * 10 ^ exponent`. -/
structure Decimal where
  digits : Nat
  exponent : Int
deriving DecidableEq, Repr

namespace Decimal

/-- The number that a list of digits writes, most significant first. -/
def ofDigits (cs : List Char) : Nat :=
  cs.foldl (fun n c => 10 * n + (c.toNat - '0'.toNat)) 0

/-- `n` zeros. -/
def zeros (n : Nat) : List Char := List.replicate n '0'

/-- The same number without zeros at the end of its digits; `fuel` bounds how many are dropped. -/
def dropZeros : Nat → Decimal → Decimal
  | 0, d => d
  | fuel + 1, d =>
    if d.digits % 10 = 0 then dropZeros fuel ⟨d.digits / 10, d.exponent + 1⟩ else d

/-- The same number with the fewest digits; zero is left as it is. -/
def trimmed (d : Decimal) : Decimal :=
  if d.digits = 0 then d else dropZeros (Nat.toDigits 10 d.digits).length d

end Decimal

end ShorthandSchema
