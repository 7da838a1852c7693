import ShorthandSchema.Binary64.Round

/-! # Numerals: number literals

A numeral is a literal with its parts kept apart: sign, digits before and after the point, and a
scale. Its text and its value are read off the parts. -/

namespace ShorthandSchema

/-- A sign that is written out. -/
inductive Sign where
  | plus
  | minus
deriving DecidableEq, Repr

namespace Sign

/-- The character of a sign. -/
def char : Sign → Char
  | plus => '+'
  | minus => '-'

/-- The sign that a character is. -/
def ofChar? (c : Char) : Option Sign :=
  if c = '+' then some plus else if c = '-' then some minus else none

/-- The text of a sign that may be absent. -/
def text : Option Sign → List Char
  | some s => [s.char]
  | none => []

end Sign

/-- The power of ten at the end of a literal. -/
structure Scale where
  marker : Char
  sign : Option Sign
  digits : List Char
deriving DecidableEq, Repr

/-- **A number literal.** -/
structure Numeral where
  sign : Option Sign
  whole : List Char
  fraction : Option (List Char)
  scale : Option Scale
deriving DecidableEq, Repr

namespace Scale

/-- The text of a scale. -/
def text (s : Scale) : List Char := s.marker :: (Sign.text s.sign ++ s.digits)

/-- The exponent of ten. -/
def exponent (s : Scale) : Int :=
  if s.sign = some .minus then -(Decimal.ofDigits s.digits) else Decimal.ofDigits s.digits

end Scale

namespace Numeral

/-- The text of the literal. -/
def text (n : Numeral) : List Char :=
  Sign.text n.sign ++ n.whole ++ (n.fraction.elim [] ('.' :: ·)) ++ (n.scale.elim [] Scale.text)

/-- Whether the literal has neither a point nor a scale. -/
def isWhole (n : Numeral) : Bool := n.fraction.isNone && n.scale.isNone

/-- Whether a minus sign is written. -/
def negative (n : Numeral) : Bool := n.sign = some .minus

/-- The integer that the sign and the digits before the point denote. -/
def toInt (n : Numeral) : Int :=
  if n.negative then -(Decimal.ofDigits n.whole) else Decimal.ofDigits n.whole

/-- The magnitude of the literal. -/
def decimal (n : Numeral) : Decimal :=
  let after := n.fraction.getD []
  ⟨Decimal.ofDigits (n.whole ++ after), n.scale.elim 0 Scale.exponent - after.length⟩

/-- **The binary64 number nearest to the literal.** -/
def toBinary64 (n : Numeral) : Binary64 := .ofDecimal n.negative n.decimal

end Numeral

end ShorthandSchema
