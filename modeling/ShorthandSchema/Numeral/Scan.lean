import ShorthandSchema.Numeral.Basic
import ShorthandSchema.Text.Blank

/-! # Numerals: the literal at the start of a text

A text is read up to the end of the longest literal at its start; what follows is ignored. Only the
ASCII digits are digits.

* `scanWhole`: a sign and digits, `scanDecimal`: also a point and a scale.
* `read?`: either of them after blanks. -/

namespace ShorthandSchema.Numeral

/-- The sign at the start of a text, and the rest. -/
def takeSign : List Char → Option Sign × List Char
  | [] => (none, [])
  | c :: rest =>
    match Sign.ofChar? c with
    | some s => (some s, rest)
    | none => (none, c :: rest)

/-- The digits at the start of a text. -/
def takeDigits (cs : List Char) : List Char := cs.takeWhile Char.isDigit

/-- What follows the digits at the start of a text. -/
def dropDigits (cs : List Char) : List Char := cs.dropWhile Char.isDigit

theorem takeDigits_append_dropDigits (cs : List Char) : takeDigits cs ++ dropDigits cs = cs :=
  List.takeWhile_append_dropWhile

/-- The point and the digits after it, and the rest. -/
def takeFraction : List Char → Option (List Char) × List Char
  | '.' :: rest => (some (takeDigits rest), dropDigits rest)
  | cs => (none, cs)

/-- The scale at the start of a text; it needs a digit. -/
def scanScale : List Char → Option Scale
  | [] => none
  | marker :: rest =>
    let (sign, digits) := takeSign rest
    if (marker = 'e' ∨ marker = 'E') ∧ takeDigits digits ≠ [] then
      some ⟨marker, sign, takeDigits digits⟩
    else none

/-- **The longest integer literal at the start of a text.** -/
def scanWhole (cs : List Char) : Option Numeral :=
  let (sign, rest) := takeSign cs
  if takeDigits rest = [] then none else some ⟨sign, takeDigits rest, none, none⟩

/-- **The longest decimal literal at the start of a text.** -/
def scanDecimal (cs : List Char) : Option Numeral :=
  let (sign, rest) := takeSign cs
  let (fraction, after) := takeFraction (dropDigits rest)
  if takeDigits rest = [] ∧ fraction.getD [] = [] then none
  else some ⟨sign, takeDigits rest, fraction, scanScale after⟩

/-- The literal after the blanks at the start of a text, an integer literal if `whole` is set. -/
def read? (whole : Bool) (s : String) : Option Numeral :=
  let cs := trimLeft s.toList
  if whole then scanWhole cs else scanDecimal cs

end ShorthandSchema.Numeral
