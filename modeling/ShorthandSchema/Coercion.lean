import ShorthandSchema.Json.Text
import ShorthandSchema.Numeral.Scan

/-! # Coercion: what a value counts as

* `Json.truthy`: as a boolean.
* `Json.asNumber?`: as a number, which may be an integer with all its digits; checks compare the
  value rounded to binary64.
* `Json.asText`: as a string. -/

namespace ShorthandSchema

/-- **Whether a value counts as true.** -/
def Json.truthy : Json → Bool
  | .null => false
  | .bool b => b
  | .number n => !n.isZero
  | .string s => s != ""
  | .array _ => true
  | .object _ => true

/-! ### Numbers -/

/-- A value as a number: what checks compare, and what is returned. -/
structure Coerced where
  value : Binary64
  number : Json.Number
deriving DecidableEq

/-- The integers of 64 bits with a sign, from `-2 ^ 63` to below `2 ^ 63`. -/
def Json.Signed (k : Int) : Prop := -9223372036854775808 ≤ k ∧ k < 9223372036854775808

instance (k : Int) : Decidable (Json.Signed k) := inferInstanceAs (Decidable (_ ∧ _))

theorem Json.Signed.exact {k : Int} (h : Json.Signed k) : Json.Exact k :=
  ⟨h.1, Int.lt_trans h.2 (by decide)⟩

/-- The JSON number of a finite number: an integer if it has no fraction and fits into 64 bits with
a sign. -/
def Json.Number.ofFinite (x : Binary64.Finite) : Json.Number :=
  if h : x.isIntegral ∧ Json.Signed x.toInt then .integer x.toInt h.2.exact
  else .float x

namespace Coerced

/-- A finite number coerced, without its fraction if `whole` is set. -/
def ofFinite (whole : Bool) (x : Binary64.Finite) : Coerced :=
  let y := if whole then x.truncate else x
  ⟨.finite y, .ofFinite y⟩

/-- A number coerced; only a finite one counts. -/
def ofBinary64? (whole : Bool) : Binary64 → Option Coerced
  | .finite x => some (ofFinite whole x)
  | _ => none

/-- A literal coerced: an integer that JSON keeps exactly keeps all its digits. -/
def ofNumeral? (whole : Bool) (n : Numeral) : Option Coerced :=
  if h : n.isWhole ∧ Json.Exact n.toInt then
    some ⟨n.toBinary64, .integer n.toInt h.2⟩
  else ofBinary64? whole n.toBinary64

end Coerced

/-- **A value as a number**, without its fraction if `whole` is set. A string counts by the literal
at its start. -/
def Json.asNumber? (whole : Bool) : Json → Option Coerced
  | .number (.integer k exact) => some ⟨.ofInt k, .integer k exact⟩
  | .number (.float x) => some (.ofFinite whole x)
  | .string s => (Numeral.read? whole s).bind (Coerced.ofNumeral? whole)
  | _ => none

/-! ### Strings -/

/-- **A value as a string**: strings as they are, all else by its text, where a number without
fraction is written as an integer. -/
def Json.asText : Json → String
  | .string s => s
  | .number (.float x) => (Json.Number.ofFinite x).text
  | v => v.text

end ShorthandSchema
