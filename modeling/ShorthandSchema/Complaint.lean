import ShorthandSchema.Decimal.Layout
import ShorthandSchema.Failure
import ShorthandSchema.Message

/-! # Complaints: which check failed

A complaint is the cause of a failure. It has a code and a default text; the site of the node that
complains adds the path and may replace the text. -/

namespace ShorthandSchema

/-- **A check that failed**, with what its text needs. -/
inductive Complaint where
  | missing
  | notNumber (whole : Bool) (received : Json)
  | numberTooSmall (least : Binary64)
  | numberTooBig (most : Binary64)
  | numberNotSame (expected : Binary64)
  | stringTooShort (least : Nat)
  | stringTooLong (most : Nat)
  | stringNotSame (expected : String)
  | patternMissed
  | notArray (received : Json)
  | tooFewItems (least : Nat)
  | tooManyItems (most : Nat)
  | notObject (received : Json)
  | booleanNotSame (expected : Bool)

namespace Complaint

/-- The code of a complaint. -/
def code : Complaint → Code
  | missing => .requireField
  | notNumber _ _ => .notNumber
  | numberTooSmall _ => .numberTooSmall
  | numberTooBig _ => .numberTooBig
  | numberNotSame _ => .numberNotSame
  | stringTooShort _ => .stringTooShort
  | stringTooLong _ => .stringTooLong
  | stringNotSame _ => .stringNotSame
  | patternMissed => .regexMismatch
  | notArray _ => .notArray
  | tooFewItems _ => .arrayTooFewItems
  | tooManyItems _ => .arrayTooManyItems
  | notObject _ => .notObject
  | booleanNotSame _ => .booleanNotSame

/-- The text about a value of the wrong type. -/
def wrongType (expected : String) (received : Json) : String :=
  "Expected " ++ expected ++ ", received " ++ received.typeName

/-- **The default text of a complaint.** -/
def text : Complaint → String
  | missing => "Required field is missing or null"
  | notNumber whole received =>
    let expected := if whole then "integer" else "number"
    match received with
    | .string s => "Cannot coerce \"" ++ s ++ "\" to " ++ expected
    | _ => wrongType expected received
  | numberTooSmall least => "Number must be at least " ++ least.plainText
  | numberTooBig most => "Number must be at most " ++ most.plainText
  | numberNotSame expected => "Number must equal " ++ expected.plainText
  | stringTooShort least => "String must be at least " ++ toString least ++ " characters"
  | stringTooLong most => "String must be at most " ++ toString most ++ " characters"
  | stringNotSame expected => "String must equal \"" ++ expected ++ "\""
  | patternMissed => "String does not match pattern"
  | notArray received => wrongType "array" received
  | tooFewItems least => "Array must have at least " ++ toString least ++ " elements"
  | tooManyItems most => "Array must have at most " ++ toString most ++ " elements"
  | notObject received => wrongType "object" received
  | booleanNotSame expected => "Boolean must be " ++ if expected then "true" else "false"

end Complaint

/-- Where complaints come from: the path of a node and the message that replaces their texts. -/
structure Site where
  path : String
  message : Option Message

/-- **The failure of a complaint** about the value `raw`, as it was given. -/
def Site.failure (s : Site) (raw : Json) (c : Complaint) : Failure :=
  ⟨c.code, s.path, s.message.elim c.text (·.resolve raw)⟩

end ShorthandSchema
