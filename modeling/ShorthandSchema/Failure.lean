import ShorthandSchema.Json.Basic

/-! # Failures: what a rejected value is told -/

namespace ShorthandSchema

/-- **The code of a failure.** -/
inductive Code where
  | requireField
  | notNumber
  | numberTooSmall
  | numberTooBig
  | numberNotSame
  | stringTooShort
  | stringTooLong
  | stringNotSame
  | regexMismatch
  | notArray
  | arrayTooFewItems
  | arrayTooManyItems
  | notObject
  | booleanNotSame
deriving DecidableEq, Repr, Inhabited

namespace Code

/-- All codes. -/
def all : List Code :=
  [requireField, notNumber, numberTooSmall, numberTooBig, numberNotSame, stringTooShort,
    stringTooLong, stringNotSame, regexMismatch, notArray, arrayTooFewItems, arrayTooManyItems,
    notObject, booleanNotSame]

/-- The words of a code's key. -/
def words : Code → List String
  | requireField => ["require", "field"]
  | notNumber => ["not", "number"]
  | numberTooSmall => ["number", "too", "small"]
  | numberTooBig => ["number", "too", "big"]
  | numberNotSame => ["number", "not", "same"]
  | stringTooShort => ["string", "too", "short"]
  | stringTooLong => ["string", "too", "long"]
  | stringNotSame => ["string", "not", "same"]
  | regexMismatch => ["regex", "mismatch"]
  | notArray => ["not", "array"]
  | arrayTooFewItems => ["array", "too", "few", "items"]
  | arrayTooManyItems => ["array", "too", "many", "items"]
  | notObject => ["not", "object"]
  | booleanNotSame => ["boolean", "not", "same"]

/-- **The key of a code**, its words in lower case joined by underscores. -/
def key (c : Code) : String := String.intercalate "_" c.words

/-- The words of a code, each with a capital. -/
def title (c : Code) : String := String.join (c.words.map String.capitalize)

end Code

/-- **Why a value was rejected**: the first failing check, the path of the node, and a text. -/
structure Failure where
  code : Code
  path : String
  message : String
deriving DecidableEq, Repr, Inhabited

namespace Failure

/-- The text of a failure with its path. -/
def text (f : Failure) : String :=
  if f.path = "" then f.message else f.path ++ ": " ++ f.message

/-- A failure as a flat object. -/
def toJson (f : Failure) : Json :=
  .ofMembers [("code", .string f.code.key), ("field", .string f.path),
    ("message", .string f.message)]

end Failure

end ShorthandSchema
