/-! # Faults: why a schema cannot be compiled -/

namespace ShorthandSchema

/-- **A fault of a schema**, at the path of the node that has it. -/
inductive Fault where
  /-- A type name that the vocabulary does not have. -/
  | unsupportedType (typeName : String) (path : String)
  /-- Something below a node that its kind cannot use. -/
  | invalidSubschema (path : String) (reason : String)
  /-- A constraint that the kind of a node cannot use. -/
  | invalidConstraint (path : String) (reason : String)
deriving DecidableEq, Repr

namespace Fault

/-- The key of a fault. -/
def key : Fault → String
  | unsupportedType _ _ => "unsupported_type"
  | invalidSubschema _ _ => "invalid_subschema"
  | invalidConstraint _ _ => "invalid_constraint"

/-- The path of the node that has the fault. -/
def path : Fault → String
  | unsupportedType _ path => path
  | invalidSubschema path _ => path
  | invalidConstraint path _ => path

/-- **The text of a fault.** -/
def text : Fault → String
  | unsupportedType typeName path =>
    "unsupported type \"" ++ typeName ++ "\"" ++
      if path = "" then "" else " for field \"" ++ path ++ "\""
  | invalidSubschema path reason =>
    "invalid subschema for field \"" ++ path ++ "\": " ++ reason
  | invalidConstraint path reason =>
    "invalid constraint for field \"" ++ path ++ "\": " ++ reason

end Fault

end ShorthandSchema
