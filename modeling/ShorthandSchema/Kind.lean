/-! # Kinds: what a schema node accepts -/

namespace ShorthandSchema

/-- **The kind of a schema node.** -/
inductive Kind where
  | boolean
  | integer
  | number
  | string
  | array
  | object
  | any
deriving DecidableEq, Repr, Inhabited

namespace Kind

/-- The name of a kind. -/
def name : Kind → String
  | boolean => "boolean"
  | integer => "integer"
  | number => "number"
  | string => "string"
  | array => "array"
  | object => "object"
  | any => "any"

/-- All kinds. -/
def all : List Kind := [boolean, integer, number, string, array, object, any]

/-- The kind of a name. -/
def ofName? (s : String) : Option Kind := all.find? (·.name == s)

end Kind

end ShorthandSchema
