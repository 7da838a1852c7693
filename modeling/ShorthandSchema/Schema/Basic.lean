import ShorthandSchema.Kind
import ShorthandSchema.Message
import ShorthandSchema.OrderedMap

/-! # Schemas: the forms they are written in

A schema is a kind, a type name, a triple, a map of fields, or a full descriptor. All forms describe
nodes; only a descriptor can give constraints. -/

namespace ShorthandSchema

/-- **A pattern for texts**: what it is written as, and the texts that it occurs in. How patterns
are read and searched for is up to whoever gives them. -/
structure Pattern where
  source : String
  occursIn : String → Bool

/-- What a schema says about one node by itself: its kind, its place, and the constraints on the
values it accepts. -/
@[ext]
structure Node where
  kind : Kind
  path : String := ""
  required : Bool := false
  /-- Whether numbers lose their fraction. -/
  whole : Bool := kind = .integer
  minLength : Option Nat := none
  maxLength : Option Nat := none
  minValue : Option Binary64 := none
  maxValue : Option Binary64 := none
  minItems : Option Nat := none
  maxItems : Option Nat := none
  /-- The value that an accepted value has to equal once both are coerced. -/
  value : Option Json := none
  pattern : Option Pattern := none
  message : Option Message := none

/-- **A full description of a node**; the nodes below it are described by `σ`. -/
structure Descriptor (σ : Type) extends Node where
  fields : Option (OrderedMap σ) := none
  items : Option σ := none

namespace Descriptor

/-- The fields in order; without a map there are none. -/
def fieldList {σ : Type} (d : Descriptor σ) : List (String × σ) := d.fields.elim [] (·.entries)

end Descriptor

/-- The type of a triple: a kind, or a name for one. -/
inductive TypeRef where
  | kind (k : Kind)
  | name (s : String)
deriving DecidableEq, Repr

/-- **A schema**, in any of its forms. -/
inductive Schema where
  | kind (k : Kind)
  /-- A type name, perhaps with the mark of a required node. -/
  | named (name : String)
  /-- A type, whether the node is required, and the fields of an object or the items of an
  array. -/
  | triple (type : TypeRef) (required : Bool) (sub : Option Schema)
  /-- The fields of an optional object. -/
  | fields (m : OrderedMap Schema)
  | described (d : Descriptor Schema)

namespace Schema

/-- What a form is called. -/
def form : Schema → String
  | kind _ => "a type tag"
  | named _ => "a type name"
  | triple _ _ _ => "a triple"
  | fields _ => "a field map"
  | described _ => "a descriptor"

end Schema

end ShorthandSchema
