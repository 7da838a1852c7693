import ShorthandSchema.Failure
import ShorthandSchema.Kind
import ShorthandSchema.Schema.Fault

/-! # Events: what is reported along the way

An event is reported with a level, a text, and its data by name. -/

namespace ShorthandSchema

/-- **A reported event.** -/
inductive Event where
  /-- A node is about to be compiled. -/
  | compiling (path : String) (kind : Kind) (required : Bool)
  /-- A schema was rejected. -/
  | rejected (fault : Fault)
  /-- A group of a candidate is about to be validated. -/
  | validatingGroup (name : String)
  /-- A group of a candidate was rejected. -/
  | groupFailed (failure : Failure)
deriving DecidableEq, Repr

/-- How much an event matters. -/
inductive Level where
  | warn
  | debug
  | trace
deriving DecidableEq, Repr

/-- The name of a level. -/
def Level.name : Level → String
  | warn => "WARN"
  | debug => "DEBUG"
  | trace => "TRACE"

namespace Event

/-- The level of an event: only a rejected schema is a warning. -/
def level : Event → Level
  | compiling _ _ _ => .debug
  | rejected _ => .warn
  | validatingGroup _ => .trace
  | groupFailed _ => .debug

/-- The text of an event. -/
def text : Event → String
  | compiling _ _ _ => "compiling field"
  | rejected _ => "schema rejected"
  | validatingGroup _ => "validating root group"
  | groupFailed _ => "validation failed"

/-- **The data of an event**, by name. -/
def data : Event → List (String × Json)
  | compiling path kind required =>
    [("field", .string path), ("kind", .string kind.name), ("required", .bool required)]
  | rejected fault => [("code", .string fault.key), ("error", .string fault.text)]
  | validatingGroup name => [("group", .string name)]
  | groupFailed failure =>
    [("code", .string failure.code.key), ("field", .string failure.path)]

end Event

end ShorthandSchema
