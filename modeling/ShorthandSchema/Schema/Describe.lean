import ShorthandSchema.Schema.Basic
import ShorthandSchema.Schema.Fault
import ShorthandSchema.Vocabulary

/-! # Schemas: the descriptor of a form

Every form of a schema stands for a descriptor. Only the node itself is described; the schemas below
it stay as they are.

* `typeOf`: the kind of a type and whether its name marks the node as required.
* `describe`: the descriptor of a schema at a path. -/

namespace ShorthandSchema

/-- The end of a type name that marks a node as required. -/
def requiredMark : List Char := "-required".toList

/-- A type name without one mark at its end, and whether there was one. -/
def splitMark (name : String) : String × Bool :=
  let cs := name.toList
  if requiredMark.isSuffixOf cs then
    (String.ofList (cs.take (cs.length - requiredMark.length)), true)
  else (name, false)

/-- **The kind of a type**, and whether its name marks the node as required. -/
def Vocabulary.typeOf (v : Vocabulary) (path : String) : TypeRef → Except Fault (Kind × Bool)
  | .kind k => .ok (k, false)
  | .name name =>
    match v.lookup (splitMark name).1 with
    | some k => .ok (k, (splitMark name).2)
    | none => .error (.unsupportedType name path)

namespace Schema

/-- The fault of an object triple with a form of schema that is no map of fields. -/
def notAFieldMap (path : String) (sub : Schema) : Fault :=
  .invalidSubschema path ("object triple expects a field map, got " ++ sub.form)

/-- The descriptor of a triple whose type is known. What is below a scalar is dropped. -/
def describeTriple (path : String) (k : Kind) (required : Bool) (sub : Option Schema) :
    Except Fault (Descriptor Schema) :=
  match k, sub with
  | .object, some (.fields m) =>
    .ok { kind := k, path := path, required := required, fields := some m }
  | .object, some other => .error (notAFieldMap path other)
  | .array, some items =>
    .ok { kind := k, path := path, required := required, items := some items }
  | _, _ => .ok { kind := k, path := path, required := required }

/-- **The descriptor of a schema at a path.** A full descriptor keeps the path it has if the given
one is empty. -/
def describe (v : Vocabulary) (path : String) : Schema → Except Fault (Descriptor Schema)
  | .kind k => .ok { kind := k, path := path }
  | .named name => do
    let (k, marked) ← v.typeOf path (.name name)
    return { kind := k, path := path, required := marked }
  | .triple type required sub => do
    let (k, marked) ← v.typeOf path type
    describeTriple path k (required || marked) sub
  | .fields m => .ok { kind := .object, path := path, fields := some m }
  | .described d => .ok { d with path := if path = "" then d.path else path }

end Schema

end ShorthandSchema
