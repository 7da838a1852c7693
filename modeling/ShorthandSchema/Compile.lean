import ShorthandSchema.Schema.Outline
import ShorthandSchema.Traced
import ShorthandSchema.Validator.Basic

/-! # Compilation: the validator of a schema

The nodes of an outline are compiled in order, a node before those below it. The first fault ends
the compilation and is reported.

* `Outline.build`: the validator of an outline, with an event for each node.
* `Schema.compile`: the validator of a schema at a path.
* `Schema.compile_eq_of_outline_eq`: schemas with the same outline compile to the same. -/

namespace ShorthandSchema

namespace Node

/-- Where the complaints of a node come from. -/
def site (n : Node) : Site := ⟨n.path, n.message⟩

/-- The event that reports a node. -/
def event (n : Node) : Event := .compiling n.path n.kind n.required

/-- A validator that also rejects null if the node is required. -/
def guarded (n : Node) (inner : Validator) : Validator :=
  if n.required then .required n.site inner else inner

end Node

namespace Outline

mutual

/-- **The validator of an outline.** -/
def build : Outline → Traced Fault Validator
  | fault f => .fail f
  | scalar n => do
    Traced.emit n.event
    let rule ← Traced.of n.scalarRule?
    return n.guarded (.scalar n.site rule)
  | array n item => do
    Traced.emit n.event
    let inner ← buildItem item
    return n.guarded (.array n.site n.countRule inner)
  | object n fields => do
    Traced.emit n.event
    let inner ← buildFields fields
    return n.guarded (.object n.site inner)

/-- The validator of the items of an array; without an outline every item is accepted. -/
def buildItem : Option Outline → Traced Fault Validator
  | none => return .any
  | some o => build o

/-- The validators of the fields of an object. -/
def buildFields : List (String × Outline) → Traced Fault (List (String × Validator))
  | [] => return []
  | (name, o) :: rest => do
    let inner ← build o
    let others ← buildFields rest
    return (name, inner) :: others

end

end Outline

/-- **A compiled schema**: its validator and what its topmost node says about itself. -/
structure Compiled where
  name : String
  kind : Kind
  required : Bool
  validator : Validator

namespace Compiled

/-- Coerces and checks a value. -/
def validate (c : Compiled) (raw : Json) : Except Failure Json := c.validator.run raw

/-- A summary on one line. -/
def summary (c : Compiled) : String :=
  "CompiledValidator \x7b name: " ++ Text.quoted c.name ++ ", kind: " ++ c.kind.name.capitalize ++
    ", required: " ++ (if c.required then "true" else "false") ++ ", .. \x7d"

end Compiled

/-- **The validator of a schema at a path.** -/
def Schema.compile (v : Vocabulary) (path : String) (S : Schema) : Traced Fault Compiled :=
  Traced.reportingFault do
    let d ← Traced.of (S.describe v path)
    let validator ← (d.outline (outline v)).build
    return ⟨d.path, d.kind, d.required, validator⟩

/-! ### Schemas with the same outline -/

/-- The topmost node of an outline; a fault has none. -/
def Outline.node? : Outline → Option Node
  | fault _ => none
  | scalar n => some n
  | array n _ => some n
  | object n _ => some n

theorem Descriptor.node?_outline {σ : Type} (below : String → σ → Outline) (d : Descriptor σ) :
    (d.outline below).node? = some d.toNode := by
  unfold outline
  split <;> rfl

/-- **Schemas with the same outline compile to the same**, with the same events. -/
theorem Schema.compile_eq_of_outline_eq {v w : Vocabulary} {path place : String} {S T : Schema}
    (h : S.outline v path = T.outline w place) : S.compile v path = T.compile w place := by
  have hnode := congrArg Outline.node? h
  unfold compile
  cases hS : S.describe v path with
  | error f =>
    rw [outline_of_fault hS] at h hnode
    cases hT : T.describe w place with
    | error g =>
      rw [outline_of_fault hT] at h
      cases h
      rfl
    | ok e =>
      rw [outline_of_describe hT, Descriptor.node?_outline] at hnode
      cases hnode
  | ok d =>
    rw [outline_of_describe hS] at h hnode
    rw [Descriptor.node?_outline] at hnode
    cases hT : T.describe w place with
    | error g =>
      rw [outline_of_fault hT] at hnode
      cases hnode
    | ok e =>
      rw [outline_of_describe hT] at h hnode
      rw [Descriptor.node?_outline] at hnode
      have hnode : d.toNode = e.toNode := Option.some.inj hnode
      rw [Traced.of_ok_bind, Traced.of_ok_bind, h, hnode]

end ShorthandSchema
