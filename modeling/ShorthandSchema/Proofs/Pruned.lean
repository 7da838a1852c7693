import ShorthandSchema.Compile
import ShorthandSchema.Proofs.Reached

/-! # Pruned schemas: without what is not reached

Pruning takes away what no compilation looks at, at every depth: what a triple gives to a scalar,
the fields of a descriptor that is no object, the items of one that is no array. What an object
triple has in the place of a map of fields stays, since it is at fault.

* `describe_pruned`: the descriptor of a pruned schema is the pruned descriptor.
* `compile_pruned`: a pruned schema compiles to the same, with the same events and faults. -/

namespace ShorthandSchema

namespace Schema

/-- The last part of a triple of a kind, given its items and fields without what is not reached. -/
def prunedSub (items : Option Schema) (fields : OrderedMap Schema) :
    Option Kind → Option Schema → Option Schema
  | some .object, some (.fields _) => some (.fields fields)
  | some .object, sub => sub
  | some .array, _ => items
  | _, _ => none

/-- A form with the given items and fields where its kind has some, and without any elsewhere. -/
def rebuilt (v : Vocabulary) (items : Option Schema) (fields : OrderedMap Schema) :
    Schema → Schema
  | kind k => kind k
  | named name => named name
  | triple type required sub => triple type required (prunedSub items fields (type.kind? v) sub)
  | .fields _ => .fields fields
  | described d =>
    described { d with
      fields := if d.kind = .object then d.fields.map fun _ => fields else none
      items := if d.kind = .array then items else none }

/-- **The schema without what is not reached.** -/
def pruned (v : Vocabulary) (S : Schema) : Schema :=
  S.rebuilt v (S.items?.attach.map fun s => pruned v s.1)
    ⟨S.declared.attach.map fun f => (f.1.1, pruned v f.1.2)⟩
termination_by sizeOf S
decreasing_by
  · exact sizeOf_lt_of_items? s.2
  · exact sizeOf_lt_of_declared f.2

/-- The entries of a map of fields, pruned. -/
def prunedEntries (v : Vocabulary) (entries : List (String × Schema)) : List (String × Schema) :=
  entries.map fun f => (f.1, f.2.pruned v)

theorem pruned_eq (v : Vocabulary) (S : Schema) :
    S.pruned v = S.rebuilt v (S.items?.map (pruned v)) ⟨prunedEntries v S.declared⟩ := by
  have hitems : S.items?.attach.map (fun s => pruned v s.1) = S.items?.map (pruned v) := by simp
  have hfields : S.declared.attach.map (fun f => (f.1.1, pruned v f.1.2)) =
      prunedEntries v S.declared :=
    List.attach_map_val (f := fun f : String × Schema => (f.1, f.2.pruned v))
  rw [pruned, hitems, hfields]

end Schema

/-- A descriptor without what is not reached. -/
def Descriptor.pruned (v : Vocabulary) (d : Descriptor Schema) : Descriptor Schema :=
  { d with
    fields := if d.kind = .object then d.fields.map fun m => ⟨Schema.prunedEntries v m.entries⟩
      else none
    items := if d.kind = .array then d.items.map (Schema.pruned v) else none }

namespace Schema

variable {v : Vocabulary}

theorem describeTriple_pruned (path : String) (type : TypeRef) (required marked : Bool) (k : Kind)
    (sub : Option Schema) :
    describeTriple path k marked (prunedSub (sub.map (pruned v))
        ⟨prunedEntries v (triple type required sub).declared⟩ (some k) sub) =
      (describeTriple path k marked sub).map (Descriptor.pruned v) := by
  cases k with
  | object =>
    cases sub with
    | none => rfl
    | some s => cases s <;> rfl
  | array => cases sub <;> rfl
  | boolean | integer | number | string | any => rfl

theorem describe_pruned_described (path : String) (d : Descriptor Schema) :
    ((described d).pruned v).describe v path =
      ((described d).describe v path).map (Descriptor.pruned v) := by
  have hfields : (d.fields.map fun _ => (⟨prunedEntries v d.fieldList⟩ : OrderedMap Schema)) =
      d.fields.map fun m => ⟨prunedEntries v m.entries⟩ := by
    rw [Descriptor.fieldList]
    cases d.fields <;> rfl
  have hdeclared : (described d).declared = d.fieldList := rfl
  rw [pruned_eq, rebuilt, hdeclared, hfields]
  rfl

theorem describe_pruned (path : String) (S : Schema) :
    (S.pruned v).describe v path = (S.describe v path).map (Descriptor.pruned v) := by
  cases S with
  | kind k =>
    rw [pruned_eq]
    cases k <;> rfl
  | named name =>
    rw [pruned_eq, rebuilt, describe]
    cases v.typeOf path (.name name) with
    | error f => rfl
    | ok r =>
      obtain ⟨k, marked⟩ := r
      cases k <;> rfl
  | triple type required sub =>
    rw [pruned_eq, rebuilt, describe, describe]
    cases hk : type.kind? v with
    | none =>
      obtain ⟨_, -, ht⟩ := typeOf_of_kind?_eq_none hk path
      rw [ht]
      rfl
    | some k =>
      obtain ⟨marked, ht⟩ := typeOf_of_kind? hk path
      rw [ht]
      exact describeTriple_pruned path type required (required || marked) k sub
  | fields m =>
    rw [pruned_eq]
    rfl
  | described d => exact describe_pruned_described path d

theorem fieldList_pruned {d : Descriptor Schema} (hk : d.kind = .object) :
    (d.pruned v).fieldList = prunedEntries v d.fieldList := by
  rw [Descriptor.pruned, Descriptor.fieldList, Descriptor.fieldList, if_pos hk]
  cases d.fields <;> rfl

theorem outline_pruned_descriptor {d : Descriptor Schema}
    (hitems : ∀ s ∈ d.items, ∀ p, (s.pruned v).outline v p = s.outline v p)
    (hfields : ∀ f ∈ d.fieldList, ∀ p, (f.2.pruned v).outline v p = f.2.outline v p) :
    (d.pruned v).outline (outline v) = d.outline (outline v) := by
  have hnode : (d.pruned v).toNode = d.toNode := rfl
  unfold Descriptor.outline
  rw [hnode]
  cases hk : d.kind with
  | array =>
    have hi : (d.pruned v).items = d.items.map (pruned v) := if_pos hk
    refine congrArg (Outline.array d.toNode) ?_
    rw [hi, Option.map_map]
    exact Option.map_congr fun s hs => hitems s hs _
  | object =>
    refine congrArg (Outline.object d.toNode) ?_
    rw [fieldList_pruned hk, prunedEntries, List.map_map]
    exact List.map_congr_left fun f hf => congrArg (Prod.mk f.1) (hfields f hf _)
  | boolean | integer | number | string | any => rfl

theorem outline_pruned (v : Vocabulary) (path : String) (S : Schema) :
    (S.pruned v).outline v path = S.outline v path := by
  induction path, S using Schema.induction v with
  | step path S ih =>
    rw [outline_eq, outline_eq, describe_pruned]
    cases hd : S.describe v path with
    | error f => rfl
    | ok d => exact outline_pruned_descriptor (ih d hd).1 (ih d hd).2

/-- **What is not reached has no part in a compilation.** -/
theorem compile_pruned (v : Vocabulary) (path : String) (S : Schema) :
    (S.pruned v).compile v path = S.compile v path :=
  compile_eq_of_outline_eq (outline_pruned v path S)

end Schema

end ShorthandSchema
