import ShorthandSchema.Path
import ShorthandSchema.Schema.Describe

/-! # Outlines: the nodes that a schema reaches

The outline of a schema is the tree of the nodes that it reaches: the node of the schema, the items
of an array, the fields of an object. A form without a descriptor is a fault in the tree.

* `Schema.outline_eq`: the outline of a schema is that of its descriptor.
* `Outline.induction`: induction on outlines; `Schema.induction`: induction on schemas, with a
  hypothesis for every schema that the descriptor refers to. -/

namespace ShorthandSchema

/-- **The tree of the nodes that a schema reaches.** -/
inductive Outline where
  | fault (f : Fault)
  | scalar (node : Node)
  | array (node : Node) (item : Option Outline)
  | object (node : Node) (fields : List (String × Outline))

/-- **Induction on outlines.** -/
@[elab_as_elim]
theorem Outline.induction {P : Outline → Prop}
    (fault : ∀ f, P (.fault f))
    (scalar : ∀ node, P (.scalar node))
    (array : ∀ node item, (∀ o ∈ item, P o) → P (.array node item))
    (object : ∀ node fields, (∀ f ∈ fields, P f.2) → P (.object node fields)) (o : Outline) : P o :=
  match o with
  | .fault f => fault f
  | .scalar node => scalar node
  | .array node none => array node none fun _ h => nomatch h
  | .array node (some item) => array node (some item) fun
      | _, rfl => Outline.induction fault scalar array object item
  | .object node fields =>
    object node fields fun f _ => Outline.induction fault scalar array object f.2
termination_by o
decreasing_by
  · simp only [Outline.array.sizeOf_spec, Option.some.sizeOf_spec]
    omega
  · have h := List.sizeOf_lt_of_mem ‹f ∈ fields›
    have hf : sizeOf f = 1 + sizeOf f.1 + sizeOf f.2 := rfl
    simp only [Outline.object.sizeOf_spec]
    omega

/-- The outline of a descriptor, given the outlines of the schemas below it at their paths. -/
def Descriptor.outline {σ : Type} (below : String → σ → Outline) (d : Descriptor σ) : Outline :=
  match d.kind with
  | .array => .array d.toNode (d.items.map (below (Path.child d.path Path.item)))
  | .object => .object d.toNode (d.fieldList.map fun f => (f.1, below (Path.child d.path f.1) f.2))
  | _ => .scalar d.toNode

namespace Descriptor

variable {σ : Type} {d : Descriptor σ}

theorem outline_of_array (h : d.kind = .array) (below : String → σ → Outline) :
    d.outline below = .array d.toNode (d.items.map (below (Path.child d.path Path.item))) := by
  rw [outline, h]

theorem outline_of_object (h : d.kind = .object) (below : String → σ → Outline) :
    d.outline below =
      .object d.toNode (d.fieldList.map fun f => (f.1, below (Path.child d.path f.1) f.2)) := by
  rw [outline, h]

theorem outline_of_scalar (ha : d.kind ≠ .array) (ho : d.kind ≠ .object)
    (below : String → σ → Outline) : d.outline below = .scalar d.toNode := by
  unfold outline
  split
  · exact absurd ‹_› ha
  · exact absurd ‹_› ho
  · rfl

end Descriptor

namespace Schema

theorem sizeOf_lt_of_mem_entries {m : OrderedMap Schema} {f : String × Schema}
    (h : f ∈ m.entries) : sizeOf f.2 < sizeOf m := by
  have h1 := List.sizeOf_lt_of_mem h
  have h2 : sizeOf m = 1 + sizeOf m.entries := rfl
  have h3 : sizeOf f = 1 + sizeOf f.1 + sizeOf f.2 := rfl
  omega

/-- The schemas right below a descriptor are smaller than `n`. -/
def BelowSmaller (n : Nat) (d : Descriptor Schema) : Prop :=
  (∀ s ∈ d.items, sizeOf s < n) ∧ ∀ f ∈ d.fieldList, sizeOf f.2 < n

theorem belowSmaller_describeTriple {path : String} {k : Kind} {required : Bool}
    {sub : Option Schema} {d : Descriptor Schema}
    (h : describeTriple path k required sub = .ok d) : BelowSmaller (sizeOf sub) d := by
  unfold describeTriple at h
  split at h
  · rename_i m
    cases h
    refine ⟨fun s hs => by simp at hs, fun f hf => ?_⟩
    have h1 := sizeOf_lt_of_mem_entries (m := m) hf
    have h2 : sizeOf (some (fields m)) = 1 + (1 + sizeOf m) := by simp
    omega
  · cases h
  · rename_i items
    cases h
    refine ⟨fun s hs => ?_, fun f hf => by simp [Descriptor.fieldList] at hf⟩
    cases hs
    have h2 : sizeOf (some items) = 1 + sizeOf items := rfl
    omega
  · cases h
    exact ⟨fun s hs => by simp at hs, fun f hf => by simp [Descriptor.fieldList] at hf⟩

theorem belowSmaller_describe {v : Vocabulary} {path : String} {S : Schema}
    {d : Descriptor Schema} (h : S.describe v path = .ok d) : BelowSmaller (sizeOf S) d := by
  cases S with
  | kind k =>
    cases h
    exact ⟨fun s hs => by simp at hs, fun f hf => by simp [Descriptor.fieldList] at hf⟩
  | named name =>
    simp only [describe] at h
    cases ht : v.typeOf path (.name name) with
    | error e => rw [ht] at h; cases h
    | ok r =>
      rw [ht] at h
      cases h
      exact ⟨fun s hs => by simp at hs, fun f hf => by simp [Descriptor.fieldList] at hf⟩
  | triple type required sub =>
    simp only [describe] at h
    cases ht : v.typeOf path type with
    | error e => rw [ht] at h; cases h
    | ok r =>
      rw [ht] at h
      have hb := belowSmaller_describeTriple
        (h : describeTriple path r.1 (required || r.2) sub = .ok d)
      have hs := triple.sizeOf_spec type required sub
      exact ⟨fun s h => by have := hb.1 s h; omega, fun f h => by have := hb.2 f h; omega⟩
  | fields m =>
    cases h
    refine ⟨fun s hs => by simp at hs, fun f hf => ?_⟩
    have h1 := sizeOf_lt_of_mem_entries (m := m) hf
    have h2 := fields.sizeOf_spec m
    omega
  | described e =>
    cases h
    have h1 := described.sizeOf_spec e
    have h2 : sizeOf e = 1 + sizeOf e.toNode + sizeOf e.fields + sizeOf e.items := rfl
    refine ⟨fun s hs => ?_, fun f hf => ?_⟩
    · have hs' : e.items = some s := hs
      have h3 : sizeOf e.items = 1 + sizeOf s := by rw [hs']; rfl
      omega
    · have hf' : f ∈ e.fields.elim [] (·.entries) := hf
      cases he : e.fields with
      | none => rw [he] at hf'; simp at hf'
      | some m =>
        rw [he] at hf'
        have h3 := sizeOf_lt_of_mem_entries (m := m) hf'
        have h4 : sizeOf e.fields = 1 + sizeOf m := by rw [he]; rfl
        omega

/-- **Induction on schemas.** -/
@[elab_as_elim]
theorem induction (v : Vocabulary) {P : String → Schema → Prop}
    (step : ∀ path S,
      (∀ d, S.describe v path = .ok d →
        (∀ s ∈ d.items, ∀ p, P p s) ∧ ∀ f ∈ d.fieldList, ∀ p, P p f.2) → P path S)
    (path : String) (S : Schema) : P path S :=
  step path S fun _ h =>
    ⟨fun s hs p =>
        have := (belowSmaller_describe h).1 s hs
        induction v step p s,
      fun f hf p =>
        have := (belowSmaller_describe h).2 f hf
        induction v step p f.2⟩
termination_by sizeOf S

/-- **The outline of a schema at a path.** -/
def outline (v : Vocabulary) (path : String) (S : Schema) : Outline :=
  match _h : S.describe v path with
  | .error f => .fault f
  | .ok d =>
    match d.kind with
    | .array =>
      .array d.toNode (d.items.attach.map fun s => outline v (Path.child d.path Path.item) s.1)
    | .object =>
      .object d.toNode
        (d.fieldList.attach.map fun f => (f.1.1, outline v (Path.child d.path f.1.1) f.1.2))
    | _ => .scalar d.toNode
termination_by sizeOf S
decreasing_by
  · exact (belowSmaller_describe _h).1 s.1 s.2
  · exact (belowSmaller_describe _h).2 f.1 f.2

theorem outline_eq (v : Vocabulary) (path : String) (S : Schema) :
    S.outline v path = match S.describe v path with
      | .error f => .fault f
      | .ok d => d.outline (outline v) := by
  rw [outline]
  split
  · rename_i h; rw [h]
  · rename_i d h
    rw [h]
    dsimp only [Descriptor.outline]
    split
    · simp
    · exact congrArg _ (List.attach_map_val
        (f := fun f : String × Schema => (f.1, outline v (Path.child d.path f.1) f.2)))
    · rfl

theorem outline_of_describe {v : Vocabulary} {path : String} {S : Schema}
    {d : Descriptor Schema} (h : S.describe v path = .ok d) :
    S.outline v path = d.outline (outline v) := by rw [outline_eq, h]

theorem outline_of_fault {v : Vocabulary} {path : String} {S : Schema} {f : Fault}
    (h : S.describe v path = .error f) : S.outline v path = .fault f := by rw [outline_eq, h]

end Schema

end ShorthandSchema
