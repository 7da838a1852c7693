import ShorthandSchema.Proofs.Reached
import ShorthandSchema.Proofs.WellFormed

/-! # Forms: their descriptors and their faults

A compilation knows a place by its form: the type has to denote a kind, the last part of an object
triple has to be a map of fields, and a boolean can only be asked to equal a boolean. A form that
has a descriptor can only be at fault for its constraint.

* `Schema.describe_cases`: the descriptor of a form and what it owes to it, or the fault. -/

namespace ShorthandSchema

/-! ### Well-formed places -/

namespace Place

/-- **A well-formed place.** -/
structure WellFormed (v : Vocabulary) (p : Place) : Prop where
  kind : ∃ k, p.schema.type.Denotes v k
  fields : p.schema.type.Denotes v .object → ∀ sub ∈ p.schema.sub?, ∃ m, sub = .fields m
  value : p.schema.type.Denotes v .boolean → ∀ e ∈ p.schema.value?, ∃ b, e = .bool b

/-- **An ill-formed place and its fault**, at the path of the node. -/
inductive IllFormed (v : Vocabulary) (p : Place) : Fault → Prop
  | unsupportedType {name : String} (htype : p.schema.type = .name name)
      (h : ∀ k, ¬ p.schema.type.Denotes v k) : IllFormed v p (.unsupportedType name p.path)
  | invalidSubschema {sub : Schema} (hkind : p.schema.type.Denotes v .object)
      (hsub : p.schema.sub? = some sub) (h : ∀ m, sub ≠ .fields m) :
      IllFormed v p
        (.invalidSubschema p.path ("object triple expects a field map, got " ++ sub.form))
  | invalidConstraint {e : Json} (hkind : p.schema.type.Denotes v .boolean)
      (hvalue : p.schema.value? = some e) (h : ∀ b, e ≠ .bool b) :
      IllFormed v p
        (.invalidConstraint p.path ("boolean value must be true or false, got " ++ e.text))

variable {v : Vocabulary} {p : Place} {f g : Fault}

theorem WellFormed.not_illFormed (h : p.WellFormed v) : ¬ p.IllFormed v f := by
  intro hi
  cases hi with
  | unsupportedType _ hk =>
    obtain ⟨k, hd⟩ := h.kind
    exact hk k hd
  | invalidSubschema hk hsub hm =>
    obtain ⟨m, rfl⟩ := h.fields hk _ hsub
    exact hm m rfl
  | invalidConstraint hk hvalue hb =>
    obtain ⟨b, rfl⟩ := h.value hk _ hvalue
    exact hb b rfl

theorem IllFormed.unique (hf : p.IllFormed v f) (hg : p.IllFormed v g) : f = g := by
  cases hf with
  | unsupportedType ht hk =>
    cases hg with
    | unsupportedType ht' =>
      cases ht.symm.trans ht'
      rfl
    | invalidSubschema hk' => exact absurd hk' (hk _)
    | invalidConstraint hk' => exact absurd hk' (hk _)
  | invalidSubschema hk hsub =>
    cases hg with
    | unsupportedType _ hk' => exact absurd hk (hk' _)
    | invalidSubschema _ hsub' =>
      cases hsub.symm.trans hsub'
      rfl
    | invalidConstraint hk' => cases hk.unique hk'
  | invalidConstraint hk hvalue =>
    cases hg with
    | unsupportedType _ hk' => exact absurd hk (hk' _)
    | invalidSubschema hk' => cases hk.unique hk'
    | invalidConstraint _ hvalue' =>
      cases hvalue.symm.trans hvalue'
      rfl

end Place

/-! ### Descriptors and faults of a form -/

namespace Schema

/-- **What a descriptor owes to the form that it describes.** -/
structure DescribedBy (v : Vocabulary) (path : String) (S : Schema) (d : Descriptor Schema) : Prop
    extends S.HasNode v path d.toNode where
  items : d.kind = .array → d.items = S.items?
  fields : d.kind = .object → d.fieldList = S.declared
  sub : d.kind = .object → S.sub? = none ∨ ∃ m, S.sub? = some (.fields m)

variable {v : Vocabulary} {path : String} {S : Schema}

theorem describeTriple_cases {type : TypeRef} {required flag : Bool} {k : Kind}
    {sub : Option Schema} (hk : type.Denotes v k)
    (hflag : flag = true ↔ required = true ∨ type.Marked) :
    (∃ d, describeTriple path k flag sub = .ok d ∧
        (triple type required sub).DescribedBy v path d) ∨
      ∃ s, k = .object ∧ sub = some s ∧ (∀ m, s ≠ .fields m) ∧
        describeTriple path k flag sub = .error (notAFieldMap path s) := by
  have hnode : (triple type required sub).HasNode v path
      { kind := k, path := path, required := flag } := hasNode_of_full?_eq_none rfl hk hflag
  unfold describeTriple
  split
  · rename_i m
    refine Or.inl ⟨_, rfl, ?_⟩
    exact {
      toHasNode := hnode
      items := fun h => by cases h
      fields := fun _ => rfl
      sub := fun _ => Or.inr ⟨m, rfl⟩ }
  · rename_i s hs
    exact Or.inr ⟨s, rfl, rfl, fun m hm => hs m (by rw [hm]), rfl⟩
  · refine Or.inl ⟨_, rfl, ?_⟩
    exact {
      toHasNode := hnode
      items := fun _ => rfl
      fields := fun h => by cases h
      sub := fun h => by cases h }
  · rename_i ho ha
    -- an object or an array gets here only without a last part
    have hnone : k = .object ∨ k = .array → sub = none := by
      intro h
      cases sub with
      | none => rfl
      | some s => exact absurd rfl (h.elim (fun h => ho s h) fun h => ha s h)
    refine Or.inl ⟨_, rfl, ?_⟩
    exact {
      toHasNode := hnode
      items := fun h => (hnone (Or.inr h)).symm
      fields := fun h => by rw [hnone (Or.inl h)]; rfl
      sub := fun h => Or.inl (hnone (Or.inl h)) }

/-- **The descriptor of a form**, or its fault. -/
theorem describe_cases (v : Vocabulary) (path : String) (S : Schema) :
    (∃ d, S.describe v path = .ok d ∧ S.DescribedBy v path d) ∨
      ∃ f, S.describe v path = .error f ∧ (S.place path).IllFormed v f ∧
        (S.place path).below v = [] := by
  have hunmarked : false = true ↔ False := iff_of_false Bool.false_ne_true id
  cases S with
  | kind k =>
    exact Or.inl ⟨_, rfl, hasNode_of_full?_eq_none rfl (.kind k) hunmarked, fun _ => rfl,
      fun _ => rfl, fun _ => Or.inl rfl⟩
  | named name =>
    cases hk : (TypeRef.name name).kind? v with
    | none =>
      obtain ⟨_, ⟨⟩, ht⟩ := typeOf_of_kind?_eq_none hk path
      refine Or.inr ⟨_, by rw [describe, ht]; rfl, ?_, Place.below_of_kind?_eq_none hk⟩
      exact .unsupportedType rfl (TypeRef.kind?_eq_none_iff.mp hk)
    | some k =>
      obtain ⟨marked, ht⟩ := typeOf_of_kind? hk path
      refine Or.inl ⟨_, by rw [describe, ht]; rfl, ?_, fun _ => rfl, fun _ => rfl,
        fun _ => Or.inl rfl⟩
      exact hasNode_of_full?_eq_none rfl (TypeRef.kind?_eq_some_iff.mp hk) (marked_of_typeOf ht)
  | triple type required sub =>
    cases hk : type.kind? v with
    | none =>
      obtain ⟨_, rfl, ht⟩ := typeOf_of_kind?_eq_none hk path
      refine Or.inr ⟨_, by rw [describe, ht]; rfl, ?_, Place.below_of_kind?_eq_none hk⟩
      exact .unsupportedType rfl (TypeRef.kind?_eq_none_iff.mp hk)
    | some k =>
      obtain ⟨marked, ht⟩ := typeOf_of_kind? hk path
      have hd : (triple type required sub).describe v path =
          describeTriple path k (required || marked) sub := by rw [describe, ht]; rfl
      have hflag : (required || marked) = true ↔ required = true ∨ type.Marked := by
        rw [Bool.or_eq_true, marked_of_typeOf ht]
      rw [hd]
      refine (describeTriple_cases (TypeRef.kind?_eq_some_iff.mp hk) hflag).imp_right ?_
      rintro ⟨s, rfl, rfl, hs, he⟩
      refine ⟨_, he, .invalidSubschema (TypeRef.kind?_eq_some_iff.mp hk) rfl hs, ?_⟩
      have hdeclared : (triple type required (some s)).declared = [] := by
        cases s with
        | fields m => exact absurd rfl (hs m)
        | kind | named | triple | described => rfl
      rw [Place.below_of_object hk]
      exact congrArg (List.map _) hdeclared
  | fields m =>
    exact Or.inl ⟨_, rfl, hasNode_of_full?_eq_none rfl (.kind .object) hunmarked,
      Kind.noConfusion, fun _ => rfl, fun _ => Or.inl rfl⟩
  | described e =>
    exact Or.inl ⟨_, rfl, hasNode_described v path e, fun _ => rfl, fun _ => rfl,
      fun _ => Or.inl rfl⟩

theorem describedBy_of_describe {d : Descriptor Schema} (h : S.describe v path = .ok d) :
    S.DescribedBy v path d := by
  rcases describe_cases v path S with ⟨e, he, hS⟩ | ⟨f, hf, -⟩
  · cases he.symm.trans h
    exact hS
  · cases hf.symm.trans h

namespace DescribedBy

variable {d : Descriptor Schema}

theorem kind? (h : S.DescribedBy v path d) : S.type.kind? v = some d.kind :=
  TypeRef.kind?_eq_some_iff.mpr h.kind

theorem place_path (h : S.DescribedBy v path d) : d.path = (S.place path).path := h.path

theorem kind_eq (h : S.DescribedBy v path d) {k : Kind} (hk : S.type.Denotes v k) : d.kind = k :=
  h.kind.unique hk

theorem wellFormed (h : S.DescribedBy v path d) (hfits : d.toNode.Fits) :
    (S.place path).WellFormed v where
  kind := ⟨d.kind, h.kind⟩
  fields hk s hs := by
    have hs : S.sub? = some s := hs
    rcases h.sub (h.kind_eq hk) with hn | ⟨m, hm⟩
    · cases hn.symm.trans hs
    · exact ⟨m, Option.some.inj (hs.symm.trans hm)⟩
  value hk e he := hfits (h.kind_eq hk) e (h.value.trans he)

theorem illFormed (h : S.DescribedBy v path d) {f : Fault}
    (hf : d.toNode.scalarRule? = .error f) : (S.place path).IllFormed v f := by
  unfold Node.scalarRule? at hf
  split at hf
  · rename_i hk
    unfold Node.booleanRule? at hf
    split at hf
    · cases hf
    · cases hf
    · rename_i e hb hv
      cases hf
      rw [Node.notABoolean, h.path]
      exact .invalidConstraint (hk ▸ h.kind) (h.value.symm.trans hv) hb
  all_goals cases hf

/-- A form with a descriptor is at fault for its constraint only. -/
theorem key_of_illFormed (h : S.DescribedBy v path d) {f : Fault}
    (hill : (S.place path).IllFormed v f) : f.key = "invalid_constraint" := by
  cases hill with
  | unsupportedType _ hk => exact absurd h.kind (hk _)
  | invalidSubschema hk hsub hm =>
    have hsub : S.sub? = some _ := hsub
    rcases h.sub (h.kind_eq hk) with hn | ⟨m, hs⟩
    · cases hn.symm.trans hsub
    · exact absurd (Option.some.inj (hsub.symm.trans hs)) (hm m)
  | invalidConstraint => rfl

end DescribedBy

theorem key_of_describe {f : Fault} (h : S.describe v path = .error f) :
    f.key ≠ "invalid_constraint" := by
  rcases describe_cases v path S with ⟨d, hd, -⟩ | ⟨g, hg, hill, -⟩
  · cases hd.symm.trans h
  · cases hg.symm.trans h
    cases hill with
    | unsupportedType | invalidSubschema => exact ne_of_beq_false rfl
    | invalidConstraint _ hvalue =>
      -- only a full descriptor gives a value, and it always has a descriptor
      cases S with
      | described e => cases h
      | kind | named | triple | fields => cases hvalue

end Schema

end ShorthandSchema
