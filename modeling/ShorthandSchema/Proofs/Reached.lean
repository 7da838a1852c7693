import ShorthandSchema.Proofs.Complaints

/-! # Reached places: the nodes that a compilation has to know

A schema stands at a path. Once the vocabulary has given its type a kind, an array leads on to its
items and an object to its fields; nothing else below a schema is reached. A form of schema declares
items and fields whatever its kind is, so what is declared and what is reached are different.

* `kind?_eq_some_iff`: the kind that a type denotes, with at most one mark taken off its name.
* `Schema.HasNode`: what the written form of a schema says about its node.
* `mem_reached_iff`: the list of places in pre-order has exactly the places that are reached. -/

namespace ShorthandSchema

/-! ### Type names -/

theorem splitMark_append (stem : String) : splitMark (stem ++ "-required") = (stem, true) := by
  have hl : (stem ++ "-required").toList = stem.toList ++ requiredMark := String.toList_append
  unfold splitMark
  rw [hl, if_pos (List.isSuffixOf_iff_suffix.mpr (List.suffix_append _ _)), List.length_append,
    Nat.add_sub_cancel, List.take_left', String.ofList_toList]
  rfl

theorem splitMark_of_unmarked {name : String} (h : ∀ stem, name ≠ stem ++ "-required") :
    splitMark name = (name, false) := by
  unfold splitMark
  refine if_neg fun hs => ?_
  obtain ⟨stem, hstem⟩ := List.isSuffixOf_iff_suffix.mp hs
  refine h (String.ofList stem) (String.toList_inj.mp ?_)
  rw [String.toList_append, String.toList_ofList, ← hstem]
  rfl

namespace TypeRef

/-- **A type denotes a kind**: it is the kind, or a name of it. One mark at the end of a name does
not belong to it. -/
inductive Denotes (v : Vocabulary) : TypeRef → Kind → Prop
  | kind (k : Kind) : Denotes v (.kind k) k
  | marked {stem : String} {k : Kind} (h : v.lookup stem = some k) :
      Denotes v (.name (stem ++ "-required")) k
  | unmarked {name : String} {k : Kind} (hmark : ∀ stem, name ≠ stem ++ "-required")
      (h : v.lookup name = some k) : Denotes v (.name name) k

/-- The kind that a type denotes, if there is one. -/
def kind? (v : Vocabulary) : TypeRef → Option Kind
  | .kind k => some k
  | .name s => v.lookup (splitMark s).1

theorem kind?_eq_some_iff {v : Vocabulary} {type : TypeRef} {k : Kind} :
    type.kind? v = some k ↔ type.Denotes v k := by
  constructor
  · intro h
    cases type with
    | kind k' =>
      cases h
      exact .kind k
    | name name =>
      by_cases hm : ∃ stem, name = stem ++ "-required"
      · obtain ⟨stem, rfl⟩ := hm
        rw [kind?, splitMark_append] at h
        exact .marked h
      · have hu : ∀ stem, name ≠ stem ++ "-required" := fun stem he => hm ⟨stem, he⟩
        rw [kind?, splitMark_of_unmarked hu] at h
        exact .unmarked hu h
  · intro h
    cases h with
    | kind => rfl
    | marked h => rw [kind?, splitMark_append, h]
    | unmarked hu h => rw [kind?, splitMark_of_unmarked hu, h]

theorem Denotes.unique {v : Vocabulary} {type : TypeRef} {k k' : Kind} (h : type.Denotes v k)
    (h' : type.Denotes v k') : k = k' :=
  Option.some.inj ((kind?_eq_some_iff.mpr h).symm.trans (kind?_eq_some_iff.mpr h'))

theorem kind?_eq_none_iff {v : Vocabulary} {type : TypeRef} :
    type.kind? v = none ↔ ∀ k, ¬ type.Denotes v k := by
  rw [Option.eq_none_iff_forall_ne_some]
  exact forall_congr' fun k => not_congr kind?_eq_some_iff

end TypeRef

theorem typeOf_of_kind? {v : Vocabulary} {type : TypeRef} {k : Kind} (h : type.kind? v = some k)
    (path : String) : ∃ marked, v.typeOf path type = .ok (k, marked) := by
  cases type with
  | kind k' =>
    cases h
    exact ⟨false, rfl⟩
  | name name =>
    rw [TypeRef.kind?] at h
    exact ⟨(splitMark name).2, by rw [Vocabulary.typeOf, h]⟩

theorem typeOf_of_kind?_eq_none {v : Vocabulary} {type : TypeRef} (h : type.kind? v = none)
    (path : String) :
    ∃ name, type = .name name ∧ v.typeOf path type = .error (.unsupportedType name path) := by
  cases type with
  | kind k => cases h
  | name name =>
    rw [TypeRef.kind?] at h
    exact ⟨name, rfl, by rw [Vocabulary.typeOf, h]⟩

/-- A type name with the mark of a required node. -/
def TypeRef.Marked (type : TypeRef) : Prop := ∃ stem, type = .name (stem ++ "-required")

theorem splitMark_snd_iff {name : String} :
    (splitMark name).2 = true ↔ (TypeRef.name name).Marked := by
  by_cases hm : ∃ stem, name = stem ++ "-required"
  · obtain ⟨stem, rfl⟩ := hm
    rw [splitMark_append]
    exact iff_of_true rfl ⟨stem, rfl⟩
  · have hu : ∀ stem, name ≠ stem ++ "-required" := fun stem he => hm ⟨stem, he⟩
    rw [splitMark_of_unmarked hu]
    exact iff_of_false Bool.false_ne_true fun ⟨stem, he⟩ => hu stem (TypeRef.name.inj he)

theorem marked_of_typeOf {v : Vocabulary} {path : String} {type : TypeRef} {k : Kind}
    {marked : Bool} (h : v.typeOf path type = .ok (k, marked)) : marked = true ↔ type.Marked := by
  cases type with
  | kind k' =>
    cases h
    exact iff_of_false Bool.false_ne_true fun ⟨_, he⟩ => by cases he
  | name name =>
    rw [Vocabulary.typeOf] at h
    split at h
    · cases h
      exact splitMark_snd_iff
    · cases h

/-! ### What a form declares -/

namespace Schema

/-- The type of a form; a map of fields has that of objects. -/
def type : Schema → TypeRef
  | kind k => .kind k
  | named name => .name name
  | triple type _ _ => type
  | fields _ => .kind .object
  | described d => .kind d.kind

/-- The last part of a triple. -/
def sub? : Schema → Option Schema
  | triple _ _ sub => sub
  | _ => none

/-- The schema that a form gives for items, whether it is an array or not. -/
def items? : Schema → Option Schema
  | triple _ _ sub => sub
  | described d => d.items
  | _ => none

/-- The schemas that a form gives for fields, whether it is an object or not. -/
def declared : Schema → List (String × Schema)
  | triple _ _ (some (fields m)) => m.entries
  | fields m => m.entries
  | described d => d.fieldList
  | _ => []

/-- The value that a form wants values to equal. -/
def value? : Schema → Option Json
  | described d => d.value
  | _ => none

/-- The full descriptor, if the form is one. -/
def full? : Schema → Option (Descriptor Schema)
  | described d => some d
  | _ => none

/-- **A form asks for a value**: by the mark of a type name, or by the flag of a triple or of a full
descriptor. -/
def Required : Schema → Prop
  | kind _ => False
  | named name => (TypeRef.name name).Marked
  | triple type required _ => required = true ∨ type.Marked
  | fields _ => False
  | described d => d.required = true

/-- The path of the node of a schema that is put at a path. -/
def pathAt (path : String) : Schema → String
  | described d => if path = "" then d.path else path
  | _ => path

theorem pathAt_of_ne {path : String} (h : path ≠ "") (S : Schema) : S.pathAt path = path := by
  cases S with
  | described d => exact if_neg h
  | kind | named | triple | fields => rfl

/-- **The node of a form at a path.** Its kind is the one that the type denotes, and it is required
if the form asks for a value. It has the constraints and the message of a full descriptor; no other
form gives any, and there only integers lose their fraction. -/
structure HasNode (v : Vocabulary) (path : String) (S : Schema) (n : Node) : Prop where
  kind : S.type.Denotes v n.kind
  path : n.path = S.pathAt path
  required : n.required = true ↔ S.Required
  whole : n.whole = S.full?.elim (decide (n.kind = .integer)) (·.whole)
  minLength : n.minLength = S.full?.bind (·.minLength)
  maxLength : n.maxLength = S.full?.bind (·.maxLength)
  minValue : n.minValue = S.full?.bind (·.minValue)
  maxValue : n.maxValue = S.full?.bind (·.maxValue)
  minItems : n.minItems = S.full?.bind (·.minItems)
  maxItems : n.maxItems = S.full?.bind (·.maxItems)
  value : n.value = S.value?
  pattern : n.pattern = S.full?.bind (·.pattern)
  message : n.message = S.full?.bind (·.message)

theorem HasNode.unique {v : Vocabulary} {path : String} {S : Schema} {n n' : Node}
    (h : S.HasNode v path n) (h' : S.HasNode v path n') : n = n' := by
  have hkind : n.kind = n'.kind := h.kind.unique h'.kind
  have hrequired : n.required = n'.required :=
    Bool.eq_iff_iff.mpr (h.required.trans h'.required.symm)
  have hwhole : n.whole = n'.whole := by rw [h.whole, h'.whole, hkind]
  exact Node.ext hkind (h.path.trans h'.path.symm) hrequired hwhole
    (h.minLength.trans h'.minLength.symm) (h.maxLength.trans h'.maxLength.symm)
    (h.minValue.trans h'.minValue.symm) (h.maxValue.trans h'.maxValue.symm)
    (h.minItems.trans h'.minItems.symm) (h.maxItems.trans h'.maxItems.symm)
    (h.value.trans h'.value.symm) (h.pattern.trans h'.pattern.symm)
    (h.message.trans h'.message.symm)

theorem hasNode_of_full?_eq_none {v : Vocabulary} {path : String} {S : Schema} {k : Kind}
    {required : Bool} (hS : S.full? = none) (hkind : S.type.Denotes v k)
    (hrequired : required = true ↔ S.Required) :
    S.HasNode v path { kind := k, path := path, required := required } := by
  cases S with
  | described d => cases hS
  | kind | named | triple | fields =>
    exact ⟨hkind, rfl, hrequired, rfl, rfl, rfl, rfl, rfl, rfl, rfl, rfl, rfl, rfl⟩

theorem hasNode_described (v : Vocabulary) (path : String) (d : Descriptor Schema) :
    (described d).HasNode v path { d.toNode with path := (described d).pathAt path } :=
  ⟨.kind d.kind, rfl, Iff.rfl, rfl, rfl, rfl, rfl, rfl, rfl, rfl, rfl, rfl, rfl⟩

theorem sizeOf_lt_of_items? {S s : Schema} (h : S.items? = some s) : sizeOf s < sizeOf S := by
  cases S with
  | triple type required sub =>
    obtain rfl : sub = some s := h
    have h1 := triple.sizeOf_spec type required (some s)
    have h2 : sizeOf (some s) = 1 + sizeOf s := rfl
    omega
  | described d =>
    have hi : d.items = some s := h
    have h1 := described.sizeOf_spec d
    have h2 : sizeOf d = 1 + sizeOf d.toNode + sizeOf d.fields + sizeOf d.items := rfl
    have h3 : sizeOf d.items = 1 + sizeOf s := by rw [hi]; rfl
    omega
  | kind | named | fields => cases h

theorem sizeOf_lt_of_declared {S : Schema} {f : String × Schema} (h : f ∈ S.declared) :
    sizeOf f.2 < sizeOf S := by
  cases S with
  | triple type required sub =>
    cases sub with
    | none => cases h
    | some s =>
      cases s with
      | fields m =>
        have h1 := sizeOf_lt_of_mem_entries (m := m) h
        have h2 := triple.sizeOf_spec type required (some (fields m))
        have h3 : sizeOf (some (fields m)) = 1 + (1 + sizeOf m) := by simp
        omega
      | kind | named | triple | described => cases h
  | fields m =>
    have h1 := sizeOf_lt_of_mem_entries (m := m) h
    have h2 := fields.sizeOf_spec m
    omega
  | described d =>
    have hf : f ∈ d.fields.elim [] (·.entries) := h
    cases hm : d.fields with
    | none => rw [hm] at hf; cases hf
    | some m =>
      rw [hm] at hf
      have h1 := sizeOf_lt_of_mem_entries (m := m) hf
      have h2 := described.sizeOf_spec d
      have h3 : sizeOf d = 1 + sizeOf d.toNode + sizeOf d.fields + sizeOf d.items := rfl
      have h4 : sizeOf d.fields = 1 + sizeOf m := by rw [hm]; rfl
      omega
  | kind | named => cases h

end Schema

/-! ### Places -/

/-- **A schema with the path of its node.** -/
structure Place where
  path : String
  schema : Schema

/-- The place of a schema that is put at a path. -/
def Schema.place (path : String) (S : Schema) : Place := ⟨S.pathAt path, S⟩

/-- **The places that are reached from a root**: the root, the items of a reached array, the fields
of a reached object. -/
inductive Reaches (v : Vocabulary) (root : Place) : Place → Prop
  | root : Reaches v root root
  | item {p : Place} {s : Schema} (hp : Reaches v root p)
      (hkind : p.schema.type.Denotes v .array) (hs : p.schema.items? = some s) :
      Reaches v root (s.place (Path.child p.path Path.item))
  | field {p : Place} {f : String × Schema} (hp : Reaches v root p)
      (hkind : p.schema.type.Denotes v .object) (hf : f ∈ p.schema.declared) :
      Reaches v root (f.2.place (Path.child p.path f.1))

theorem Reaches.trans {v : Vocabulary} {p q r : Place} (hpq : Reaches v p q)
    (hqr : Reaches v q r) : Reaches v p r := by
  induction hqr with
  | root => exact hpq
  | item _ hk hs ih => exact .item ih hk hs
  | field _ hk hf ih => exact .field ih hk hf

namespace Place

/-- The places that a place leads on to, in the order of declaration. -/
def below (v : Vocabulary) (p : Place) : List Place :=
  match p.schema.type.kind? v with
  | some .array => p.schema.items?.toList.map fun s => s.place (Path.child p.path Path.item)
  | some .object => p.schema.declared.map fun f => f.2.place (Path.child p.path f.1)
  | _ => []

theorem below_of_kind?_eq_none {v : Vocabulary} {p : Place}
    (h : p.schema.type.kind? v = none) : p.below v = [] := by
  rw [below, h]

theorem below_of_array {v : Vocabulary} {p : Place}
    (h : p.schema.type.kind? v = some .array) :
    p.below v = p.schema.items?.toList.map fun s => s.place (Path.child p.path Path.item) := by
  rw [below, h]

theorem below_of_object {v : Vocabulary} {p : Place}
    (h : p.schema.type.kind? v = some .object) :
    p.below v = p.schema.declared.map fun f => f.2.place (Path.child p.path f.1) := by
  rw [below, h]

theorem below_of_scalar {v : Vocabulary} {p : Place} {k : Kind}
    (h : p.schema.type.kind? v = some k) (ha : k ≠ .array) (ho : k ≠ .object) : p.below v = [] := by
  rw [below, h]
  cases k with
  | array => exact absurd rfl ha
  | object => exact absurd rfl ho
  | boolean | integer | number | string | any => rfl

theorem mem_below_iff {v : Vocabulary} {p q : Place} :
    q ∈ p.below v ↔
      (p.schema.type.Denotes v .array ∧
        ∃ s, p.schema.items? = some s ∧ s.place (Path.child p.path Path.item) = q) ∨
      (p.schema.type.Denotes v .object ∧
        ∃ f ∈ p.schema.declared, f.2.place (Path.child p.path f.1) = q) := by
  rw [← TypeRef.kind?_eq_some_iff, ← TypeRef.kind?_eq_some_iff]
  unfold below
  split
  · rename_i hk
    simp [hk, Option.mem_toList]
  · rename_i hk
    simp [hk]
  · rename_i ha ho
    exact iff_of_false List.not_mem_nil fun h => h.elim (fun h => ha h.1) fun h => ho h.1

theorem sizeOf_lt_of_mem_below {v : Vocabulary} {p q : Place} (h : q ∈ p.below v) :
    sizeOf q.schema < sizeOf p.schema := by
  rcases mem_below_iff.mp h with ⟨-, s, hs, rfl⟩ | ⟨-, f, hf, rfl⟩
  · exact Schema.sizeOf_lt_of_items? hs
  · exact Schema.sizeOf_lt_of_declared hf

/-- **All places that are reached from a place**, in pre-order. -/
def reached (v : Vocabulary) (p : Place) : List Place :=
  p :: (p.below v).attach.flatMap fun q => reached v q.1
termination_by sizeOf p.schema
decreasing_by exact sizeOf_lt_of_mem_below q.2

theorem reached_eq (v : Vocabulary) (p : Place) :
    p.reached v = p :: (p.below v).flatMap (reached v) := by
  rw [reached]
  rw [List.flatMap_subtype (g := reached v) fun q _ => rfl, List.unattach_attach]

theorem reaches_of_mem_below {v : Vocabulary} {p q : Place} (h : q ∈ p.below v) :
    Reaches v p q := by
  rcases mem_below_iff.mp h with ⟨hk, s, hs, rfl⟩ | ⟨hk, f, hf, rfl⟩
  · exact .item .root hk hs
  · exact .field .root hk hf

theorem mem_reached_of_mem_below {v : Vocabulary} {p q r : Place} (hq : q ∈ p.reached v)
    (hr : r ∈ q.below v) : r ∈ p.reached v := by
  induction p using reached.induct v with
  | case1 p ih =>
    rw [reached_eq, List.mem_cons, List.mem_flatMap] at hq ⊢
    rcases hq with rfl | ⟨s, hs, hq⟩
    · exact Or.inr ⟨r, hr, by rw [reached_eq]; exact List.mem_cons_self⟩
    · exact Or.inr ⟨s, hs, ih ⟨s, hs⟩ hq⟩

/-- **The list of places has exactly the places that are reached.** -/
theorem mem_reached_iff {v : Vocabulary} {p q : Place} : q ∈ p.reached v ↔ Reaches v p q := by
  constructor
  · intro hq
    induction p using reached.induct v with
    | case1 p ih =>
      rw [reached_eq, List.mem_cons, List.mem_flatMap] at hq
      rcases hq with rfl | ⟨r, hr, hq⟩
      · exact .root
      · exact (reaches_of_mem_below hr).trans (ih ⟨r, hr⟩ hq)
  · intro h
    induction h with
    | root =>
      rw [reached_eq]
      exact List.mem_cons_self
    | item _ hk hs ih =>
      exact mem_reached_of_mem_below ih (mem_below_iff.mpr (Or.inl ⟨hk, _, hs, rfl⟩))
    | field _ hk hf ih =>
      exact mem_reached_of_mem_below ih (mem_below_iff.mpr (Or.inr ⟨hk, _, hf, rfl⟩))

end Place

end ShorthandSchema
