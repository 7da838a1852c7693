import ShorthandSchema.Proofs.Reached

/-! # Type names: known to a vocabulary, written in a schema

A schema takes one mark off the end of a type name and asks the vocabulary for the rest. So a name
that the vocabulary knows is a type of its kind, unless it ends in the mark. A name that does means
what its stem means, whatever the vocabulary has for the name as a whole.

* `Schema.describe_known_name`: the descriptors of names with and without the mark.
* `Schema.describe_registered_mark`: a name that ends in the mark can be registered, not used. -/

namespace ShorthandSchema

theorem unmarked_of_splitMark {name : String} (h : (splitMark name).2 = false) (stem : String) :
    name ≠ stem ++ "-required" := by
  rintro rfl
  rw [splitMark_append] at h
  cases h

namespace Vocabulary

variable {v : Vocabulary} {name stem : String} {k : Kind}

theorem lookup_register_self (v : Vocabulary) (name : String) (k : Kind) :
    (v.register name k).lookup name = some k := by
  rw [lookup_register, if_pos rfl]

theorem typeOf_unmarked (hmark : ∀ stem, name ≠ stem ++ "-required") (h : v.lookup name = some k)
    (path : String) : v.typeOf path (.name name) = .ok (k, false) := by
  rw [typeOf, splitMark_of_unmarked hmark, h]

theorem typeOf_marked (h : v.lookup stem = some k) (path : String) :
    v.typeOf path (.name (stem ++ "-required")) = .ok (k, true) := by
  rw [typeOf, splitMark_append, h]

theorem typeOf_marked_unknown (h : v.lookup stem = none) (path : String) :
    v.typeOf path (.name (stem ++ "-required")) =
      .error (.unsupportedType (stem ++ "-required") path) := by
  rw [typeOf, splitMark_append, h]

end Vocabulary

namespace Schema

variable {v : Vocabulary} {path name : String} {k : Kind} {marked : Bool} {f : Fault}

/-! ### Names and triples without a last part -/

theorem describe_named_of_typeOf (h : v.typeOf path (.name name) = .ok (k, marked)) :
    (named name).describe v path = .ok { kind := k, path := path, required := marked } := by
  rw [describe, h]
  rfl

theorem describe_named_of_fault (h : v.typeOf path (.name name) = .error f) :
    (named name).describe v path = .error f := by
  rw [describe, h]
  rfl

theorem describe_triple_of_typeOf {type : TypeRef} (h : v.typeOf path type = .ok (k, marked))
    (required : Bool) :
    (triple type required none).describe v path =
      .ok { kind := k, path := path, required := required || marked } := by
  rw [describe, h]
  cases k <;> rfl

theorem describe_triple_of_fault {type : TypeRef} (h : v.typeOf path type = .error f)
    (required : Bool) : (triple type required none).describe v path = .error f := by
  rw [describe, h]
  rfl

theorem exists_compile_kind (v : Vocabulary) (path : String) (k : Kind) :
    ∃ c, ((kind k).compile v path).result = .ok c ∧ c.kind = k ∧ c.name = path ∧
      c.required = false := by
  cases k <;> exact ⟨_, rfl, rfl, rfl, rfl⟩

theorem compile_named_of_describe {w : Vocabulary}
    (h : (named name).describe w path = .ok { kind := k, path := path }) (v : Vocabulary) :
    (named name).compile w path = (kind k).compile v path := by
  have hk : (kind k).describe v path = .ok { kind := k, path := path } := rfl
  refine compile_eq_of_outline_eq ?_
  rw [outline_of_describe h, outline_of_describe hk]
  cases k <;> rfl

/-! ### Known names -/

/-- **A name that the vocabulary knows is a type of its kind**, alone and in a triple, unless it
ends in the mark; once it is registered it compiles to the same as the kind. **A name that ends in
the mark means what its stem means**, whether or not it is known itself. -/
theorem describe_known_name (v : Vocabulary) (path : String) (required : Bool) :
    (∀ name k, (∀ stem, name ≠ stem ++ "-required") →
      (v.lookup name = some k →
        (named name).describe v path = .ok { kind := k, path := path } ∧
        (triple (.name name) required none).describe v path =
          .ok { kind := k, path := path, required := required }) ∧
      ∃ c, ((named name).compile (v.register name k) path).result = .ok c ∧ c.kind = k ∧
        ((kind k).compile v path).result = .ok c) ∧
    ∀ stem,
      (∀ k, v.lookup stem = some k →
        (named (stem ++ "-required")).describe v path =
          .ok { kind := k, path := path, required := true } ∧
        (triple (.name (stem ++ "-required")) required none).describe v path =
          .ok { kind := k, path := path, required := true }) ∧
      (v.lookup stem = none →
        (named (stem ++ "-required")).describe v path =
          .error (.unsupportedType (stem ++ "-required") path) ∧
        (triple (.name (stem ++ "-required")) required none).describe v path =
          .error (.unsupportedType (stem ++ "-required") path)) := by
  refine ⟨fun name k hmark => ⟨fun h => ?_, ?_⟩, fun stem => ⟨fun k h => ?_, fun h => ?_⟩⟩
  · have ht := Vocabulary.typeOf_unmarked hmark h path
    refine ⟨describe_named_of_typeOf ht, ?_⟩
    rw [describe_triple_of_typeOf ht, Bool.or_false]
  · have ht := Vocabulary.typeOf_unmarked hmark (v.lookup_register_self name k) path
    obtain ⟨c, hc, hkind, -⟩ := exists_compile_kind v path k
    refine ⟨c, ?_, hkind, hc⟩
    rw [compile_named_of_describe (describe_named_of_typeOf ht) v, hc]
  · have ht := Vocabulary.typeOf_marked h path
    refine ⟨describe_named_of_typeOf ht, ?_⟩
    rw [describe_triple_of_typeOf ht, Bool.or_true]
  · have ht := Vocabulary.typeOf_marked_unknown h path
    exact ⟨describe_named_of_fault ht, describe_triple_of_fault ht required⟩

/-- A name that is registered with capitals is known with blanks around it, and is a type of its
kind; with a mark it is a required one. -/
theorem describe_known_name_email :
    (Vocabulary.builtin.register "E-Mail" .string).lookup " e-mail " = some .string ∧
      (∀ stem, " e-mail " ≠ stem ++ "-required") ∧
      (named " e-mail ").describe (Vocabulary.builtin.register "E-Mail" .string) "to" =
        .ok { kind := .string, path := "to" } ∧
      (named "e-mail-required").describe (Vocabulary.builtin.register "E-Mail" .string) "to" =
        .ok { kind := .string, path := "to", required := true } := by
  have hblank :
      (Vocabulary.builtin.register "E-Mail" .string).lookup " e-mail " = some .string := by
    decide +kernel
  have hstem : (Vocabulary.builtin.register "E-Mail" .string).lookup "e-mail" = some .string := by
    decide +kernel
  have hmark : ∀ stem, " e-mail " ≠ stem ++ "-required" :=
    unmarked_of_splitMark (by decide +kernel)
  obtain ⟨hname, hmarked⟩ :=
    describe_known_name (Vocabulary.builtin.register "E-Mail" .string) "to" false
  exact ⟨hblank, hmark, ((hname _ _ hmark).1 hblank).1, ((hmarked "e-mail").1 _ hstem).1⟩

/-- **A name that ends in the mark can be registered, but not used**: the vocabulary knows it, and
as a type it is unsupported, or what its stem is. -/
theorem describe_registered_mark :
    ((Vocabulary.builtin.register "stamp-required" .string).lookup "stamp-required" =
        some .string ∧
      ∀ path,
        (named "stamp-required").describe (Vocabulary.builtin.register "stamp-required" .string)
          path = .error (.unsupportedType "stamp-required" path) ∧
        (triple (.name "stamp-required") true none).describe
          (Vocabulary.builtin.register "stamp-required" .string) path =
            .error (.unsupportedType "stamp-required" path)) ∧
    (Vocabulary.builtin.register "int-required" .string).lookup "int-required" = some .string ∧
      ∀ path,
        (named "int-required").describe (Vocabulary.builtin.register "int-required" .string) path =
          .ok { kind := .integer, path := path, required := true } := by
  have hstamp : (Vocabulary.builtin.register "stamp-required" .string).lookup "stamp" = none := by
    decide +kernel
  have hint :
      (Vocabulary.builtin.register "int-required" .string).lookup "int" = some .integer := by
    decide +kernel
  refine ⟨⟨Vocabulary.lookup_register_self _ _ _, fun path => ?_⟩,
    Vocabulary.lookup_register_self _ _ _, fun path => ?_⟩
  · have ht := Vocabulary.typeOf_marked_unknown hstamp path
    exact ⟨describe_named_of_fault ht, describe_triple_of_fault ht true⟩
  · exact describe_named_of_typeOf (Vocabulary.typeOf_marked hint path)

end Schema

end ShorthandSchema
