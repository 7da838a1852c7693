import ShorthandSchema.Proofs.Evaluation
import ShorthandSchema.Proofs.Faults
import ShorthandSchema.Proofs.Groups

/-! # Nested schemas: groups as the fields of one object

Groups can also be written as one map of fields, with the triple of a required object for each. At
the empty path its nodes are those of the groups, since a child of the empty path is called by its
name alone. Validation then builds a new object instead of replacing members in the given one, so it
keeps the groups and nothing else.

* `map_validator_compile_nested`: the validator of the nested schema is made of those of the groups.
* `GroupedSchema.compile_nested`: both have the same faults and failures, and where a grouped schema
  returns a candidate the nested one returns its groups. -/

namespace ShorthandSchema

namespace Json

/-- An object without the members under other names; any other value is left as it is. -/
def restrict (names : List String) : Json → Json
  | .object members =>
    .ofMembers (names.filterMap fun name => (members.lookup name).map (name, ·))
  | other => other

theorem restrict_insertAll {entries : List (String × Json)} (hnames : (entries.map (·.1)).Nodup)
    (members : List (String × Json)) :
    restrict (entries.map (·.1)) (.object (insertAll entries members)) = ofMembers entries := by
  have hkept : entries.filterMap
      (fun m => ((insertAll entries members).lookup m.1).map (m.1, ·)) = entries := by
    rw [List.filterMap_congr (g := some), List.filterMap_some]
    intro m hm
    rw [lookup_insertAll_of_mem hnames members hm]
    rfl
  rw [restrict, List.filterMap_map]
  exact congrArg ofMembers hkept

end Json

/-! ### The same nodes -/

/-- The triple of a group has the descriptor that is built for the group by hand. -/
theorem outline_triple (v : Vocabulary) (name : String) (m : OrderedMap Schema) :
    (Schema.triple (.kind .object) true (some (.fields m))).outline v name =
      (groupSchema name m).outline v name := by
  have hd : (groupSchema name m).describe v name =
      (Schema.triple (.kind .object) true (some (.fields m))).describe v name := by
    simp only [groupSchema, Schema.describe, ite_self]
    rfl
  rw [Schema.outline_eq, Schema.outline_eq, hd]

namespace GroupedSchema

/-- The groups as fields, each of them a required object. -/
def asFields (S : GroupedSchema) : OrderedMap Schema :=
  ⟨S.entries.map fun e => (e.1, .triple (.kind .object) true (some (.fields e.2)))⟩

/-- **The groups as one schema**, of an object with a field for each. -/
def nested (S : GroupedSchema) : Schema := .fields S.asFields

theorem outline_nested (v : Vocabulary) (S : GroupedSchema) :
    S.nested.outline v "" = .object { kind := .object, path := "" }
      (S.entries.map fun e => (e.1, (groupSchema e.1 e.2).outline v e.1)) := by
  have hd : S.nested.describe v "" = .ok { kind := .object, fields := some S.asFields } := rfl
  rw [Schema.outline_of_describe hd]
  refine congrArg (Outline.object _) ?_
  show S.asFields.entries.map (fun f => (f.1, f.2.outline v (Path.child "" f.1))) = _
  rw [asFields, List.map_map]
  refine List.map_congr_left fun e _ => ?_
  rw [Function.comp, Path.child_empty, outline_triple]

end GroupedSchema

/-- **The validator of an object whose fields are the groups.** -/
def GroupedValidator.asObject (g : GroupedValidator) : Validator :=
  .object ⟨"", none⟩ (g.groups.map fun e => (e.1, e.2.validator))

namespace GroupedSchema

theorem result_buildFields_groups (v : Vocabulary) (entries : List (String × OrderedMap Schema)) :
    (Outline.buildFields
      (entries.map fun e => (e.1, (groupSchema e.1 e.2).outline v e.1))).result =
      (compileGroups v entries).result.map (List.map fun e => (e.1, e.2.validator)) := by
  rw [Outline.result_buildFields, List.mapM_map, result_compileGroups, map_mapM]
  refine mapM_congr_of_mem fun e _ => ?_
  rw [Function.comp, ← Schema.map_validator_compile]
  cases ((groupSchema e.1 e.2).compile v e.1).result <;> rfl

/-- **The nested schema compiles as the groups do**, to a validator that is made of theirs. -/
theorem map_validator_compile_nested (v : Vocabulary) (S : GroupedSchema) :
    (S.nested.compile v "").result.map Compiled.validator =
      (S.compile v).result.map GroupedValidator.asObject := by
  rw [Schema.map_validator_compile, outline_nested, Outline.result_build_object,
    result_buildFields_groups, result_compile]
  cases (compileGroups v S.entries).result <;> rfl

end GroupedSchema

/-! ### The same failures -/

theorem runFields_eq_runGroups (groups : List (String × Compiled)) (given : List (String × Json)) :
    Validator.runFields (groups.map fun e => (e.1, e.2.validator)) given =
      runGroups groups given := by
  rw [Validator.runFields_eq_mapM, List.mapM_map]
  rfl

/-- **The object keeps of a candidate what groups with distinct names have returned.** -/
theorem GroupedValidator.run_asObject {g : GroupedValidator} (hnames : g.names.Nodup) {raw : Json}
    (hraw : raw ≠ .null) :
    g.asObject.run raw = (g.validate raw).result.map (Json.restrict g.names) := by
  cases raw with
  | null => exact absurd rfl hraw
  | bool | number | string | array => rfl
  | object given =>
    show (Validator.runFields (g.groups.map fun e => (e.1, e.2.validator)) given).map
      Json.ofMembers = _
    rw [result_validate_object hnames, runFields_eq_runGroups]
    cases h : runGroups g.groups given with
    | error f => rfl
    | ok outs =>
      have houts : g.names = outs.map (·.1) := (runGroups_eq_ok_iff.mp h).names.symm
      rw [houts] at hnames ⊢
      exact congrArg Except.ok (Json.restrict_insertAll hnames given).symm

namespace GroupedSchema

/-- **Groups and their nested schema agree.** They compile together, with the same fault if they do
not, and give the same failure for every value but null. What the nested schema returns is what the
groups return, without the members under other names. -/
theorem compile_nested (v : Vocabulary) {S : GroupedSchema} (hS : OrderedMap.Distinct S) :
    ((∃ g, (S.compile v).result = .ok g) ↔ ∃ c, (S.nested.compile v "").result = .ok c) ∧
    (∀ f, (S.compile v).result = .error f ↔ (S.nested.compile v "").result = .error f) ∧
    ∀ g c, (S.compile v).result = .ok g → (S.nested.compile v "").result = .ok c →
      ∀ raw, raw ≠ .null →
        c.validate raw = (g.validate raw).result.map (Json.restrict S.names) := by
  have h := map_validator_compile_nested v S
  cases hg : (S.compile v).result with
  | error f =>
    cases hc : (S.nested.compile v "").result with
    | ok c => rw [hg, hc] at h; cases h
    | error f' =>
      rw [hg, hc] at h
      cases h
      simp
  | ok g =>
    cases hc : (S.nested.compile v "").result with
    | error f => rw [hg, hc] at h; cases h
    | ok c =>
      rw [hg, hc] at h
      have hval : c.validator = g.asObject := Except.ok.inj h
      refine ⟨iff_of_true ⟨g, rfl⟩ ⟨c, rfl⟩, fun f => iff_of_false (by simp) (by simp), ?_⟩
      rintro _ _ ⟨⟩ ⟨⟩ raw hraw
      rw [Compiled.validate, hval, ← names_of_compile hg]
      exact GroupedValidator.run_asObject (nodup_of_compile hg hS) hraw

end GroupedSchema

/-- A request with an id, and with headers that are no group. -/
def identifiedRequest : Json :=
  .object [("body", .object [("id", .string "7")]), ("headers", .bool true),
    ("query", .object [("page", .string "2")])]

theorem validate_identifiedRequest {g : GroupedValidator}
    (h : (requestSchema.compile .builtin).result = .ok g) :
    ∃ out, (g.validate identifiedRequest).result = .ok out ∧
      out.text =
        "\x7b\"body\":\x7b\"id\":7\x7d,\"headers\":true,\"query\":\x7b\"page\":2\x7d\x7d" ∧
      (out.restrict requestSchema.names).text =
        "\x7b\"body\":\x7b\"id\":7\x7d,\"query\":\x7b\"page\":2\x7d\x7d" := by
  have hrun : (requestSchema.compile .builtin).result.toOption.bind (fun g =>
      (g.validate identifiedRequest).result.toOption.map fun out =>
        (out.text, (out.restrict requestSchema.names).text)) =
      some ("\x7b\"body\":\x7b\"id\":7\x7d,\"headers\":true,\"query\":\x7b\"page\":2\x7d\x7d",
        "\x7b\"body\":\x7b\"id\":7\x7d,\"query\":\x7b\"page\":2\x7d\x7d") := by
    decide +kernel
  rw [h] at hrun
  obtain ⟨out, hout, htexts⟩ := Option.map_eq_some_iff.mp hrun
  cases hv : (g.validate identifiedRequest).result with
  | error f => rw [hv] at hout; cases hout
  | ok out' =>
    rw [hv] at hout
    cases hout
    exact ⟨out, rfl, Prod.mk.inj htexts⟩

/-- The request keeps its headers; the nested schema returns it without them. -/
theorem compile_nested_request :
    ∃ g c out part, (requestSchema.compile .builtin).result = .ok g ∧
      (requestSchema.nested.compile .builtin "").result = .ok c ∧
      OrderedMap.Distinct requestSchema ∧
      (g.validate identifiedRequest).result = .ok out ∧ c.validate identifiedRequest = .ok part ∧
      out.text =
        "\x7b\"body\":\x7b\"id\":7\x7d,\"headers\":true,\"query\":\x7b\"page\":2\x7d\x7d" ∧
      part.text = "\x7b\"body\":\x7b\"id\":7\x7d,\"query\":\x7b\"page\":2\x7d\x7d" := by
  have hd : OrderedMap.Distinct requestSchema := OrderedMap.distinct_ofList _
  obtain ⟨hok, -, hagree⟩ := GroupedSchema.compile_nested .builtin hd
  obtain ⟨g, hg⟩ := requestSchema_compiles
  obtain ⟨c, hc⟩ := hok.mp ⟨g, hg⟩
  obtain ⟨out, hout, htext, hpart⟩ := validate_identifiedRequest hg
  have hval := hagree g c hg hc identifiedRequest (by simp [identifiedRequest])
  rw [hout] at hval
  exact ⟨g, c, out, _, hg, hc, hd, hout, hval, htext, hpart⟩

end ShorthandSchema
