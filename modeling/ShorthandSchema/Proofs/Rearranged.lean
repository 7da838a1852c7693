import ShorthandSchema.Proofs.Matching
import ShorthandSchema.Proofs.Nested
import ShorthandSchema.Proofs.Retry

/-! # Rearranged schemas: fields and groups in another order

The order of declaration decides which fault and which failure is the first, and nothing else: what
compiles still does, what is accepted still is, and the same comes out. Outputs are listed by key,
and groups that are replaced in place have distinct names.

* `GroupedSchema.result_validate_eq_evalFields`: a candidate, evaluated along the outlines of its
  groups.
* `compile_rearranged`: rearranged schemas, and rearranged groups of rearranged schemas. -/

namespace ShorthandSchema

/-- Only success and its results are compared, whatever the order of fields. -/
def Comparison.success : Comparison where
  free := True
  node := Eq
  fault _ _ := True
  failure _ _ := True
  rules := Node.SameRules.of_eq
  notABoolean _ _ := trivial
  complaint _ _ _ := trivial
  anyFault _ _ _ := trivial
  anyFailure _ _ _ := trivial

/-! ### Fields -/

/-- **A schema with its fields in another order**, at any depth. -/
def Schema.Rearranged (S S' : Schema) : Prop := S.Matches True Eq S'

namespace Schema

variable {S S' : Schema}

theorem rearranged_of_perm {m m' : OrderedMap Schema} (hm : (fields m).Distinct)
    (h : m.entries.Perm m'.entries) : (fields m).Rearranged (fields m') := by
  cases hm with
  | fields hnames hfields =>
    refine .fields (.moved trivial (h.map _)) fun f hf f' hf' hname => ?_
    obtain rfl := List.inj_on_of_nodup_map hnames hf (h.mem_iff.mpr hf') hname
    exact .refl (hfields f hf) fun _ => rfl

theorem Rearranged.outline (h : S.Rearranged S') (v : Vocabulary) (path : String) :
    (S.outline v path).Matches .success (S'.outline v path) :=
  Matches.outline (fun _ => rfl) (fun _ => trivial) (fun _ _ hn => congrArg Node.path hn)
    (fun path _ _ _ hn => congrArg (Node.placed path) hn) v path S h fun _ _ _ hn => hn

theorem Rearranged.compile (h : S.Rearranged S') (hS : S.Distinct) (v : Vocabulary)
    (path : String) :
    Corresponds (fun _ _ => True)
      (fun c c' => ∀ raw, Corresponds (fun _ _ => True) Eq (c.validate raw) (c'.validate raw))
      (S.compile v path).result (S'.compile v path).result :=
  corresponds_compile (h.outline v path) fun _ => hS

end Schema

/-! ### Groups -/

/-- **A grouped schema with its groups in another order**, and so the fields of each group. -/
structure GroupedSchema.Rearranged (S S' : GroupedSchema) : Prop where
  names : S.names.Perm S'.names
  fields : ∀ e ∈ S.entries, ∀ e' ∈ S'.entries, e.1 = e'.1 →
    (Schema.fields e.2).Rearranged (.fields e'.2)

namespace GroupedSchema

variable {v : Vocabulary} {S S' : GroupedSchema}

theorem rearranged_of_perm (hS : S.Distinct) (h : S.entries.Perm S'.entries) :
    S.Rearranged S' where
  names := h.map _
  fields e he e' he' hname := by
    obtain rfl := List.inj_on_of_nodup_map hS.names he (h.mem_iff.mpr he') hname
    exact .refl (hS.fields e he) fun _ => rfl

theorem names_asFields (S : GroupedSchema) : S.asFields.names = S.names := by
  rw [OrderedMap.names, asFields, List.map_map]
  rfl

theorem Rearranged.nested (h : S.Rearranged S') : S.nested.Rearranged S'.nested := by
  refine .fields (.moved trivial (by rw [names_asFields, names_asFields]; exact h.names)) ?_
  intro f hf f' hf' hname
  obtain ⟨e, he, rfl⟩ := List.mem_map.mp hf
  obtain ⟨e', he', rfl⟩ := List.mem_map.mp hf'
  refine .triple rfl fun s hs s' hs' => ?_
  cases hs
  cases hs'
  exact h.fields e he e' he' hname

theorem distinct_nested (hS : S.Distinct) : S.nested.Distinct := by
  have hnames : S.asFields.names.Nodup := by rw [names_asFields]; exact hS.names
  refine .fields hnames fun f hf => ?_
  obtain ⟨e, he, rfl⟩ := List.mem_map.mp hf
  refine .triple fun s hs => ?_
  cases hs
  exact hS.fields e he

/-- The outlines of the groups, as fields. -/
def outlines (v : Vocabulary) (S : GroupedSchema) : List (String × Outline) :=
  S.entries.map fun e => (e.1, (groupSchema e.1 e.2).outline v e.1)

/-- **A candidate is evaluated along the outlines of the groups**, and gets their outputs. -/
theorem result_validate_eq_evalFields {g : GroupedValidator} (hg : (S.compile v).result = .ok g)
    (hS : OrderedMap.Distinct S) (given : List (String × Json)) :
    (g.validate (.object given)).result =
      (((Outline.evalFields (S.outlines v) given).map (Json.insertAll · given)).mapError
        Rejection.failure).map .object := by
  have hrun : runGroups g.groups given =
      (Outline.evalFields (S.outlines v) given).mapError Rejection.failure := by
    rw [runGroups, Outline.evalFields_eq_mapM, mapM_mapError, outlines, List.mapM_map]
    refine (mapM_eq_of_forall₂ ((forall₂_of_compile hg).imp ?_)).symm
    rintro e c ⟨hname, hc⟩
    rw [Function.comp, mapError_map, Schema.validate_eq_eval hc, hname]
  rw [GroupedValidator.result_validate_object (nodup_of_compile hg hS), hrun]
  cases Outline.evalFields (S.outlines v) given <;> rfl

theorem Rearranged.exists_compile_iff (h : S.Rearranged S') (hS : S.Distinct) :
    (∃ g, (S.compile v).result = .ok g) ↔ ∃ g, (S'.compile v).result = .ok g := by
  rw [← (Corresponds.of_map_eq (map_validator_compile_nested v S)).exists_ok_iff,
    ← (Corresponds.of_map_eq (map_validator_compile_nested v S')).exists_ok_iff]
  exact (h.nested.compile (distinct_nested hS) v "").exists_ok_iff

theorem Rearranged.distinct (h : S.Rearranged S') (hS : OrderedMap.Distinct S) :
    OrderedMap.Distinct S' := h.names.nodup_iff.mp hS

theorem Rearranged.validate (h : S.Rearranged S') (hS : S.Distinct) {g g' : GroupedValidator}
    (hg : (S.compile v).result = .ok g) (hg' : (S'.compile v).result = .ok g') (raw : Json) :
    Corresponds (fun _ _ => True) Eq (g.validate raw).result (g'.validate raw).result := by
  have hmatch := h.nested.outline v ""
  have hdistinct := Schema.distinct_outline v "" _ (distinct_nested hS)
  rw [outline_nested] at hmatch hdistinct
  rw [outline_nested] at hmatch
  cases hmatch with
  | object _ horder hnames hfields =>
  cases hdistinct with
  | object hnodup hbelow =>
  cases raw with
  | object given =>
    rw [result_validate_eq_evalFields hg hS.names,
      result_validate_eq_evalFields hg' (h.distinct hS.names)]
    have hboth := Outline.corresponds_evalFields (R := Comparison.success.rejection)
      (fun hfree _ _ => Comparison.success.anyFailure hfree _ _) horder (fun _ => hnodup) hnames
      (fun p hp => (hfields p hp).eval fun _ =>
        hbelow p.1 (horder.perm.mem_iff.mpr (List.of_mem_zip hp).1)) given given
    exact (hboth.mapError fun _ _ _ => trivial).map fun _ _ ho => congrArg Json.object ho
  | null | bool | number | string | array => exact .error trivial

end GroupedSchema

/-! ### Declaration order -/

/-- **Declaration order only decides which fault and which failure is reported.** A schema with its
fields in another order compiles if the schema does, and accepts the same values with the same
outputs; so does a grouped schema with its groups and their fields in another order. -/
theorem compile_rearranged (v : Vocabulary) :
    (∀ (path : String) (S S' : Schema), S.Distinct → S.Rearranged S' →
      ((∃ c, (S.compile v path).result = .ok c) ↔ ∃ c, (S'.compile v path).result = .ok c) ∧
      ∀ c c', (S.compile v path).result = .ok c → (S'.compile v path).result = .ok c' →
        ∀ raw out, c.validate raw = .ok out ↔ c'.validate raw = .ok out) ∧
    ∀ S S' : GroupedSchema, S.Distinct → S.Rearranged S' →
      ((∃ g, (S.compile v).result = .ok g) ↔ ∃ g, (S'.compile v).result = .ok g) ∧
      ∀ g g', (S.compile v).result = .ok g → (S'.compile v).result = .ok g' →
        ∀ raw out, (g.validate raw).result = .ok out ↔ (g'.validate raw).result = .ok out := by
  refine ⟨fun path S S' hS h => ?_, fun S S' hS h => ?_⟩
  · have hboth := h.compile hS v path
    refine ⟨hboth.exists_ok_iff, fun c c' hc hc' raw out => ?_⟩
    rw [hc, hc'] at hboth
    cases hboth with
    | ok hval => exact (hval raw).eq_ok_iff out
  · exact ⟨h.exists_compile_iff hS,
      fun g g' hg hg' raw out => (h.validate hS hg hg' raw).eq_ok_iff out⟩

/-- A required array of objects. -/
def arrayOf (m : OrderedMap Schema) : Schema :=
  .triple (.kind .array) true (some (.fields m))

theorem compile_rearranged_orders :
    ∃ m c c' out g g' all, orderSchema = .fields m ∧
      (arrayOf m).Distinct ∧ (arrayOf m).Rearranged (arrayOf ⟨m.entries.reverse⟩) ∧
      ((arrayOf m).compile .builtin "orders").result = .ok c ∧
      ((arrayOf ⟨m.entries.reverse⟩).compile .builtin "orders").result = .ok c' ∧
      c.validate (.array [order]) = .ok out ∧ c'.validate (.array [order]) = .ok out ∧
      requestSchema.Distinct ∧ requestSchema.Rearranged ⟨requestSchema.entries.reverse⟩ ∧
      (requestSchema.compile .builtin).result = .ok g ∧
      (GroupedSchema.compile .builtin ⟨requestSchema.entries.reverse⟩).result = .ok g' ∧
      (g.validate identifiedRequest).result = .ok all ∧
      (g'.validate identifiedRequest).result = .ok all := by
  have hrun : ((Schema.triple (.kind .array) true (some orderSchema)).compile .builtin
      "orders").result.toOption.bind
        (fun c => (c.validate (.array [order])).toOption.map Json.text) =
      some "[\x7b\"customer\":null,\"id\":7,\"tags\":[\"true\"]\x7d]" := by decide +kernel
  obtain ⟨c, out, hc, hout, -⟩ := Schema.exists_accepted_of_run hrun
  obtain ⟨m, hm⟩ : ∃ m, orderSchema = .fields m := ⟨_, rfl⟩
  have hS := orderSchema_distinct
  rw [hm] at hS hc
  have hrev : (Schema.fields m).Rearranged (.fields ⟨m.entries.reverse⟩) :=
    Schema.rearranged_of_perm hS (List.reverse_perm m.entries).symm
  have hlist : (arrayOf m).Distinct := .triple fun s hs => Option.some.inj hs ▸ hS
  have hlistrev : (arrayOf m).Rearranged (arrayOf ⟨m.entries.reverse⟩) :=
    .triple rfl fun s hs s' hs' => Option.some.inj hs ▸ Option.some.inj hs' ▸ hrev
  have hrevs : requestSchema.Rearranged ⟨requestSchema.entries.reverse⟩ :=
    GroupedSchema.rearranged_of_perm requestSchema_distinct
      (List.reverse_perm requestSchema.entries).symm
  obtain ⟨hschema, hgroups⟩ := compile_rearranged .builtin
  obtain ⟨hok, hval⟩ := hschema "orders" _ _ hlist hlistrev
  obtain ⟨hoks, hvals⟩ := hgroups _ _ requestSchema_distinct hrevs
  obtain ⟨g, hg⟩ := requestSchema_compiles
  obtain ⟨all, hall, -⟩ := validate_identifiedRequest hg
  obtain ⟨c', hc'⟩ := hok.mp ⟨c, hc⟩
  obtain ⟨g', hg'⟩ := hoks.mp ⟨g, hg⟩
  exact ⟨m, c, c', out, g, g', all, hm, hlist, hlistrev, hc, hc', hout,
    (hval c c' hc hc' (.array [order]) out).mp hout, requestSchema_distinct, hrevs, hg, hg', hall,
    (hvals g g' hg hg' identifiedRequest all).mp hall⟩

end ShorthandSchema
