import ShorthandSchema.Proofs.Complaints
import ShorthandSchema.Proofs.Sequence

/-! # Outlines: well-formed and distinct

An outline is well-formed if its nodes have the kinds of their places and no fault, and distinct if
no object declares a name twice.

* `wellFormed_of_build`, `exists_build_of_wellFormed`: what compiles is what is well-formed.
* `Distinct.ofList`: maps of fields that are filled by insertions have distinct names.
* `distinct_outline`: a schema with distinct names has a distinct outline. -/

namespace ShorthandSchema

/-! ### Well-formed outlines -/

/-- **An outline without faults**, with the kinds that the places of its nodes ask for. -/
inductive Outline.WellFormed : Outline → Prop
  | scalar {n : Node} (harray : n.kind ≠ .array) (hobject : n.kind ≠ .object) (hfits : n.Fits) :
      WellFormed (.scalar n)
  | array {n : Node} {item : Option Outline} (hkind : n.kind = .array)
      (hitem : ∀ o ∈ item, WellFormed o) : WellFormed (.array n item)
  | object {n : Node} {fields : List (String × Outline)} (hkind : n.kind = .object)
      (hfields : ∀ f ∈ fields, WellFormed f.2) : WellFormed (.object n fields)

namespace Outline

theorem result_build_scalar (n : Node) :
    (build (.scalar n)).result =
      n.scalarRule?.map fun rule => n.guarded (.scalar n.site rule) := by
  rw [build, Traced.emit_bind]
  cases n.scalarRule? with
  | ok rule => rw [Traced.of_ok_bind]; rfl
  | error f => rw [Traced.of_error_bind]; rfl

theorem result_build_array (n : Node) (item : Option Outline) :
    (build (.array n item)).result =
      (buildItem item).result.map fun inner => n.guarded (.array n.site n.countRule inner) := by
  rw [build, Traced.emit_bind]
  cases h : (buildItem item).result with
  | ok inner => rw [Traced.bind_of_ok h]; rfl
  | error f => rw [Traced.bind_of_error h]; rfl

theorem result_build_object (n : Node) (fields : List (String × Outline)) :
    (build (.object n fields)).result =
      (buildFields fields).result.map fun inner => n.guarded (.object n.site inner) := by
  rw [build, Traced.emit_bind]
  cases h : (buildFields fields).result with
  | ok inner => rw [Traced.bind_of_ok h]; rfl
  | error f => rw [Traced.bind_of_error h]; rfl

theorem result_buildFields (fields : List (String × Outline)) :
    (buildFields fields).result = fields.mapM fun f => (build f.2).result.map (f.1, ·) := by
  induction fields with
  | nil => rfl
  | cons f rest ih =>
    obtain ⟨name, o⟩ := f
    rw [buildFields, List.mapM_cons, ← ih]
    cases h : (build o).result with
    | error e => rw [Traced.bind_of_error h]; rfl
    | ok inner =>
      rw [Traced.bind_of_ok h]
      cases hr : (buildFields rest).result with
      | error e => rw [Traced.bind_of_error hr]; rfl
      | ok others => rw [Traced.bind_of_ok hr]; rfl

end Outline

/-- **What compiles is well-formed.** -/
theorem Schema.wellFormed_of_build (v : Vocabulary) (path : String) (S : Schema) :
    ∀ {inner : Validator}, (S.outline v path).build.result = .ok inner →
      (S.outline v path).WellFormed := by
  induction path, S using Schema.induction v with
  | step path S ih =>
    intro inner hb
    cases hd : S.describe v path with
    | error f =>
      rw [outline_of_fault hd] at hb
      cases hb
    | ok d =>
      obtain ⟨ihitem, ihfields⟩ := ih d hd
      rw [outline_of_describe hd] at hb ⊢
      unfold Descriptor.outline at hb ⊢
      split at hb
      · rename_i hk
        refine .array hk fun o ho => ?_
        obtain ⟨s, hs, rfl⟩ := Option.map_eq_some_iff.mp ho
        rw [Outline.result_build_array] at hb
        obtain ⟨val, hval, -⟩ := map_eq_ok_iff.mp hb
        rw [hs] at hval
        exact ihitem s hs _ hval
      · rename_i hk
        refine .object hk fun f hf => ?_
        obtain ⟨g, hg, rfl⟩ := List.mem_map.mp hf
        rw [Outline.result_build_object, Outline.result_buildFields] at hb
        obtain ⟨vals, hvals, -⟩ := map_eq_ok_iff.mp hb
        obtain ⟨_, -, hval⟩ := exists_of_forall₂ (mapM_eq_ok_iff.mp hvals) hf
        obtain ⟨val, hval, -⟩ := map_eq_ok_iff.mp hval
        exact ihfields g hg _ hval
      · rename_i ha ho
        rw [Outline.result_build_scalar] at hb
        obtain ⟨rule, hrule, -⟩ := map_eq_ok_iff.mp hb
        exact .scalar ha ho (Node.fits_of_scalarRule? hrule)

/-- **What is well-formed compiles.** -/
theorem Outline.exists_build_of_wellFormed {o : Outline} (h : o.WellFormed) :
    ∃ val, o.build.result = .ok val := by
  induction h with
  | @scalar n harray hobject hfits =>
    obtain ⟨rule, hrule, -⟩ := Node.check_eq hfits harray hobject
    exact ⟨_, by rw [result_build_scalar, hrule]; rfl⟩
  | @array n item hkind _ ih =>
    rw [result_build_array]
    cases item with
    | none => exact ⟨_, rfl⟩
    | some o =>
      obtain ⟨val, hval⟩ := ih o rfl
      exact ⟨_, map_eq_ok_iff.mpr ⟨val, hval, rfl⟩⟩
  | @object n fields hkind _ ih =>
    have hfields : ∃ vals, (buildFields fields).result = .ok vals := by
      rw [result_buildFields, exists_mapM_eq_ok_iff]
      intro f hf
      obtain ⟨val, hval⟩ := ih f hf
      exact ⟨_, map_eq_ok_iff.mpr ⟨val, hval, rfl⟩⟩
    obtain ⟨vals, hvals⟩ := hfields
    exact ⟨_, by rw [result_build_object, hvals]; rfl⟩

/-! ### Distinct names -/

/-- **A schema whose maps of fields have distinct names**, at every depth. Maps that are filled by
insertions have no others. -/
inductive Schema.Distinct : Schema → Prop
  | kind (k : Kind) : Distinct (.kind k)
  | named (name : String) : Distinct (.named name)
  | triple {type : TypeRef} {required : Bool} {sub : Option Schema}
      (hsub : ∀ s ∈ sub, Distinct s) : Distinct (.triple type required sub)
  | fields {m : OrderedMap Schema} (hnames : m.Distinct)
      (hfields : ∀ f ∈ m.entries, Distinct f.2) : Distinct (.fields m)
  | described {d : Descriptor Schema} (hnames : ∀ m ∈ d.fields, OrderedMap.Distinct m)
      (hfields : ∀ f ∈ d.fieldList, Distinct f.2) (hitems : ∀ s ∈ d.items, Distinct s) :
      Distinct (.described d)

/-- **An outline whose objects declare distinct names**, at every depth. -/
inductive Outline.Distinct : Outline → Prop
  | fault (f : Fault) : Distinct (.fault f)
  | scalar (n : Node) : Distinct (.scalar n)
  | array {n : Node} {item : Option Outline} (hitem : ∀ o ∈ item, Distinct o) :
      Distinct (.array n item)
  | object {n : Node} {fields : List (String × Outline)} (hnames : (fields.map (·.1)).Nodup)
      (hfields : ∀ f ∈ fields, Distinct f.2) : Distinct (.object n fields)

namespace Schema

theorem Distinct.ofList {entries : List (String × Schema)} (h : ∀ e ∈ entries, Distinct e.2) :
    Distinct (.fields (.ofList entries)) :=
  .fields (OrderedMap.distinct_ofList entries) fun f hf => h f (OrderedMap.mem_ofList hf)

/-- What a descriptor refers to: nothing, the fields or the items that the form gives, or all that a
full descriptor has. -/
theorem below_of_describe {v : Vocabulary} {path : String} {S : Schema} {d : Descriptor Schema}
    (h : S.describe v path = .ok d) :
    (d.fields = none ∧ d.items = none) ∨
    (∃ m, d.fields = some m ∧ d.items = none ∧
      (S = .fields m ∨ ∃ type required, S = .triple type required (some (.fields m)))) ∨
    (∃ s, d.fields = none ∧ d.items = some s ∧
      ∃ type required, S = .triple type required (some s)) ∨
    ∃ e, S = .described e ∧ d.fields = e.fields ∧ d.items = e.items := by
  cases S with
  | kind k =>
    cases h
    exact Or.inl ⟨rfl, rfl⟩
  | named name =>
    rw [describe] at h
    cases ht : v.typeOf path (.name name) with
    | error e => rw [ht] at h; cases h
    | ok r =>
      rw [ht] at h
      cases h
      exact Or.inl ⟨rfl, rfl⟩
  | triple type required sub =>
    rw [describe] at h
    cases ht : v.typeOf path type with
    | error e => rw [ht] at h; cases h
    | ok r =>
      rw [ht] at h
      change describeTriple path r.1 (required || r.2) sub = .ok d at h
      unfold describeTriple at h
      split at h
      · cases h
        exact Or.inr (Or.inl ⟨_, rfl, rfl, Or.inr ⟨_, _, rfl⟩⟩)
      · cases h
      · cases h
        exact Or.inr (Or.inr (Or.inl ⟨_, rfl, rfl, _, _, rfl⟩))
      · cases h
        exact Or.inl ⟨rfl, rfl⟩
  | fields m =>
    cases h
    exact Or.inr (Or.inl ⟨m, rfl, rfl, Or.inl rfl⟩)
  | described e =>
    cases h
    exact Or.inr (Or.inr (Or.inr ⟨e, rfl, rfl, rfl⟩))

theorem fieldList_of_fields {d : Descriptor Schema} {m : OrderedMap Schema}
    (h : d.fields = some m) : d.fieldList = m.entries := by
  rw [Descriptor.fieldList, h]
  rfl

theorem fieldList_of_none {d : Descriptor Schema} (h : d.fields = none) : d.fieldList = [] := by
  rw [Descriptor.fieldList, h]
  rfl

theorem nodup_fieldList {d : Descriptor Schema} (h : ∀ m ∈ d.fields, OrderedMap.Distinct m) :
    (d.fieldList.map (·.1)).Nodup := by
  cases hd : d.fields with
  | none => simp [fieldList_of_none hd]
  | some m =>
    rw [fieldList_of_fields hd]
    exact h m hd

theorem Distinct.of_describe {v : Vocabulary} {path : String} {S : Schema} {d : Descriptor Schema}
    (hS : S.Distinct) (h : S.describe v path = .ok d) :
    (d.fieldList.map (·.1)).Nodup ∧ (∀ f ∈ d.fieldList, Distinct f.2) ∧
      ∀ s ∈ d.items, Distinct s := by
  rcases below_of_describe h with ⟨hf, hi⟩ | ⟨m, hf, hi, rfl | ⟨_, _, rfl⟩⟩ |
      ⟨s, hf, hi, _, _, rfl⟩ | ⟨e, rfl, hf, hi⟩
  · rw [fieldList_of_none hf, hi]
    simp
  · cases hS with
    | fields hnames hfields =>
      rw [fieldList_of_fields hf, hi]
      exact ⟨hnames, hfields, by simp⟩
  · cases hS with
    | triple hsub =>
      cases hsub _ rfl with
      | fields hnames hfields =>
        rw [fieldList_of_fields hf, hi]
        exact ⟨hnames, hfields, by simp⟩
  · cases hS with
    | triple hsub =>
      rw [fieldList_of_none hf, hi]
      exact ⟨by simp, by simp, hsub⟩
  · cases hS with
    | described hnames hfields hitems =>
      have hl : d.fieldList = e.fieldList := by rw [Descriptor.fieldList, Descriptor.fieldList, hf]
      rw [hl, hi]
      exact ⟨nodup_fieldList hnames, hfields, hitems⟩

/-- **A schema with distinct names has a distinct outline.** -/
theorem distinct_outline (v : Vocabulary) (path : String) (S : Schema) :
    S.Distinct → (S.outline v path).Distinct := by
  induction path, S using Schema.induction v with
  | step path S ih =>
    intro hS
    cases hd : S.describe v path with
    | error f =>
      rw [outline_of_fault hd]
      exact .fault f
    | ok d =>
      obtain ⟨ihitem, ihfields⟩ := ih d hd
      obtain ⟨hnames, hfields, hitems⟩ := hS.of_describe hd
      rw [outline_of_describe hd]
      unfold Descriptor.outline
      split
      · refine .array fun o ho => ?_
        obtain ⟨s, hs, rfl⟩ := Option.map_eq_some_iff.mp ho
        exact ihitem s hs _ (hitems s hs)
      · refine .object (by rw [List.map_map]; exact hnames) fun f hf => ?_
        obtain ⟨g, hg, rfl⟩ := List.mem_map.mp hf
        exact ihfields g hg _ (hfields g hg)
      · exact .scalar _

end Schema

end ShorthandSchema
