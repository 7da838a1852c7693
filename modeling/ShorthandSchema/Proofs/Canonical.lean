import ShorthandSchema.Proofs.Evaluation
import ShorthandSchema.Proofs.Faults

/-! # Canonical descriptors: every form written out

The canonical descriptor of a schema at a path is its descriptor, in which the items of an array and
the fields of an object are again canonical descriptors, each at its own path. A full descriptor
that is given the path it has already is described by itself, so nothing changes when the forms are
replaced, and no type name is left for a vocabulary to explain.

* `Schema.outline_canonical`: a schema and its canonical descriptor reach the same nodes.
* `Schema.exists_canonical`: what compiles has a canonical descriptor.
* `Schema.compile_canonical`: the canonical descriptor compiles to the same. -/

namespace ShorthandSchema

/-- A descriptor with the schemas that it refers to replaced by descriptors, given those at their
paths. What its kind does not refer to stays as it is. -/
def Descriptor.canonical (below : String → Schema → Except Fault (Descriptor Schema))
    (d : Descriptor Schema) : Except Fault (Descriptor Schema) :=
  match d.kind with
  | .array =>
    match d.items with
    | none => .ok d
    | some s =>
      (below (Path.child d.path Path.item) s).map fun e => { d with items := some (.described e) }
  | .object =>
    (d.fieldList.mapM fun f =>
      (below (Path.child d.path f.1) f.2).map fun e => (f.1, Schema.described e)).map
        fun entries => { d with fields := d.fields.map fun _ => ⟨entries⟩ }
  | _ => .ok d

namespace Schema

/-- **The canonical descriptor of a schema at a path**, or the fault of a form that has none. -/
def canonical (v : Vocabulary) (path : String) (S : Schema) : Except Fault (Descriptor Schema) :=
  match _h : S.describe v path with
  | .error f => .error f
  | .ok d =>
    match d.kind with
    | .array =>
      match _hs : d.items with
      | none => .ok d
      | some s =>
        (canonical v (Path.child d.path Path.item) s).map fun e =>
          { d with items := some (.described e) }
    | .object =>
      (d.fieldList.attach.mapM fun f =>
        (canonical v (Path.child d.path f.1.1) f.1.2).map fun e => (f.1.1, described e)).map
          fun entries => { d with fields := d.fields.map fun _ => ⟨entries⟩ }
    | _ => .ok d
termination_by sizeOf S
decreasing_by
  · exact (belowSmaller_describe _h).1 s _hs
  · exact (belowSmaller_describe _h).2 f.1 f.2

theorem canonical_eq (v : Vocabulary) (path : String) (S : Schema) :
    S.canonical v path = match S.describe v path with
      | .error f => .error f
      | .ok d => d.canonical (canonical v) := by
  rw [canonical]
  split
  · rename_i h
    rw [h]
  · rename_i d h
    rw [h]
    dsimp only [Descriptor.canonical]
    split
    · split
      · rename_i hs
        rw [hs]
      · rename_i s hs
        rw [hs]
    · have hfields := List.mapM_subtype (l := d.fieldList.attach)
        (f := fun f => (canonical v (Path.child d.path f.1.1) f.1.2).map fun e =>
          (f.1.1, described e))
        (g := fun f => (canonical v (Path.child d.path f.1) f.2).map fun e => (f.1, described e))
        fun _ _ => rfl
      rw [hfields, List.unattach_attach]
    · rfl

theorem canonical_of_describe {v : Vocabulary} {path : String} {S : Schema}
    {d : Descriptor Schema} (h : S.describe v path = .ok d) :
    S.canonical v path = d.canonical (canonical v) := by rw [canonical_eq, h]

end Schema

/-! ### The same nodes -/

theorem Descriptor.fieldList_map_fields {d : Descriptor Schema}
    {f : String × Schema → Except Fault (String × Schema)} {entries : List (String × Schema)}
    (h : d.fieldList.mapM f = .ok entries) :
    { d with fields := d.fields.map fun _ => ⟨entries⟩ : Descriptor Schema }.fieldList =
      entries := by
  cases hf : d.fields with
  | some m => exact Schema.fieldList_of_fields rfl
  | none =>
    rw [Schema.fieldList_of_none hf] at h
    cases h
    exact Schema.fieldList_of_none rfl

theorem Descriptor.outline_of_canonical
    {below : String → Schema → Except Fault (Descriptor Schema)} {d e : Descriptor Schema}
    (h : d.canonical below = .ok e) {o o' : String → Schema → Outline}
    (hitems : ∀ s ∈ d.items, ∀ p c, below p s = .ok c → o p (.described c) = o' p s)
    (hfields : ∀ f ∈ d.fieldList, ∀ p c, below p f.2 = .ok c → o p (.described c) = o' p f.2) :
    e.path = d.path ∧ e.outline o = d.outline o' := by
  unfold canonical at h
  split at h
  · rename_i hk
    split at h
    · rename_i hi
      cases h
      rw [outline_of_array hk, outline_of_array hk, hi]
      exact ⟨rfl, rfl⟩
    · rename_i s hi
      obtain ⟨c, hc, rfl⟩ := map_eq_ok_iff.mp h
      refine ⟨rfl, (outline_of_array (d := { d with items := some (.described c) }) hk o).trans ?_⟩
      rw [outline_of_array hk, hi, Option.map_some, Option.map_some, hitems s hi _ c hc]
  · rename_i hk
    obtain ⟨entries, hentries, rfl⟩ := map_eq_ok_iff.mp h
    refine ⟨rfl, (outline_of_object
      (d := { d with fields := d.fields.map fun _ => ⟨entries⟩ }) hk o).trans ?_⟩
    rw [outline_of_object hk, fieldList_map_fields hentries]
    refine congrArg (Outline.object d.toNode) (map_eq_map_iff_forall₂.mpr ?_).symm
    refine ((List.forall₂_and_left _ _).mpr ⟨hfields, mapM_eq_ok_iff.mp hentries⟩).imp ?_
    rintro f g ⟨hf, hg⟩
    obtain ⟨c, hc, rfl⟩ := map_eq_ok_iff.mp hg
    exact congrArg (Prod.mk f.1) (hf _ c hc).symm
  · cases h
    rw [outline_of_scalar ‹_› ‹_›, outline_of_scalar ‹_› ‹_›]
    exact ⟨rfl, rfl⟩

namespace Schema

variable {v : Vocabulary} {path : String} {S : Schema}

theorem describe_described {e : Descriptor Schema} (h : path ≠ "" → e.path = path) :
    (described e).describe v path = .ok e := by
  rw [describe]
  split_ifs with hp
  · rfl
  · obtain rfl := h hp
    rfl

/-- **A schema and its canonical descriptor reach the same nodes**, whatever vocabulary the
descriptor is read with. -/
theorem outline_canonical (v w : Vocabulary) (path : String) (S : Schema) :
    ∀ {e}, S.canonical v path = .ok e → (described e).outline w path = S.outline v path := by
  induction path, S using Schema.induction v with
  | step path S ih =>
    intro e he
    rw [canonical_eq] at he
    cases hd : S.describe v path with
    | error f => rw [hd] at he; cases he
    | ok d =>
      rw [hd] at he
      obtain ⟨ihitem, ihfields⟩ := ih d hd
      have hboth : e.path = d.path ∧ e.outline (outline w) = d.outline (outline v) :=
        Descriptor.outline_of_canonical he (fun s hs p _ hc => ihitem s hs p hc)
          fun f hf p _ hc => ihfields f hf p hc
      obtain ⟨hpath, ho⟩ := hboth
      have hat : d.path = S.pathAt path := (describedBy_of_describe hd).path
      have hself : (described e).describe w path = .ok e :=
        describe_described fun hp => hpath.trans (hat.trans (pathAt_of_ne hp S))
      rw [outline_of_describe hself, outline_of_describe hd, ho]

/-- **What compiles has a canonical descriptor**, since no form that is reached is at fault. -/
theorem exists_canonical (v : Vocabulary) (path : String) (S : Schema) :
    (S.outline v path).WellFormed → ∃ e, S.canonical v path = .ok e := by
  induction path, S using Schema.induction v with
  | step path S ih =>
    intro hw
    cases hd : S.describe v path with
    | error f =>
      rw [outline_of_fault hd] at hw
      cases hw
    | ok d =>
      obtain ⟨ihitem, ihfields⟩ := ih d hd
      rw [outline_of_describe hd] at hw
      rw [canonical_of_describe hd]
      unfold Descriptor.canonical
      split
      · rename_i hk
        rw [Descriptor.outline_of_array hk] at hw
        cases hw with
        | array _ hitem =>
          split
          · exact ⟨d, rfl⟩
          · rename_i s hs
            obtain ⟨e, he⟩ := ihitem s hs _ (hitem _ (by rw [hs]; rfl))
            exact ⟨_, by rw [he]; rfl⟩
      · rename_i hk
        rw [Descriptor.outline_of_object hk] at hw
        cases hw with
        | object _ hfields =>
          have hall : ∀ f ∈ d.fieldList, ∃ g : String × Schema,
              ((canonical v (Path.child d.path f.1) f.2).map fun e => (f.1, described e)) =
                .ok g := by
            intro f hf
            obtain ⟨e, he⟩ := ihfields f hf _ (hfields _ (List.mem_map_of_mem hf))
            exact ⟨_, by rw [he]; rfl⟩
          obtain ⟨entries, hentries⟩ := exists_mapM_eq_ok_iff.mpr hall
          exact ⟨_, by rw [hentries]; rfl⟩
      · exact ⟨d, rfl⟩

/-- **The canonical descriptor compiles to the same**: to a validator with the same name, kind, mark
and results, with the same events. It needs no vocabulary for that, since every type name that is
reached has been replaced by its kind. -/
theorem compile_canonical {c : Compiled} (h : (S.compile v path).result = .ok c) :
    ∃ e, S.canonical v path = .ok e ∧
      ∀ w, ((described e).compile w path).result = .ok c ∧
        (described e).compile w path = S.compile v path := by
  obtain ⟨e, he⟩ := exists_canonical v path S (wellFormed_of_compile h)
  have hsame : ∀ w, (described e).compile w path = S.compile v path :=
    fun w => compile_eq_of_outline_eq (outline_canonical v w path S he)
  exact ⟨e, he, fun w => ⟨by rw [hsame w]; exact h, hsame w⟩⟩

theorem compile_canonical_order :
    ∃ e c out, orderSchema.canonical .builtin "order" = .ok e ∧
      (orderSchema.compile .builtin "order").result = .ok c ∧
      ((described e).compile ⟨[]⟩ "order").result = .ok c ∧ c.validate order = .ok out ∧
      out.text = "\x7b\"customer\":null,\"id\":7,\"tags\":[\"true\"]\x7d" := by
  obtain ⟨c, hc⟩ := orderSchema_compiles
  obtain ⟨out, hout, htext⟩ := validate_order hc
  obtain ⟨e, he, hall⟩ := compile_canonical hc
  exact ⟨e, c, out, he, hc, (hall ⟨[]⟩).1, hout, htext⟩

end Schema

end ShorthandSchema
