import ShorthandSchema.Proofs.Comparison

/-! # Matching: two schemas of one form

Schemas match if they are written alike at every depth: the same forms, the same names of types and
fields, and related nodes where there are full descriptors. No vocabulary has a part in it. Schemas
that match have descriptors that match, and so outlines that do.

* `Schema.Matches.refl`: a schema with distinct names matches itself.
* `Schema.Matches.describe`: the descriptors of schemas that match.
* `Schema.Matches.outline`: their outlines, if related nodes compare once they have their paths. -/

namespace ShorthandSchema

/-- A node that is given a path; it keeps the path it has if the given one is empty. -/
def Node.placed (path : String) (n : Node) : Node :=
  { n with path := if path = "" then n.path else path }

theorem Node.placed_of_ne {path : String} (h : path ≠ "") (n : Node) :
    n.placed path = { n with path := path } := by
  rw [placed, if_neg h]

theorem Path.child_item_ne (parent : String) : child parent item ≠ "" := by
  unfold child
  split_ifs
  · decide
  · simp [String.append_eq_empty_iff, item]

theorem Path.eq_empty_of_child {parent name : String} (h : child parent name = "") :
    parent = "" ∧ name = "" := by
  unfold child at h
  split_ifs at h with hp
  · exact ⟨hp, h⟩
  · simp [String.append_eq_empty_iff] at h

/-! ### Schemas -/

/-- **Schemas that match**: of one form at every depth, with nodes that are related. Fields go by
their names, and are in the same order unless the order is free; a full descriptor without a map has
no fields. -/
inductive Schema.Matches (free : Prop) (R : Node → Node → Prop) : Schema → Schema → Prop
  | kind (k : Kind) : Matches free R (.kind k) (.kind k)
  | named (name : String) : Matches free R (.named name) (.named name)
  | triple {type : TypeRef} {required : Bool} {sub sub' : Option Schema}
      (hsome : sub.isSome = sub'.isSome) (hsub : ∀ s ∈ sub, ∀ s' ∈ sub', Matches free R s s') :
      Matches free R (.triple type required sub) (.triple type required sub')
  | fields {m m' : OrderedMap Schema} (hnames : Reordered free m.names m'.names)
      (hfields : ∀ f ∈ m.entries, ∀ f' ∈ m'.entries, f.1 = f'.1 → Matches free R f.2 f'.2) :
      Matches free R (.fields m) (.fields m')
  | described {d d' : Descriptor Schema} (hnode : R d.toNode d'.toNode)
      (hsome : d.items.isSome = d'.items.isSome)
      (hitems : ∀ s ∈ d.items, ∀ s' ∈ d'.items, Matches free R s s')
      (hnames : Reordered free (d.fieldList.map (·.1)) (d'.fieldList.map (·.1)))
      (hfields : ∀ f ∈ d.fieldList, ∀ f' ∈ d'.fieldList, f.1 = f'.1 → Matches free R f.2 f'.2) :
      Matches free R (.described d) (.described d')

/-- **Descriptors that match**, of schemas that do. -/
structure Descriptor.Matches (free : Prop) (Q R : Node → Node → Prop) (d d' : Descriptor Schema) :
    Prop where
  node : Q d.toNode d'.toNode
  some : d.items.isSome = d'.items.isSome
  items : ∀ s ∈ d.items, ∀ s' ∈ d'.items, Schema.Matches free R s s'
  names : Reordered free (d.fieldList.map (·.1)) (d'.fieldList.map (·.1))
  fields : ∀ f ∈ d.fieldList, ∀ f' ∈ d'.fieldList, f.1 = f'.1 → Schema.Matches free R f.2 f'.2

namespace Schema

variable {free : Prop} {Q R : Node → Node → Prop} {S S' : Schema}

/-- **A schema with distinct names matches itself.** -/
theorem Matches.refl (hS : S.Distinct) (hR : ∀ n, R n n) : S.Matches free R S := by
  induction hS with
  | kind k => exact .kind k
  | named name => exact .named name
  | triple _ ih =>
    refine .triple rfl fun s hs s' hs' => ?_
    obtain rfl : s = s' := Option.some.inj (hs.symm.trans hs')
    exact ih s hs
  | @fields m hnames _ ih =>
    refine .fields (.same _) fun f hf f' hf' hname => ?_
    obtain rfl := List.inj_on_of_nodup_map hnames hf hf' hname
    exact ih f hf
  | @described d hnames _ _ ihfields ihitems =>
    refine .described (hR _) rfl (fun s hs s' hs' => ?_) (.same _) fun f hf f' hf' hname => ?_
    · obtain rfl : s = s' := Option.some.inj (hs.symm.trans hs')
      exact ihitems s hs
    · obtain rfl := List.inj_on_of_nodup_map (nodup_fieldList hnames) hf hf' hname
      exact ihfields f hf

/-! ### Descriptors -/

theorem Matches.describeTriple {path : String} {k : Kind} {required : Bool}
    {sub sub' : Option Schema} (hself : ∀ n, Q n n) (hsome : sub.isSome = sub'.isSome)
    (hsub : ∀ s ∈ sub, ∀ s' ∈ sub', s.Matches free R s') :
    Corresponds Eq (Descriptor.Matches free Q R) (describeTriple path k required sub)
      (describeTriple path k required sub') := by
  have hnone : Descriptor.Matches free Q R { kind := k, path := path, required := required }
      { kind := k, path := path, required := required } :=
    ⟨hself _, rfl, by simp, .same _, by simp [Descriptor.fieldList]⟩
  rcases isSome_eq_cases hsome with ⟨rfl, rfl⟩ | ⟨s, s', rfl, rfl⟩
  · cases k <;> exact .ok hnone
  have hs := hsub s rfl s' rfl
  cases k with
  | object =>
    cases hs with
    | fields hnames hfields => exact .ok ⟨hself _, rfl, by simp, hnames, hfields⟩
    | kind | named | triple | described => exact .error rfl
  | array =>
    refine .ok ⟨hself _, rfl, fun t ht t' ht' => ?_, .same _, by simp [Descriptor.fieldList]⟩
    cases ht
    cases ht'
    exact hs
  | boolean | integer | number | string | any => exact .ok hnone

/-- **The descriptors of schemas that match.** A full descriptor gives its own node, once it has its
path; the nodes of other forms are the same. -/
theorem Matches.describe (h : S.Matches free R S') (v : Vocabulary) (path : String)
    (hself : ∀ n, Q n n) (hplaced : ∀ n n', R n n' → Q (n.placed path) (n'.placed path)) :
    Corresponds Eq (Descriptor.Matches free Q R) (S.describe v path) (S'.describe v path) := by
  cases h with
  | kind k => exact .ok ⟨hself _, rfl, by simp, .same _, by simp [Descriptor.fieldList]⟩
  | named name =>
    rw [Schema.describe]
    cases v.typeOf path (.name name) with
    | error f => exact .error rfl
    | ok r => exact .ok ⟨hself _, rfl, by simp, .same _, by simp [Descriptor.fieldList]⟩
  | @triple type required sub sub' hsome hsub =>
    rw [Schema.describe, Schema.describe]
    cases v.typeOf path type with
    | error f => exact .error rfl
    | ok r => exact Matches.describeTriple hself hsome hsub
  | fields hnames hfields => exact .ok ⟨hself _, rfl, by simp, hnames, hfields⟩
  | described hnode hsome hitems hnames hfields =>
    exact .ok ⟨hplaced _ _ hnode, hsome, hitems, hnames, hfields⟩

end Schema

/-! ### Outlines -/

theorem Descriptor.matches_outline {C : Comparison} {d d' : Descriptor Schema}
    {o o' : String → Schema → Outline} {moved : List (String × Schema)}
    (hnode : C.node d.toNode d'.toNode) (hsome : d.items.isSome = d'.items.isSome)
    (hitems : ∀ s ∈ d.items, ∀ s' ∈ d'.items,
      (o (Path.child d.path Path.item) s).Matches C (o' (Path.child d'.path Path.item) s'))
    (horder : Reordered C.free d.fieldList moved)
    (hfields : d.kind = .object → List.Forall₂ (fun f f' => f.1 = f'.1 ∧
      (o (Path.child d.path f.1) f.2).Matches C (o' (Path.child d'.path f'.1) f'.2)) moved
        d'.fieldList) :
    (d.outline o).Matches C (d'.outline o') := by
  have hkind : d'.kind = d.kind := Comparison.kind_eq hnode
  cases hk : d.kind with
  | array =>
    rw [outline_of_array hk, outline_of_array (hkind.trans hk)]
    refine .array hnode (by simpa using hsome) fun a ha a' ha' => ?_
    obtain ⟨s, hs, rfl⟩ := Option.map_eq_some_iff.mp ha
    obtain ⟨s', hs', rfl⟩ := Option.map_eq_some_iff.mp ha'
    exact hitems s hs s' hs'
  | object =>
    rw [outline_of_object hk, outline_of_object (hkind.trans hk)]
    obtain ⟨hnames, hbelow⟩ := map_fields_of_forall₂ (P := Outline.Matches C) (hfields hk)
    exact .object hnode (horder.map _) hnames hbelow
  | boolean | integer | number | string | any =>
    have ha : d.kind ≠ .array := by rw [hk]; decide
    have ho : d.kind ≠ .object := by rw [hk]; decide
    rw [outline_of_scalar ha ho, outline_of_scalar (hkind ▸ ha) (hkind ▸ ho)]
    exact .scalar hnode

theorem Descriptor.Matches.outline {C : Comparison} {R : Node → Node → Prop}
    {d d' : Descriptor Schema} (h : d.Matches C.free C.node R d')
    {o o' : String → Schema → Outline}
    (hitems : ∀ s ∈ d.items, ∀ s' ∈ d'.items, s.Matches C.free R s' →
      (o (Path.child d.path Path.item) s).Matches C (o' (Path.child d'.path Path.item) s'))
    (hfields : d.kind = .object → ∀ f ∈ d.fieldList, ∀ f' ∈ d'.fieldList, f.1 = f'.1 →
      f.2.Matches C.free R f'.2 →
        (o (Path.child d.path f.1) f.2).Matches C (o' (Path.child d'.path f'.1) f'.2)) :
    (d.outline o).Matches C (d'.outline o') := by
  obtain ⟨moved, horder, hnames⟩ := h.names.exists_forall₂
  refine Descriptor.matches_outline h.node h.some
    (fun s hs s' hs' => hitems s hs s' hs' (h.items s hs s' hs')) horder fun hk => ?_
  refine (forall₂_and_mem hnames).imp ?_
  rintro f f' ⟨hf, hf', hname⟩
  have hf : f ∈ d.fieldList := horder.perm.mem_iff.mpr hf
  exact ⟨hname, hfields hk f hf f' hf' hname (h.fields f hf f' hf' hname)⟩

namespace Schema.Matches

variable {C : Comparison} {Q R : Node → Node → Prop} {v : Vocabulary} {path : String}

/-- One step from the descriptors to the outlines: the nodes have to compare, and the outlines below
to match. -/
theorem outline_step {S S' : Schema} (hfault : ∀ f, C.fault f f)
    (hpath : ∀ n n', C.node n n' → n.path = n'.path)
    (hdescribe : Corresponds Eq (Descriptor.Matches C.free Q R) (S.describe v path)
      (S'.describe v path))
    (hbelow : ∀ d d', S.describe v path = .ok d → S'.describe v path = .ok d' →
      Q d.toNode d'.toNode → C.node d.toNode d'.toNode ∧
        (∀ s ∈ d.items, ∀ s' ∈ d'.items, s.Matches C.free R s' →
          (s.outline v (Path.child d.path Path.item)).Matches C
            (s'.outline v (Path.child d.path Path.item))) ∧
        (d.kind = .object → ∀ f ∈ d.fieldList, ∀ f' ∈ d'.fieldList, f.1 = f'.1 →
          f.2.Matches C.free R f'.2 →
            (f.2.outline v (Path.child d.path f.1)).Matches C
              (f'.2.outline v (Path.child d.path f.1)))) :
    (S.outline v path).Matches C (S'.outline v path) := by
  rw [outline_eq, outline_eq]
  cases hd : S.describe v path with
  | error f =>
    rw [hd] at hdescribe
    generalize S'.describe v path = x at hdescribe
    cases hdescribe with
    | error hf => exact .fault (hf ▸ hfault f)
  | ok d =>
    rw [hd] at hdescribe
    cases hd' : S'.describe v path with
    | error f => rw [hd'] at hdescribe; cases hdescribe
    | ok d' =>
      rw [hd'] at hdescribe
      cases hdescribe with
      | ok hm =>
        obtain ⟨hnode, hitems, hfields⟩ := hbelow d d' hd hd' hm.node
        have hp : d.path = d'.path := hpath _ _ hnode
        have hm : d.Matches C.free C.node R d' := ⟨hnode, hm.some, hm.items, hm.names, hm.fields⟩
        refine hm.outline (fun s hs s' hs' h => ?_) fun hk f hf f' hf' hname h => ?_
        · rw [← hp]
          exact hitems s hs s' hs' h
        · rw [← hp, ← hname]
          exact hfields hk f hf f' hf' hname h

/-- **The outlines of schemas that match.** At the empty path a full descriptor keeps its own path,
so there its node has to compare as it is. -/
theorem outline (hself : ∀ n, C.node n n) (hfault : ∀ f, C.fault f f)
    (hpath : ∀ n n', C.node n n' → n.path = n'.path)
    (hplaced : ∀ path, path ≠ "" → ∀ n n', R n n' → C.node (n.placed path) (n'.placed path))
    (v : Vocabulary) (path : String) (S : Schema) :
    ∀ {S'}, S.Matches C.free R S' → (path = "" → ∀ n n', R n n' → C.node n n') →
      (S.outline v path).Matches C (S'.outline v path) := by
  induction path, S using Schema.induction v with
  | step path S ih =>
    intro S' hS hempty
    have hat : ∀ n n', R n n' → C.node (n.placed path) (n'.placed path) := by
      intro n n' hn
      by_cases hp : path = ""
      · subst hp
        exact hempty rfl n n' hn
      · exact hplaced path hp n n' hn
    refine outline_step hfault hpath (hS.describe v path hself hat) fun d d' hd _ hnode => ?_
    obtain ⟨ihitem, ihfields⟩ := ih d hd
    -- the path below is only empty if the one above is
    have hbelow : ∀ name, Path.child d.path name = "" → path = "" := by
      intro name hc
      by_contra hp
      have hdp : d.path = path := (describedBy_of_describe hd).path.trans (pathAt_of_ne hp S)
      exact hp (hdp.symm.trans (Path.eq_empty_of_child hc).1)
    exact ⟨hnode, fun s hs s' _ h => ihitem s hs _ h fun hc => hempty (hbelow _ hc),
      fun _ f hf f' _ _ h => ihfields f hf _ h fun hc => hempty (hbelow _ hc)⟩

end Schema.Matches

end ShorthandSchema
