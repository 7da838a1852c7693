import ShorthandSchema.Proofs.Matching

/-! # Renamed descriptors: the own paths of full descriptors

A full descriptor has a path of its own, which gives way to the path that its place has. Only the
empty path does not take its place: at an empty root the topmost descriptor keeps its own path, and
if that is empty too, so does the field whose name is empty, and so on.

* `Schema.compile_renamed`: own paths do not matter, as long as they agree at the empty path.
* `Schema.validate_renamed_at_empty`: at the empty path they do matter. -/

namespace ShorthandSchema

/-! ### The same outline -/

/-- The same nodes in the same order. -/
def Comparison.same : Comparison where
  free := False
  node := Eq
  fault := Eq
  failure := Eq
  rules := Node.SameRules.of_eq
  notABoolean h e := by rw [h]
  complaint h raw c := by rw [h]
  anyFault h := h.elim
  anyFailure h := h.elim

theorem Outline.Matches.eq {o o' : Outline} (h : o.Matches .same o') : o = o' := by
  induction h with
  | fault h => exact congrArg _ h
  | scalar hnode => exact congrArg _ hnode
  | @array n n' item item' hnode hsome _ ih =>
    have hn : n = n' := hnode
    rcases isSome_eq_cases hsome with ⟨rfl, rfl⟩ | ⟨o, o', rfl, rfl⟩
    · rw [hn]
    · rw [hn, ih o rfl o' rfl]
  | @object n n' fields moved fields' hnode horder hnames _ ih =>
    have hn : n = n' := hnode
    have hfields : moved = fields' := by
      rw [← List.forall₂_eq_eq_eq]
      exact ((forall₂_fields_iff (P := Eq)).mpr ⟨hnames, ih⟩).imp fun _ _ hf => Prod.ext hf.1 hf.2
    cases horder with
    | same => rw [hn, hfields]
    | moved hfree => exact hfree.elim

/-! ### Own paths -/

theorem Node.SameButPath.placed_eq {n n' : Node} (h : n.SameButPath n') {path : String}
    (hp : path ≠ "") : n.placed path = n'.placed path := by
  rw [placed_of_ne hp, placed_of_ne hp, h]

namespace Schema

variable {v : Vocabulary} {path : String} {S S' : Schema}

/-- **Schemas that are the same but for the own paths** of full descriptors. -/
def SameButPaths (S S' : Schema) : Prop := S.Matches False Node.SameButPath S'

theorem SameButPaths.outline_of_ne (h : S.SameButPaths S') (v : Vocabulary) (hp : path ≠ "") :
    (S.outline v path).Matches .same (S'.outline v path) :=
  Matches.outline (fun _ => rfl) (fun _ => rfl) (fun _ _ hn => congrArg Node.path hn)
    (fun _ hne _ _ hn => hn.placed_eq hne) v path S h fun he => absurd he hp

/-- **Own paths agree at the empty path**: those of the schemas themselves and, in an object whose
path stays empty, those of the fields whose name is empty. -/
inductive AgreeAtEmpty (v : Vocabulary) : Schema → Schema → Prop
  | intro {S S' : Schema} (hpath : S.pathAt "" = S'.pathAt "")
      (hfields : S.pathAt "" = "" → S.type.Denotes v .object →
        ∀ f ∈ S.declared, ∀ f' ∈ S'.declared, f.1 = "" → f'.1 = "" → AgreeAtEmpty v f.2 f'.2) :
      AgreeAtEmpty v S S'

theorem AgreeAtEmpty.outline (h : AgreeAtEmpty v S S') :
    S.SameButPaths S' → (S.outline v "").Matches .same (S'.outline v "") := by
  induction h with
  | @intro S S' hpath _ ih =>
    intro hS
    have hdescribe := hS.describe v "" (Q := Node.SameButPath) (fun _ => rfl) fun _ _ hn => hn
    refine Matches.outline_step (C := .same) (fun _ => rfl) (fun _ _ hn => congrArg Node.path hn)
      hdescribe fun d d' hd hd' hnode => ?_
    have hby := describedBy_of_describe hd
    have hby' := describedBy_of_describe hd'
    have hp : d.path = d'.path := hby.path.trans (hpath.trans hby'.path.symm)
    have hn : d.toNode = d'.toNode := by rw [hnode, ← hp]
    refine ⟨hn, fun s _ s' _ h => SameButPaths.outline_of_ne h v (Path.child_item_ne d.path), ?_⟩
    intro hk f hf f' hf' hname h
    by_cases hc : Path.child d.path f.1 = ""
    · -- only here are own paths asked for once more
      obtain ⟨hdp, hf1⟩ := Path.eq_empty_of_child hc
      have hk' : d'.kind = .object := (congrArg Node.kind hn).symm.trans hk
      have hobject : S.type.Denotes v .object := hk ▸ hby.kind
      rw [hc]
      exact ih (hby.path.symm.trans hdp) hobject f (hby.fields hk ▸ hf) f' (hby'.fields hk' ▸ hf')
        hf1 (hname.symm.trans hf1) h
    · exact SameButPaths.outline_of_ne h v hc

/-- **The own paths of full descriptors do not matter**, since every place has a path of its own. At
the empty path, which takes no place, they have to agree. -/
theorem compile_renamed (h : S.SameButPaths S') (hempty : path = "" → AgreeAtEmpty v S S') :
    S.compile v path = S'.compile v path := by
  refine compile_eq_of_outline_eq (Outline.Matches.eq ?_)
  by_cases hp : path = ""
  · subst hp
    exact (hempty rfl).outline h
  · exact h.outline_of_ne v hp

/-! ### Labels -/

/-- A required string, in a descriptor with a path of its own. -/
def label (own : String) : Schema := .described { kind := .string, path := own, required := true }

/-- Two labels; the first is a field with an empty name. -/
def labels (first second : String) : Schema :=
  .fields (.ofList [("", label first), ("note", label second)])

theorem sameButPaths_labels (first second first' second' : String) :
    (labels first second).SameButPaths (labels first' second') := by
  have hlabel : ∀ own own', (label own).Matches False Node.SameButPath (label own') :=
    fun _ _ => .described rfl rfl (by simp) (.same _) (by simp [Descriptor.fieldList])
  refine .fields (.same _) fun f hf f' hf' _ => ?_
  have hf := OrderedMap.mem_ofList hf
  have hf' := OrderedMap.mem_ofList hf'
  simp only [List.mem_cons, List.not_mem_nil, or_false] at hf hf'
  rcases hf with rfl | rfl <;> rcases hf' with rfl | rfl <;> exact hlabel _ _

theorem agreeAtEmpty_labels (v : Vocabulary) (first second second' : String) :
    AgreeAtEmpty v (labels first second) (labels first second') := by
  refine .intro rfl fun _ _ f hf f' hf' hname hname' => ?_
  have hf := OrderedMap.mem_ofList hf
  have hf' := OrderedMap.mem_ofList hf'
  simp only [List.mem_cons, List.not_mem_nil, or_false] at hf hf'
  rcases hf with rfl | rfl
  · rcases hf' with rfl | rfl
    · exact .intro rfl fun _ _ f hf => absurd hf List.not_mem_nil
    · simp at hname'
  · simp at hname

theorem exists_compile_labels :
    ∃ c, ((labels "title" "a").compile .builtin "").result = .ok c ∧
      c.validate (.object []) =
        .error ⟨.requireField, "title", "Required field is missing or null"⟩ := by
  have hrun : ((labels "title" "a").compile .builtin "").result.toOption.map
      (fun c => (c.validate (.object [])).map fun _ => ()) =
        some (.error ⟨.requireField, "title", "Required field is missing or null"⟩) := by
    decide +kernel
  exact exists_rejected_of_run hrun

theorem compile_renamed_labels :
    ∃ c, (labels "title" "a").SameButPaths (labels "title" "b") ∧
      AgreeAtEmpty .builtin (labels "title" "a") (labels "title" "b") ∧
      ((labels "title" "a").compile .builtin "").result = .ok c ∧
      ((labels "title" "b").compile .builtin "").result = .ok c ∧
      c.validate (.object []) =
        .error ⟨.requireField, "title", "Required field is missing or null"⟩ := by
  have hsame := sameButPaths_labels "title" "a" "title" "b"
  have hempty := agreeAtEmpty_labels .builtin "title" "a" "b"
  have hboth : (labels "title" "a").compile .builtin "" =
      (labels "title" "b").compile .builtin "" := compile_renamed hsame fun _ => hempty
  obtain ⟨c, hc, hval⟩ := exists_compile_labels
  exact ⟨c, hsame, hempty, hc, by rw [← hboth, hc], hval⟩

/-- **At the empty path an own path is reported**: there a missing label is missed under its own
path, or under the empty path if it has none. -/
theorem validate_renamed_at_empty :
    (labels "title" "a").SameButPaths (labels "" "a") ∧
      (labels "title" "a").pathAt "" = (labels "" "a").pathAt "" ∧
      ∃ c c', ((labels "title" "a").compile .builtin "").result = .ok c ∧
        ((labels "" "a").compile .builtin "").result = .ok c' ∧
        c.validate (.object []) =
          .error ⟨.requireField, "title", "Required field is missing or null"⟩ ∧
        c'.validate (.object []) =
          .error ⟨.requireField, "", "Required field is missing or null"⟩ := by
  have hrun : ((labels "" "a").compile .builtin "").result.toOption.map
      (fun c => (c.validate (.object [])).map fun _ => ()) =
        some (.error ⟨.requireField, "", "Required field is missing or null"⟩) := by
    decide +kernel
  obtain ⟨c, hc, hval⟩ := exists_compile_labels
  obtain ⟨c', hc', hval'⟩ := exists_rejected_of_run hrun
  exact ⟨sameButPaths_labels _ _ _ _, rfl, c, c', hc, hc', hval, hval'⟩

end Schema

end ShorthandSchema
