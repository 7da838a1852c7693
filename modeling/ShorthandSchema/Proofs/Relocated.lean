import ShorthandSchema.Proofs.Matching

/-! # Relocated schemas: one schema below two roots

The same schema can be compiled below several roots. Everything that is reached has a path that
starts with that of the root, and what follows does not depend on the root; paths decide nothing, so
faults and failures are the same but for the beginning of their paths.

* `Schema.describe_withPath`: the descriptor of a schema at another path.
* `Schema.compile_relocated`: a schema compiles and validates alike below all roots. -/

namespace ShorthandSchema

/-- **Paths of one place below the roots `p` and `q`**: they go on in the same way, if at all with a
dot. -/
def Path.Moved (p q path path' : String) : Prop :=
  ∃ tail, (tail = "" ∨ ∃ rest, tail = "." ++ rest) ∧ path = p ++ tail ∧ path' = q ++ tail

namespace Path.Moved

variable {p q path path' : String}

theorem root (p q : String) : Moved p q p q :=
  ⟨"", Or.inl rfl, String.append_empty.symm, String.append_empty.symm⟩

theorem ne_left (h : Moved p q path path') (hp : p ≠ "") : path ≠ "" := by
  obtain ⟨tail, -, rfl, -⟩ := h
  simp [String.append_eq_empty_iff, hp]

theorem ne_right (h : Moved p q path path') (hq : q ≠ "") : path' ≠ "" := by
  obtain ⟨tail, -, -, rfl⟩ := h
  simp [String.append_eq_empty_iff, hq]

theorem child (h : Moved p q path path') (hp : path ≠ "") (hp' : path' ≠ "") (name : String) :
    Moved p q (Path.child path name) (Path.child path' name) := by
  obtain ⟨tail, ht, rfl, rfl⟩ := h
  rw [child_of_ne hp, child_of_ne hp']
  refine ⟨tail ++ "." ++ name, Or.inr ?_, ?_, ?_⟩
  · rcases ht with rfl | ⟨rest, rfl⟩
    · exact ⟨name, by simp⟩
    · exact ⟨rest ++ "." ++ name, by simp [String.append_assoc]⟩
  · simp [String.append_assoc]
  · simp [String.append_assoc]

end Path.Moved

/-! ### Other paths -/

/-- A fault at another path. -/
def Fault.withPath (path : String) : Fault → Fault
  | unsupportedType typeName _ => unsupportedType typeName path
  | invalidSubschema _ reason => invalidSubschema path reason
  | invalidConstraint _ reason => invalidConstraint path reason

/-- The descriptor of a node at another path. -/
def Descriptor.withPath {σ : Type} (path : String) (d : Descriptor σ) : Descriptor σ :=
  { d with path := path }

theorem Fault.path_withPath (path : String) (f : Fault) : (f.withPath path).path = path := by
  cases f <;> rfl

/-- Faults that are the same but for the root of their paths. -/
def Fault.Moved (p q : String) (f f' : Fault) : Prop :=
  f' = f.withPath f'.path ∧ Path.Moved p q f.path f'.path

/-- Failures that are the same but for the root of their paths. -/
def Failure.Moved (p q : String) (f f' : Failure) : Prop :=
  f' = { f with path := f'.path } ∧ Path.Moved p q f.path f'.path

/-- Nodes of one place below two roots. -/
def Comparison.moved (p q : String) : Comparison where
  free := False
  node n n' := n.SameButPath n' ∧ Path.Moved p q n.path n'.path
  fault := Fault.Moved p q
  failure := Failure.Moved p q
  rules h := h.1.sameRules
  notABoolean h e := ⟨by rw [h.1]; rfl, h.2⟩
  complaint h raw c := ⟨by rw [h.1]; rfl, h.2⟩
  anyFault h := h.elim
  anyFailure h := h.elim

namespace Schema

variable {path path' : String}

theorem typeOf_withPath (v : Vocabulary) (path path' : String) (type : TypeRef) :
    v.typeOf path' type = (v.typeOf path type).mapError (Fault.withPath path') := by
  cases type with
  | kind k => rfl
  | name name =>
    rw [Vocabulary.typeOf, Vocabulary.typeOf]
    cases v.lookup (splitMark name).1 <;> rfl

theorem describeTriple_withPath (path path' : String) (k : Kind) (required : Bool)
    (sub : Option Schema) :
    describeTriple path' k required sub =
      ((describeTriple path k required sub).map (Descriptor.withPath path')).mapError
        (Fault.withPath path') := by
  cases k with
  | object =>
    cases sub with
    | none => rfl
    | some s => cases s <;> rfl
  | array => cases sub <;> rfl
  | boolean | integer | number | string | any => rfl

theorem describe_withPath (v : Vocabulary) (hp : path ≠ "") (hp' : path' ≠ "") (S : Schema) :
    S.describe v path' =
      ((S.describe v path).map (Descriptor.withPath path')).mapError (Fault.withPath path') := by
  cases S with
  | kind k => rfl
  | named name =>
    rw [describe, describe, typeOf_withPath v path path']
    cases v.typeOf path (.name name) <;> rfl
  | triple type required sub =>
    rw [describe, describe, typeOf_withPath v path path']
    cases v.typeOf path type with
    | error f => rfl
    | ok r => exact describeTriple_withPath path path' r.1 (required || r.2) sub
  | fields m => rfl
  | described d =>
    rw [describe, describe, if_neg hp, if_neg hp']
    rfl

theorem path_of_describe_eq_error {v : Vocabulary} {S : Schema} {f : Fault}
    (h : S.describe v path = .error f) : f.path = S.pathAt path := by
  rcases describe_cases v path S with ⟨d, hd, -⟩ | ⟨g, hg, hill, -⟩
  · cases hd.symm.trans h
  · cases hg.symm.trans h
    cases hill <;> rfl

/-- **A schema reaches the same nodes below two roots**, each at its place. -/
theorem outline_moved (v : Vocabulary) {p q : String} (hp : p ≠ "") (hq : q ≠ "") (path : String)
    (S : Schema) :
    ∀ {path'}, Path.Moved p q path path' →
      (S.outline v path).Matches (.moved p q) (S.outline v path') := by
  induction path, S using Schema.induction v with
  | step path S ih =>
    intro path' hmoved
    have hne := hmoved.ne_left hp
    have hne' := hmoved.ne_right hq
    rw [outline_eq v path' S, describe_withPath v hne hne', outline_eq]
    cases hd : S.describe v path with
    | error f =>
      have hf : f.path = path := (path_of_describe_eq_error hd).trans (pathAt_of_ne hne S)
      refine .fault ⟨?_, ?_⟩
      · rw [Fault.path_withPath]
      · rw [Fault.path_withPath, hf]
        exact hmoved
    | ok d =>
      obtain ⟨ihitem, ihfields⟩ := ih d hd
      have hdp : d.path = path :=
        (describedBy_of_describe hd).path.trans (pathAt_of_ne hne S)
      have hbelow : ∀ name, Path.Moved p q (Path.child d.path name) (Path.child path' name) := by
        intro name
        rw [hdp]
        exact hmoved.child hne hne' name
      change (d.outline (outline v)).Matches _ ((d.withPath path').outline (outline v))
      refine Descriptor.matches_outline ⟨rfl, ?_⟩ rfl ?_ (.same _) ?_
      · rw [hdp]
        exact hmoved
      · intro s hs s' hs'
        obtain rfl : s = s' := Option.some.inj (hs.symm.trans hs')
        exact ihitem s hs _ (hbelow Path.item)
      · intro _
        exact List.forall₂_same.mpr fun f hf => ⟨rfl, ihfields f hf _ (hbelow f.1)⟩

/-- **A schema can be relocated.** Below two roots it compiles or has the same fault, and then the
same comes out or there is the same failure. The paths of faults and failures start with the root
and go on in the same way. -/
theorem compile_relocated (v : Vocabulary) (S : Schema) {p q : String} (hp : p ≠ "")
    (hq : q ≠ "") :
    Corresponds (Fault.Moved p q)
      (fun c c' => ∀ raw, Corresponds (Failure.Moved p q) Eq (c.validate raw) (c'.validate raw))
      (S.compile v p).result (S.compile v q).result :=
  corresponds_compile (outline_moved v hp hq p S (.root p q)) fun h => h.elim

theorem compile_relocated_order :
    ∃ c c', "order" ≠ "" ∧ "cart" ≠ "" ∧ (orderSchema.compile .builtin "order").result = .ok c ∧
      (orderSchema.compile .builtin "cart").result = .ok c' ∧
      c.validate (.object []) =
        .error ⟨.requireField, "order.id", "Required field is missing or null"⟩ ∧
      c'.validate (.object []) =
        .error ⟨.requireField, "cart.id", "Required field is missing or null"⟩ := by
  have hrun : (orderSchema.compile .builtin "order").result.toOption.map
      (fun c => (c.validate (.object [])).map fun _ => ()) =
        some (.error ⟨.requireField, "order.id", "Required field is missing or null"⟩) := by
    decide +kernel
  have hp : "order" ≠ "" := by decide
  have hq : "cart" ≠ "" := by decide
  have hboth := compile_relocated .builtin orderSchema hp hq
  obtain ⟨c, hc, hval⟩ := exists_rejected_of_run hrun
  obtain ⟨c', hc'⟩ := hboth.exists_ok_iff.mp ⟨c, hc⟩
  rw [hc, hc'] at hboth
  cases hboth with
  | ok hall =>
    have hraw := hall (.object [])
    rw [hval] at hraw
    cases hval' : c'.validate (.object []) with
    | ok out => rw [hval'] at hraw; cases hraw
    | error f =>
      rw [hval'] at hraw
      cases hraw with
      | error hf =>
        obtain ⟨hsame, tail, -, hpath, hpath'⟩ := hf
        have htail : tail = ".id" := by
          have hsplit : "order" ++ ".id" = "order" ++ tail := hpath
          exact (String.append_right_inj "order").mp hsplit.symm
        refine ⟨c, c', hp, hq, hc, hc', hval, ?_⟩
        rw [hval', hsame, hpath', htail]
        rfl

end Schema

end ShorthandSchema
