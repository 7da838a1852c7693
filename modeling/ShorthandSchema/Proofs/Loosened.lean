import ShorthandSchema.Proofs.Conformance
import ShorthandSchema.Proofs.Matching
import ShorthandSchema.Proofs.TypeNames

/-! # Loosened schemas: constraints only filter

What comes out of a node is decided by its kind; a constraint can only reject. So a schema can be
loosened at any depth: least bounds are lowered, greatest bounds raised, constraints dropped, and
nodes made optional. What it accepted before is still accepted, with the same output.

* `Node.Loosened.complaints_eq_nil`: a looser node has no new complaints.
* `Outline.Loosened.kept`: a looser outline returns what the outline did.
* `Schema.compile_loosened`: what compiles still does, and accepts at least the same values. -/

namespace ShorthandSchema

/-! ### Bounds -/

/-- **A bound that is loosened**: it is dropped, or replaced by a weaker one. -/
def LooserBound {α : Type} (weaker : α → α → Prop) (bound bound' : Option α) : Prop :=
  ∀ b' ∈ bound', ∃ b ∈ bound, weaker b' b

theorem LooserBound.holds {α : Type} {weaker : α → α → Prop} {bound bound' : Option α}
    (h : LooserBound weaker bound bound') {P : α → Prop} (hP : ∀ b' b, weaker b' b → P b → P b')
    (hbound : ∀ b ∈ bound, P b) : ∀ b' ∈ bound', P b' := by
  intro b' hb'
  obtain ⟨b, hb, hweaker⟩ := h b' hb'
  exact hP b' b hweaker (hbound b hb)

namespace Binary64

/-- **A number is at most another**; NaN is at most itself alone. -/
def AtMost (x y : Binary64) : Prop := x = y ∨ x.less y ∨ x.same y

variable {x y z : Binary64}

theorem AtMost.less_eq_false_right (h : y.AtMost z) (hz : x.less z = false) : x.less y = false := by
  rcases h with rfl | h | h
  · exact hz
  · cases x <;> cases y <;> cases z <;> simp_all [less]
    omega
  · cases x <;> cases y <;> cases z <;> simp_all [less, same]

theorem AtMost.less_eq_false_left (h : x.AtMost y) (hx : x.less z = false) : y.less z = false := by
  rcases h with rfl | h | h
  · exact hx
  · cases x <;> cases y <;> cases z <;> simp_all [less]
    omega
  · cases x <;> cases y <;> cases z <;> simp_all [less, same]

end Binary64

/-! ### Nodes -/

namespace Node

/-- **A node that is loosened**: the same but for constraints that are dropped or replaced by weaker
ones. -/
structure Loosened (n n' : Node) : Prop where
  kind : n'.kind = n.kind
  path : n'.path = n.path
  whole : n'.whole = n.whole
  message : n'.message = n.message
  required : n'.required → n.required
  minLength : LooserBound (· ≤ ·) n.minLength n'.minLength
  maxLength : LooserBound (· ≥ ·) n.maxLength n'.maxLength
  minValue : LooserBound (fun b' b => b'.AtMost b) n.minValue n'.minValue
  maxValue : LooserBound (fun b' b => b.AtMost b') n.maxValue n'.maxValue
  minItems : LooserBound (· ≤ ·) n.minItems n'.minItems
  maxItems : LooserBound (· ≥ ·) n.maxItems n'.maxItems
  value : ∀ e ∈ n'.value, e ∈ n.value
  pattern : ∀ p ∈ n'.pattern, p ∈ n.pattern

namespace Loosened

variable {n n' : Node}

/-- A node without other constraints can be made optional. -/
theorem optional (k : Kind) (path : String) {required required' : Bool}
    (h : required' → required) :
    Loosened { kind := k, path := path, required := required }
      { kind := k, path := path, required := required' } := by
  constructor <;> simp_all [LooserBound]

theorem placed (h : n.Loosened n') (path : String) : (n.placed path).Loosened (n'.placed path) :=
  { h with path := by rw [Node.placed, Node.placed, h.path] }

/-! ### What a looser node accepts -/

theorem wholeNumbers (h : n.Loosened n') : n'.wholeNumbers = n.wholeNumbers := by
  rw [Node.wholeNumbers, Node.wholeNumbers, h.kind, h.whole]

theorem coerced (h : n.Loosened n') (raw : Json) : n'.coerced raw = n.coerced raw := by
  rw [Node.coerced, Node.coerced, h.kind, h.wholeNumbers]

theorem fits (h : n.Loosened n') (hfits : n.Fits) : n'.Fits :=
  fun hk e he => hfits (h.kind.symm.trans hk) e (h.value e he)

theorem numberFits (h : n.Loosened n') {x : Binary64} (hx : n.NumberFits x) : n'.NumberFits x where
  least := h.minValue.holds (fun _ _ hle => hle.less_eq_false_right) hx.least
  most := h.maxValue.holds (fun _ _ hle => hle.less_eq_false_left) hx.most
  expected e he := by
    rw [h.wholeNumbers]
    exact hx.expected e (h.value e he)

theorem textFits (h : n.Loosened n') {s : String} (hs : n.TextFits s) : n'.TextFits s where
  least := h.minLength.holds (fun _ _ hle => hle.trans) hs.least
  most := h.maxLength.holds (fun _ _ hle hb => hb.trans hle) hs.most
  expected e he := hs.expected e (h.value e he)
  pattern p hp := hs.pattern p (h.pattern p hp)

theorem countFits (h : n.Loosened n') {count : Nat} (hc : n.CountFits count) :
    n'.CountFits count where
  least := h.minItems.holds (fun _ _ hle => hle.trans) hc.least
  most := h.maxItems.holds (fun _ _ hle hb => hb.trans hle) hc.most

theorem numberComplaints_eq_nil (h : n.Loosened n') {raw : Json}
    (hc : n.numberComplaints raw = []) : n'.numberComplaints raw = [] := by
  unfold Node.numberComplaints at hc ⊢
  rw [h.wholeNumbers]
  cases hnumber : raw.asNumber? n.wholeNumbers with
  | none => rw [hnumber] at hc; cases hc
  | some c =>
    rw [hnumber] at hc
    exact boundComplaints_eq_nil_iff.mpr (h.numberFits (boundComplaints_eq_nil_iff.mp hc))

theorem arrayComplaints_eq_nil (h : n.Loosened n') {raw : Json}
    (hc : n.arrayComplaints raw = []) : n'.arrayComplaints raw = [] := by
  cases raw with
  | array items =>
    exact arrayComplaints_eq_nil_iff.mpr (h.countFits (arrayComplaints_eq_nil_iff.mp hc))
  | _ => cases hc

theorem booleanComplaints_eq_nil (h : n.Loosened n') {raw : Json}
    (hc : n.booleanComplaints raw = []) : n'.booleanComplaints raw = [] := by
  unfold Node.booleanComplaints at hc ⊢
  split
  · rename_i e he
    rw [Option.mem_def.mp (h.value _ he)] at hc
    exact hc
  · rfl

/-- **A looser node has no new complaints.** -/
theorem complaints_eq_nil (h : n.Loosened n') {raw : Json} (hc : n.complaints raw = []) :
    n'.complaints raw = [] := by
  -- null is the business of the mark alone, any other value that of the kind
  cases hr : raw.isNull with
  | true =>
    obtain rfl := Json.eq_null_of_isNull hr
    rw [complaints_null_eq_nil_iff] at hc ⊢
    rw [Bool.eq_false_iff] at hc ⊢
    exact fun hreq => hc (h.required hreq)
  | false =>
    unfold Node.complaints at hc ⊢
    simp only [hr, Bool.false_eq_true, if_false] at hc ⊢
    rw [h.kind]
    cases hk : n.kind with
    | boolean => rw [hk] at hc; exact h.booleanComplaints_eq_nil hc
    | integer | number => rw [hk] at hc; exact h.numberComplaints_eq_nil hc
    | string =>
      rw [hk] at hc
      exact textComplaints_eq_nil_iff.mpr (h.textFits (textComplaints_eq_nil_iff.mp hc))
    | array => rw [hk] at hc; exact h.arrayComplaints_eq_nil hc
    | object => rw [hk] at hc; exact hc
    | any => rfl

theorem checked (h : n.Loosened n') {raw : Json} {α : Type} {below below' : Except Rejection α}
    {out : α} (hbelow : below = .ok out → below' = .ok out) (hout : n.checked raw below = .ok out) :
    n'.checked raw below' = .ok out := by
  rw [Node.checked_eq_ok_iff] at hout ⊢
  exact ⟨h.complaints_eq_nil hout.1, hbelow hout.2⟩

end Loosened

end Node

/-! ### Computations with more results -/

section Results
variable {ε : Type}

theorem Json.overItems_eq_ok {f g : Json → Except ε Json}
    (h : ∀ x out, f x = .ok out → g x = .ok out) {raw out : Json}
    (hout : raw.overItems f = .ok out) : raw.overItems g = .ok out := by
  cases raw with
  | array items =>
    rw [overItems, map_eq_ok_iff] at hout ⊢
    obtain ⟨outs, houts, hout⟩ := hout
    exact ⟨outs, mapM_eq_ok_of_forall₂ (List.forall₂_same.mpr fun x _ => h x) houts, hout⟩
  | _ => exact hout

theorem Json.overMembers_eq_ok {f g : List (String × Json) → Except ε (List (String × Json))}
    (h : ∀ given outs, f given = .ok outs → g given = .ok outs) {raw out : Json}
    (hout : raw.overMembers f = .ok out) : raw.overMembers g = .ok out := by
  cases raw with
  | object given =>
    rw [overMembers, map_eq_ok_iff] at hout ⊢
    obtain ⟨outs, houts, hout⟩ := hout
    exact ⟨outs, h given outs houts, hout⟩
  | _ => exact hout

end Results

/-! ### Outlines -/

namespace Outline

/-- **An outline that keeps the results of another**: what `o` returns, `o'` does. -/
def Kept (o o' : Outline) : Prop := ∀ raw out, o.eval raw = .ok out → o'.eval raw = .ok out

theorem Kept.evalFields {fields fields' : List (String × Outline)}
    (h : List.Forall₂ (fun f f' => f.1 = f'.1 ∧ f.2.Kept f'.2) fields fields')
    (given outs : List (String × Json)) (houts : evalFields fields given = .ok outs) :
    Outline.evalFields fields' given = .ok outs := by
  rw [evalFields_eq_mapM] at houts ⊢
  refine mapM_eq_ok_of_forall₂ (h.imp ?_) houts
  rintro ⟨name, o⟩ ⟨_, o'⟩ ⟨rfl, hkept⟩ m hm
  obtain ⟨out, hout, rfl⟩ := map_eq_ok_iff.mp hm
  exact map_eq_ok_iff.mpr ⟨out, hkept _ _ hout, rfl⟩

/-- **An outline that is loosened**: of the same shape, with looser nodes. Any outline is looser
than a fault. -/
inductive Loosened : Outline → Outline → Prop
  | fault (f : Fault) (o : Outline) : Loosened (.fault f) o
  | scalar {n n' : Node} (hnode : n.Loosened n') : Loosened (.scalar n) (.scalar n')
  | array {n n' : Node} {item item' : Option Outline} (hnode : n.Loosened n')
      (hsome : item.isSome = item'.isSome) (hitem : ∀ o ∈ item, ∀ o' ∈ item', Loosened o o') :
      Loosened (.array n item) (.array n' item')
  | object {n n' : Node} {fields fields' : List (String × Outline)} (hnode : n.Loosened n')
      (hnames : fields.map (·.1) = fields'.map (·.1))
      (hfields : ∀ p ∈ fields.zip fields', Loosened p.1.2 p.2.2) :
      Loosened (.object n fields) (.object n' fields')

namespace Loosened

variable {o o' : Outline}

/-- **A looser outline has no new faults.** -/
theorem wellFormed (h : o.Loosened o') (hwf : o.WellFormed) : o'.WellFormed := by
  induction h with
  | fault f o => cases hwf
  | scalar hnode =>
    cases hwf with
    | scalar harray hobject hfits =>
      exact .scalar (hnode.kind ▸ harray) (hnode.kind ▸ hobject) (hnode.fits hfits)
  | @array n n' item item' hnode hsome _ ih =>
    cases hwf with
    | array hkind hitem =>
      refine .array (hnode.kind.trans hkind) fun o' ho' => ?_
      obtain ⟨-, rfl⟩ | ⟨o, _, rfl, rfl⟩ := isSome_eq_cases hsome
      · cases ho'
      · exact ih o rfl o' ho' (hitem o rfl)
  | @object n n' fields fields' hnode hnames _ ih =>
    cases hwf with
    | object hkind hfields =>
      refine .object (hnode.kind.trans hkind) fun f' hf' => ?_
      have hboth := forall₂_and_mem
        ((forall₂_fields_iff (P := fun o o' => o.WellFormed → o'.WellFormed)).mpr ⟨hnames, ih⟩)
      obtain ⟨f, -, hf, -, -, hwf⟩ := exists_of_forall₂ hboth.flip hf'
      exact hwf (hfields f hf)

/-- **A looser outline keeps the results.** -/
theorem kept (h : o.Loosened o') (hwf : o.WellFormed) : o.Kept o' := by
  -- a fault returns every value as it is, so only an outline without faults has results to keep
  induction h with
  | fault f o => cases hwf
  | scalar hnode =>
    intro raw out hout
    rw [eval, hnode.coerced]
    exact hnode.checked id hout
  | @array n n' item item' hnode hsome _ ih =>
    cases hwf with
    | array _ hitem =>
      intro raw out hout
      refine hnode.checked (Json.overItems_eq_ok fun x out hx => ?_) hout
      obtain ⟨rfl, rfl⟩ | ⟨o, o', rfl, rfl⟩ := isSome_eq_cases hsome
      · exact hx
      · exact ih o rfl o' rfl (hitem o rfl) x out hx
  | @object n n' fields fields' hnode hnames _ ih =>
    cases hwf with
    | object _ hfields =>
      intro raw out hout
      refine hnode.checked (Json.overMembers_eq_ok (Kept.evalFields ?_)) hout
      refine forall₂_fields_iff.mpr ⟨hnames, fun p hp => ?_⟩
      exact ih p hp (hfields p.1 (List.of_mem_zip hp).1)

end Loosened

end Outline

/-! ### Schemas -/

/-- **A type that is loosened**: a name that marks its node as required can be replaced by the kind
of what stands before the mark. -/
inductive TypeRef.Loosened (v : Vocabulary) : TypeRef → TypeRef → Prop
  | same (type : TypeRef) : Loosened v type type
  | unmarked {stem : String} {k : Kind} (h : v.lookup stem = some k) :
      Loosened v (.name (stem ++ "-required")) (.kind k)

theorem TypeRef.Loosened.typeOf {v : Vocabulary} {type type' : TypeRef} (h : type.Loosened v type')
    {path : String} {k : Kind} {marked : Bool} (ht : v.typeOf path type = .ok (k, marked)) :
    ∃ marked', v.typeOf path type' = .ok (k, marked') ∧ (marked' → marked) := by
  cases h with
  | same => exact ⟨marked, ht, id⟩
  | unmarked hstem =>
    rw [Vocabulary.typeOf_marked hstem] at ht
    cases ht
    exact ⟨false, rfl, fun h => by cases h⟩

/-- **A schema that is loosened**, at any depth: its forms, names of fields and types stay the same,
but nodes can be looser, and required ones optional. -/
inductive Schema.Loosened (v : Vocabulary) : Schema → Schema → Prop
  | kind (k : Kind) : Loosened v (.kind k) (.kind k)
  | named (name : String) : Loosened v (.named name) (.named name)
  | unmarked {stem : String} {k : Kind} (h : v.lookup stem = some k) :
      Loosened v (.named (stem ++ "-required")) (.kind k)
  | triple {type type' : TypeRef} {required required' : Bool} {sub sub' : Option Schema}
      (htype : type.Loosened v type') (hrequired : required' → required)
      (hsome : sub.isSome = sub'.isSome) (hsub : ∀ s ∈ sub, ∀ s' ∈ sub', Loosened v s s') :
      Loosened v (.triple type required sub) (.triple type' required' sub')
  | fields {m m' : OrderedMap Schema} (hnames : m.names = m'.names)
      (hfields : ∀ p ∈ m.entries.zip m'.entries, Loosened v p.1.2 p.2.2) :
      Loosened v (.fields m) (.fields m')
  | described {d d' : Descriptor Schema} (hnode : d.toNode.Loosened d'.toNode)
      (hsome : d.items.isSome = d'.items.isSome)
      (hitems : ∀ s ∈ d.items, ∀ s' ∈ d'.items, Loosened v s s')
      (hnames : d.fieldList.map (·.1) = d'.fieldList.map (·.1))
      (hfields : ∀ p ∈ d.fieldList.zip d'.fieldList, Loosened v p.1.2 p.2.2) :
      Loosened v (.described d) (.described d')

theorem Schema.Loosened.ofForall₂ {v : Vocabulary} {m m' : OrderedMap Schema}
    (h : List.Forall₂ (fun f f' => f.1 = f'.1 ∧ f.2.Loosened v f'.2) m.entries m'.entries) :
    Loosened v (.fields m) (.fields m') :=
  .fields (forall₂_fields_iff.mp h).1 (forall₂_fields_iff.mp h).2

/-- **A descriptor that is loosened**, with the schemas below it. -/
structure Descriptor.Loosened (v : Vocabulary) (d d' : Descriptor Schema) : Prop where
  node : d.toNode.Loosened d'.toNode
  some : d.items.isSome = d'.items.isSome
  items : ∀ s ∈ d.items, ∀ s' ∈ d'.items, Schema.Loosened v s s'
  names : d.fieldList.map (·.1) = d'.fieldList.map (·.1)
  fields : ∀ p ∈ d.fieldList.zip d'.fieldList, Schema.Loosened v p.1.2 p.2.2

theorem Descriptor.Loosened.optional (v : Vocabulary) (k : Kind) (path : String)
    {required required' : Bool} (h : required' → required) :
    Descriptor.Loosened v { kind := k, path := path, required := required }
      { kind := k, path := path, required := required' } :=
  ⟨.optional k path h, rfl, by simp, rfl, by simp [Descriptor.fieldList]⟩

namespace Schema

variable {v : Vocabulary} {path : String} {S S' : Schema}

theorem Loosened.describeTriple {k : Kind} {required required' : Bool} {sub sub' : Option Schema}
    (hrequired : required' → required) (hsome : sub.isSome = sub'.isSome)
    (hsub : ∀ s ∈ sub, ∀ s' ∈ sub', s.Loosened v s') {d : Descriptor Schema}
    (hd : describeTriple path k required sub = .ok d) :
    ∃ d', describeTriple path k required' sub' = .ok d' ∧ d.Loosened v d' := by
  rcases isSome_eq_cases hsome with ⟨rfl, rfl⟩ | ⟨s, s', rfl, rfl⟩
  · cases k <;> cases hd <;> exact ⟨_, rfl, Descriptor.Loosened.optional v _ path hrequired⟩
  have hs := hsub s rfl s' rfl
  cases k with
  | object =>
    -- the form of what is below cannot change: a map of fields stays one
    cases hs with
    | fields hnames hfields =>
      cases hd
      exact ⟨_, rfl, .optional _ path hrequired, rfl, by simp, hnames, hfields⟩
    | kind | named | unmarked | triple | described => cases hd
  | array =>
    cases hd
    refine ⟨_, rfl, .optional _ path hrequired, rfl, fun t ht t' ht' => ?_, rfl,
      by simp [Descriptor.fieldList]⟩
    cases ht
    cases ht'
    exact hs
  | boolean | integer | number | string | any =>
    cases hd
    exact ⟨_, rfl, Descriptor.Loosened.optional v _ path hrequired⟩

/-- **A looser schema has a looser descriptor.** -/
theorem Loosened.describe (h : S.Loosened v S') {d : Descriptor Schema}
    (hd : S.describe v path = .ok d) : ∃ d', S'.describe v path = .ok d' ∧ d.Loosened v d' := by
  cases h with
  | kind k =>
    cases hd
    exact ⟨_, rfl, Descriptor.Loosened.optional v k path id⟩
  | named name =>
    cases ht : v.typeOf path (.name name) with
    | error f => rw [describe_named_of_fault ht] at hd; cases hd
    | ok r =>
      rw [describe_named_of_typeOf ht] at hd
      cases hd
      exact ⟨_, describe_named_of_typeOf ht, Descriptor.Loosened.optional v _ path id⟩
  | @unmarked stem k hstem =>
    rw [describe_named_of_typeOf (Vocabulary.typeOf_marked hstem path)] at hd
    cases hd
    exact ⟨_, rfl, Descriptor.Loosened.optional v k path fun h => by cases h⟩
  | @triple type type' required required' sub sub' htype hrequired hsome hsub =>
    rw [Schema.describe] at hd ⊢
    cases ht : v.typeOf path type with
    | error f => rw [ht] at hd; cases hd
    | ok r =>
      rw [ht] at hd
      obtain ⟨marked', ht', hmarked⟩ := htype.typeOf ht
      rw [ht']
      have hboth : (required' || marked') → (required || r.2) := by
        simp only [Bool.or_eq_true]
        exact Or.imp hrequired hmarked
      exact Loosened.describeTriple hboth hsome hsub hd
  | fields hnames hfields =>
    cases hd
    exact ⟨_, rfl, .optional _ path id, rfl, by simp, hnames, hfields⟩
  | described hnode hsome hitems hnames hfields =>
    cases hd
    exact ⟨_, rfl, hnode.placed path, hsome, hitems, hnames, hfields⟩

end Schema

theorem Descriptor.Loosened.outline {v : Vocabulary} {d d' : Descriptor Schema}
    (h : d.Loosened v d') {o : String → Schema → Outline}
    (hitems : ∀ s ∈ d.items, ∀ path s', s.Loosened v s' → (o path s).Loosened (o path s'))
    (hfields : ∀ f ∈ d.fieldList, ∀ path s', f.2.Loosened v s' →
      (o path f.2).Loosened (o path s')) :
    (d.outline o).Loosened (d'.outline o) := by
  have hkind : d'.kind = d.kind := h.node.kind
  have hpath : d'.path = d.path := h.node.path
  cases hk : d.kind with
  | array =>
    rw [outline_of_array hk, outline_of_array (hkind.trans hk), hpath]
    refine .array h.node (by simpa using h.some) fun a ha a' ha' => ?_
    obtain ⟨s, hs, rfl⟩ := Option.map_eq_some_iff.mp ha
    obtain ⟨s', hs', rfl⟩ := Option.map_eq_some_iff.mp ha'
    exact hitems s hs _ s' (h.items s hs s' hs')
  | object =>
    rw [outline_of_object hk, outline_of_object (hkind.trans hk), hpath]
    have hschemas := (forall₂_fields_iff (P := Schema.Loosened v)).mpr ⟨h.names, h.fields⟩
    have hboth : List.Forall₂ (fun f f' => f.1 = f'.1 ∧
        (o (Path.child d.path f.1) f.2).Loosened (o (Path.child d.path f'.1) f'.2))
        d.fieldList d'.fieldList := by
      refine (forall₂_and_mem hschemas).imp ?_
      rintro f f' ⟨hf, -, hname, hs⟩
      rw [← hname]
      exact ⟨rfl, hfields f hf _ f'.2 hs⟩
    obtain ⟨hnames, hbelow⟩ := map_fields_of_forall₂ (P := Outline.Loosened) hboth
    exact .object h.node hnames hbelow
  | boolean | integer | number | string | any =>
    have ha : d.kind ≠ .array := by rw [hk]; decide
    have ho : d.kind ≠ .object := by rw [hk]; decide
    rw [outline_of_scalar ha ho, outline_of_scalar (hkind ▸ ha) (hkind ▸ ho)]
    exact .scalar h.node

namespace Schema

variable {v : Vocabulary} {path : String} {S S' : Schema}

/-- **A looser schema has a looser outline.** -/
theorem Loosened.outline (v : Vocabulary) (path : String) (S : Schema) :
    ∀ S', S.Loosened v S' → (S.outline v path).Loosened (S'.outline v path) := by
  induction path, S using Schema.induction v with
  | step path S ih =>
    intro S' h
    cases hd : S.describe v path with
    | error f =>
      rw [outline_of_fault hd]
      exact .fault f _
    | ok d =>
      obtain ⟨ihitem, ihfields⟩ := ih d hd
      obtain ⟨d', hd', hl⟩ := h.describe hd
      rw [outline_of_describe hd, outline_of_describe hd']
      exact hl.outline ihitem ihfields

/-! ### Compiled schemas -/

/-- **Constraints only filter.** A schema that is loosened still compiles, and it accepts what it
accepted before, with the same output; so what it rejects now was rejected before. -/
theorem compile_loosened {c : Compiled} (h : S.Loosened v S')
    (hc : (S.compile v path).result = .ok c) :
    ∃ c', (S'.compile v path).result = .ok c' ∧
      (∀ raw out, c.validate raw = .ok out → c'.validate raw = .ok out) ∧
      ∀ raw f', c'.validate raw = .error f' → ∃ f, c.validate raw = .error f := by
  have hwf := wellFormed_of_compile hc
  have hloose := h.outline v path S S'
  obtain ⟨c', hc'⟩ := exists_compile_of_wellFormed (hloose.wellFormed hwf)
  have hkept : ∀ raw out, c.validate raw = .ok out → c'.validate raw = .ok out := by
    intro raw out hout
    rw [validate_eq_eval hc, mapError_eq_ok_iff] at hout
    rw [validate_eq_eval hc', mapError_eq_ok_iff]
    exact hloose.kept hwf raw out hout
  refine ⟨c', hc', hkept, fun raw f' hf' => ?_⟩
  cases hraw : c.validate raw with
  | error f => exact ⟨f, rfl⟩
  | ok out => rw [hkept raw out hraw] at hf'; cases hf'

/-- The schema of orders, with up to five tags and without the marks of required nodes. -/
def looseOrderSchema : Schema :=
  .fields <| .ofList [
    ("id", .kind .integer),
    ("tags", .described
      { kind := .array
        items := some (.kind .string)
        maxItems := some 5
        message := some (.computed fun raw => "Not a list of tags: " ++ raw.text) }),
    ("customer", .triple (.kind .object) false
      (some (.fields (.ofList [("name", .named "string")]))))]

theorem loosened_orderSchema : orderSchema.Loosened .builtin looseOrderSchema := by
  have hid : Loosened .builtin (.named ("int" ++ "-required")) (.kind .integer) :=
    .unmarked (by decide +kernel)
  have htag : Loosened .builtin (.named ("text" ++ "-required")) (.kind .string) :=
    .unmarked (by decide +kernel)
  have hname : Loosened .builtin (.fields (.ofList [("name", .named "string")]))
      (.fields (.ofList [("name", .named "string")])) :=
    .ofForall₂ (.cons ⟨rfl, .named "string"⟩ .nil)
  refine .ofForall₂ (.cons ⟨rfl, hid⟩ (.cons ⟨rfl, ?_⟩ (.cons ⟨rfl, ?_⟩ .nil)))
  · refine .described ?_ rfl (fun s hs s' hs' => ?_) rfl (by simp [Descriptor.fieldList])
    · constructor <;> simp [LooserBound]
    · cases hs
      cases hs'
      exact htag
  · refine .triple (.same _) id rfl fun s hs s' hs' => ?_
    cases hs
    cases hs'
    exact hname

/-- The loosened schema accepts the order with the same output, and also an object without
members. -/
theorem compile_loosened_order :
    orderSchema.Loosened .builtin looseOrderSchema ∧
      ∃ c c', (orderSchema.compile .builtin "order").result = .ok c ∧
        (looseOrderSchema.compile .builtin "order").result = .ok c' ∧
        (∃ out, c.validate order = .ok out ∧ c'.validate order = .ok out ∧
          out.text = "\x7b\"customer\":null,\"id\":7,\"tags\":[\"true\"]\x7d") ∧
        (∃ f, c.validate (.object []) = .error f) ∧
        ∃ out, c'.validate (.object []) = .ok out := by
  obtain ⟨c, hc⟩ := orderSchema_compiles
  obtain ⟨c', hc', hkept, -⟩ := compile_loosened loosened_orderSchema hc
  obtain ⟨out, hout, htext⟩ := validate_order hc
  refine ⟨loosened_orderSchema, c, c', hc, hc', ⟨out, hout, hkept order out hout, htext⟩, ?_, ?_⟩
  · have hrejected : ((orderSchema.outline .builtin "order").eval (.object [])).isOk = false := by
      decide +kernel
    rw [validate_eq_eval hc]
    cases he : (orderSchema.outline .builtin "order").eval (.object []) with
    | error r => exact ⟨_, rfl⟩
    | ok out => rw [he] at hrejected; cases hrejected
  · have haccepted : ((looseOrderSchema.outline .builtin "order").eval (.object [])).isOk := by
      decide +kernel
    rw [validate_eq_eval hc']
    cases he : (looseOrderSchema.outline .builtin "order").eval (.object []) with
    | error r => rw [he] at haccepted; cases haccepted
    | ok out => exact ⟨out, rfl⟩

end Schema

end ShorthandSchema
