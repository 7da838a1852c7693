import ShorthandSchema.Proofs.Evaluation
import ShorthandSchema.Proofs.Faults
import ShorthandSchema.Proofs.Members

/-! # Comparison: two outlines of one shape

Two outlines are compared node by node. Nodes that stand in the same place have the same rules, so
that only their paths and messages can differ; what this means for faults and failures is part of a
comparison. If the fields of objects can be in another order, nothing is asked of faults and
failures, since another node can be the first to complain.

* `Outline.Matches.eval`: outlines that match are evaluated alike, `Outline.Matches.build`: they are
  compiled alike.
* `Schema.corresponds_compile`: schemas whose outlines match compile and validate alike. -/

namespace ShorthandSchema

/-! ### Lists in another order -/

/-- **A list in the same order**, or in any if the order is free. -/
inductive Reordered {α : Type} (free : Prop) : List α → List α → Prop
  | same (l : List α) : Reordered free l l
  | moved {l l' : List α} (hfree : free) (h : l.Perm l') : Reordered free l l'

namespace Reordered

variable {α β γ : Type} {free : Prop}

theorem perm {l l' : List α} (h : Reordered free l l') : l.Perm l' := by
  cases h with
  | same => exact .refl _
  | moved _ h => exact h

theorem map {l l' : List α} (h : Reordered free l l') (f : α → β) :
    Reordered free (l.map f) (l'.map f) := by
  cases h with
  | same => exact .same _
  | moved hfree h => exact .moved hfree (h.map f)

theorem exists_forall₂ {f : α → γ} {g : β → γ} {l : List α} {l' : List β}
    (h : Reordered free (l.map f) (l'.map g)) :
    ∃ m, Reordered free l m ∧ List.Forall₂ (fun a b => f a = g b) m l' := by
  generalize hl : l.map f = keys at h
  generalize hl' : l'.map g = keys' at h
  cases h with
  | same => exact ⟨l, .same l, map_eq_map_iff_forall₂.mp (hl.trans hl'.symm)⟩
  | moved hfree hperm =>
    subst hl hl'
    have hself : List.Forall₂ (fun c a => f a = c) (l.map f) l :=
      List.forall₂_map_left_iff.mpr (List.forall₂_same.mpr fun _ _ => rfl)
    obtain ⟨m, hm, hlm⟩ := List.perm_comp_forall₂ hperm.symm hself
    exact ⟨m, .moved hfree hlm.symm, (List.forall₂_map_left_iff.mp hm).flip⟩

end Reordered

theorem forall₂_fields_iff {α β : Type} {P : α → β → Prop} {l : List (String × α)}
    {l' : List (String × β)} :
    List.Forall₂ (fun f f' => f.1 = f'.1 ∧ P f.2 f'.2) l l' ↔
      l.map (·.1) = l'.map (·.1) ∧ ∀ p ∈ l.zip l', P p.1.2 p.2.2 := by
  rw [map_eq_map_iff_forall₂, List.forall₂_iff_zip, List.forall₂_iff_zip]
  constructor
  · rintro ⟨hlen, h⟩
    exact ⟨⟨hlen, fun hp => (h hp).1⟩, fun p hp => (h hp).2⟩
  · rintro ⟨⟨hlen, hname⟩, h⟩
    exact ⟨hlen, fun hp => ⟨hname hp, h _ hp⟩⟩

theorem map_fields_of_forall₂ {α β γ δ : Type} {P : γ → δ → Prop} {l : List (String × α)}
    {l' : List (String × β)} {o : String × α → γ} {o' : String × β → δ}
    (h : List.Forall₂ (fun f f' => f.1 = f'.1 ∧ P (o f) (o' f')) l l') :
    (l.map fun f => (f.1, o f)).map (·.1) = (l'.map fun f => (f.1, o' f)).map (·.1) ∧
      ∀ p ∈ (l.map fun f => (f.1, o f)).zip (l'.map fun f => (f.1, o' f)), P p.1.2 p.2.2 := by
  refine forall₂_fields_iff.mp ?_
  rw [List.forall₂_map_left_iff, List.forall₂_map_right_iff]
  exact h

/-! ### Nodes -/

/-- Nodes that differ in their paths and messages at most. -/
def Node.SameRules (n n' : Node) : Prop := n' = { n with path := n'.path, message := n'.message }

/-- Nodes that differ in their paths at most. -/
def Node.SameButPath (n n' : Node) : Prop := n' = { n with path := n'.path }

theorem Node.SameRules.of_eq {n n' : Node} (h : n = n') : n.SameRules n' := by
  subst h
  rfl

theorem Node.SameButPath.sameRules {n n' : Node} (h : n.SameButPath n') : n.SameRules n' := by
  rw [h]
  rfl

/-- **How nodes compare**, and what follows for their faults and failures. -/
structure Comparison where
  /-- Whether the fields of an object can be in another order. -/
  free : Prop
  node : Node → Node → Prop
  fault : Fault → Fault → Prop
  failure : Failure → Failure → Prop
  /-- Only the paths and the messages of nodes can differ. -/
  rules {n n' : Node} (h : node n n') : n.SameRules n'
  notABoolean {n n' : Node} (h : node n n') (e : Json) : fault (n.notABoolean e) (n'.notABoolean e)
  complaint {n n' : Node} (h : node n n') (raw : Json) (c : Complaint) :
    failure (n.site.failure raw c) (n'.site.failure raw c)
  anyFault (h : free) (f f' : Fault) : fault f f'
  anyFailure (h : free) (f f' : Failure) : failure f f'

namespace Comparison

variable {C : Comparison} {n n' : Node}

/-- How the rejections compare that are reported as failures. -/
def rejection (C : Comparison) (r r' : Rejection) : Prop := C.failure r.failure r'.failure

theorem complaints_eq (h : C.node n n') (raw : Json) : n'.complaints raw = n.complaints raw := by
  rw [C.rules h]
  rfl

theorem coerced_eq (h : C.node n n') (raw : Json) : n'.coerced raw = n.coerced raw := by
  rw [C.rules h]
  rfl

theorem kind_eq (h : C.node n n') : n'.kind = n.kind := by rw [C.rules h]

theorem corresponds_checked {α : Type} {A : α → α → Prop} {R : Rejection → Rejection → Prop}
    (h : C.node n n') (raw : Json) (hr : ∀ c, R ⟨n, raw, c⟩ ⟨n', raw, c⟩)
    {below below' : Except Rejection α} (hb : Corresponds R A below below') :
    Corresponds R A (n.checked raw below) (n'.checked raw below') := by
  unfold Node.checked
  rw [complaints_eq h]
  cases (n.complaints raw).head? with
  | none => exact hb
  | some c => exact .error (hr c)

theorem corresponds_scalarRule? (h : C.node n n') :
    Corresponds C.fault Eq n.scalarRule? n'.scalarRule? := by
  have hvalue : n'.value = n.value := by rw [C.rules h]
  have hnumber : n'.numberRule = n.numberRule := by rw [C.rules h]; rfl
  have hstring : n'.stringRule = n.stringRule := by rw [C.rules h]; rfl
  unfold Node.scalarRule? Node.booleanRule?
  rw [kind_eq h, hvalue, hnumber, hstring]
  cases n.kind with
  | boolean =>
    cases n.value with
    | none => exact .ok rfl
    | some e =>
      cases e with
      | bool b => exact .ok rfl
      | _ => exact .error (C.notABoolean h _)
  | integer | number | string | array | object | any => exact .ok rfl

end Comparison

/-! ### Outlines -/

theorem isSome_eq_cases {α β : Type} {a : Option α} {b : Option β} (h : a.isSome = b.isSome) :
    a = none ∧ b = none ∨ ∃ x y, a = some x ∧ b = some y := by
  cases a with
  | none =>
    cases b with
    | none => exact Or.inl ⟨rfl, rfl⟩
    | some y => cases h
  | some x =>
    cases b with
    | none => cases h
    | some y => exact Or.inr ⟨x, y, rfl, rfl⟩

/-- **Outlines that match**: of one shape, with nodes that compare. -/
inductive Outline.Matches (C : Comparison) : Outline → Outline → Prop
  | fault {f f' : Fault} (h : C.fault f f') : Matches C (.fault f) (.fault f')
  | scalar {n n' : Node} (hnode : C.node n n') : Matches C (.scalar n) (.scalar n')
  | array {n n' : Node} {item item' : Option Outline} (hnode : C.node n n')
      (hsome : item.isSome = item'.isSome) (hitem : ∀ o ∈ item, ∀ o' ∈ item', Matches C o o') :
      Matches C (.array n item) (.array n' item')
  | object {n n' : Node} {fields moved fields' : List (String × Outline)} (hnode : C.node n n')
      (horder : Reordered C.free fields moved) (hnames : moved.map (·.1) = fields'.map (·.1))
      (hfields : ∀ p ∈ moved.zip fields', Matches C p.1.2 p.2.2) :
      Matches C (.object n fields) (.object n' fields')

/-- **Nodes in one place** of two outlines: both on top, or in one place below the items of two
arrays, or below fields that have the same position in two objects. -/
inductive Outline.SamePlace : Outline → Outline → Node → Node → Prop
  | top {o o' : Outline} {n n' : Node} (hn : o.node? = some n) (hn' : o'.node? = some n') :
      SamePlace o o' n n'
  | item {n n' m m' : Node} {o o' : Outline} (h : SamePlace o o' m m') :
      SamePlace (.array n (some o)) (.array n' (some o')) m m'
  | field {n n' m m' : Node} {fields fields' : List (String × Outline)}
      {p : (String × Outline) × (String × Outline)} (hp : p ∈ fields.zip fields')
      (h : SamePlace p.1.2 p.2.2 m m') : SamePlace (.object n fields) (.object n' fields') m m'

/-- **Rejections of one value for one reason**, by nodes in one place that compare. -/
structure Rejection.Alike (C : Comparison) (o o' : Outline) (r r' : Rejection) : Prop where
  place : Outline.SamePlace o o' r.node r'.node
  node : C.node r.node r'.node
  received : r'.received = r.received
  complaint : r'.complaint = r.complaint

theorem Rejection.Alike.rejection {C : Comparison} {o o' : Outline} {r r' : Rejection}
    (h : r.Alike C o o' r') : C.rejection r r' := by
  obtain ⟨-, hnode, hreceived, hcomplaint⟩ := h
  rw [Comparison.rejection, failure, failure, hreceived, hcomplaint]
  exact C.complaint hnode _ _

theorem Json.corresponds_overItems {ε δ : Type} {F : ε → δ → Prop} {f : Json → Except ε Json}
    {g : Json → Except δ Json} (h : ∀ x, Corresponds F Eq (f x) (g x)) (raw : Json) :
    Corresponds F Eq (raw.overItems f) (raw.overItems g) := by
  cases raw with
  | array items =>
    refine (Corresponds.mapM (List.forall₂_same.mpr fun x _ => h x)).map fun outs outs' ho => ?_
    rw [List.forall₂_eq_eq_eq] at ho
    rw [ho]
  | _ => exact .ok rfl

theorem Json.map_ofMembers {ε : Type} (x : Except ε (List (String × Json))) :
    x.map ofMembers = (x.map (insertAll · [])).map object := by
  cases x <;> rfl

namespace Outline

section Fields
variable {C : Comparison} {fields moved fields' : List (String × Outline)}

/-- Fields with distinct names leave the same members behind in any order. -/
theorem map_insertAll_evalFields (hperm : fields.Perm moved) (hnames : (fields.map (·.1)).Nodup)
    {given base out : List (String × Json)}
    (h : (evalFields fields given).map (Json.insertAll · base) = .ok out) :
    (evalFields moved given).map (Json.insertAll · base) = .ok out := by
  obtain ⟨outs, houts, rfl⟩ := map_eq_ok_iff.mp h
  rw [← names_of_evalFields houts] at hnames
  rw [evalFields_eq_mapM] at houts
  obtain ⟨outs', houts', hp⟩ := exists_mapM_of_perm hperm houts
  rw [evalFields_eq_mapM, houts']
  exact congrArg Except.ok (Json.insertAll_perm hnames hp base).symm

theorem corresponds_evalFields {R : Rejection → Rejection → Prop}
    (hany : C.free → ∀ r r', R r r') (horder : Reordered C.free fields moved)
    (hdistinct : C.free → (fields.map (·.1)).Nodup)
    (hnames : moved.map (·.1) = fields'.map (·.1))
    (hfields : ∀ p ∈ moved.zip fields', ∀ raw, Corresponds R Eq (p.1.2.eval raw) (p.2.2.eval raw))
    (given base : List (String × Json)) :
    Corresponds R Eq ((evalFields fields given).map (Json.insertAll · base))
      ((evalFields fields' given).map (Json.insertAll · base)) := by
  have hsame : Corresponds R Eq ((evalFields moved given).map (Json.insertAll · base))
      ((evalFields fields' given).map (Json.insertAll · base)) := by
    have hboth := forall₂_fields_iff
      (P := fun o o' => ∀ raw, Corresponds R Eq (o.eval raw) (o'.eval raw)).mpr
        ⟨hnames, hfields⟩
    rw [evalFields_eq_mapM, evalFields_eq_mapM]
    refine Corresponds.map (A := List.Forall₂ Eq) (.mapM (hboth.imp ?_)) ?_
    · rintro f f' ⟨hname, hf⟩
      rw [hname]
      exact (hf _).map fun _ _ ho => by rw [ho]
    · intro outs outs' ho
      rw [List.forall₂_eq_eq_eq] at ho
      rw [ho]
  cases horder with
  | same => exact hsame
  | moved hfree hperm =>
    have hnames := hdistinct hfree
    have hnames' : (moved.map (·.1)).Nodup := (hperm.map _).nodup_iff.mp hnames
    refine .of_eq_ok_iff (hany hfree) fun out => ?_
    rw [← hsame.eq_ok_iff]
    exact ⟨map_insertAll_evalFields hperm hnames, map_insertAll_evalFields hperm.symm hnames'⟩

theorem corresponds_buildFields (horder : Reordered C.free fields moved)
    (hnames : moved.map (·.1) = fields'.map (·.1))
    (hfields : ∀ p ∈ moved.zip fields',
      Corresponds C.fault (fun _ _ => True) p.1.2.build.result p.2.2.build.result) :
    Corresponds C.fault (fun _ _ => True) (buildFields fields).result
      (buildFields fields').result := by
  have hsame : Corresponds C.fault (fun _ _ => True) (buildFields moved).result
      (buildFields fields').result := by
    have hboth := forall₂_fields_iff
      (P := fun o o' => Corresponds C.fault (fun _ _ => True) o.build.result o'.build.result).mpr
        ⟨hnames, hfields⟩
    rw [result_buildFields, result_buildFields]
    refine (Corresponds.mapM (B := fun _ _ => True) (hboth.imp ?_)).imp fun _ _ _ => trivial
    rintro f f' ⟨-, hf⟩
    exact hf.map fun _ _ _ => trivial
  cases horder with
  | same => exact hsame
  | moved hfree hperm =>
    refine .of_exists_ok_iff (C.anyFault hfree) ?_ fun _ _ _ _ => trivial
    rw [← hsame.exists_ok_iff, result_buildFields, result_buildFields, exists_mapM_eq_ok_iff,
      exists_mapM_eq_ok_iff]
    exact forall_congr' fun f => imp_congr_left hperm.mem_iff

end Fields

namespace Matches

variable {C : Comparison} {o o' : Outline}

/-- The own checks of the topmost nodes are alike, so what is below decides. -/
theorem corresponds_checked_top {n n' : Node} (hn : o.node? = some n) (hn' : o'.node? = some n')
    (hnode : C.node n n') (raw : Json) {below below' : Except Rejection Json}
    (hbelow : Corresponds (fun r r' => C.free ∨ r.Alike C o o' r') Eq below below') :
    Corresponds (fun r r' => C.free ∨ r.Alike C o o' r') Eq (n.checked raw below)
      (n'.checked raw below') :=
  C.corresponds_checked hnode raw (fun _ => Or.inr ⟨.top hn hn', hnode, rfl, rfl⟩) hbelow

/-- **Outlines that match are evaluated alike**: the same comes out, or rejections of one value by
nodes in one place. In another order, another node can be the first to reject. -/
theorem eval_alike (h : o.Matches C o') : (C.free → o.Distinct) →
    ∀ raw, Corresponds (fun r r' => C.free ∨ r.Alike C o o' r') Eq (o.eval raw) (o'.eval raw) := by
  induction h with
  | fault => exact fun _ _ => .ok rfl
  | scalar hnode =>
    intro _ raw
    rw [Outline.eval, Outline.eval, C.coerced_eq hnode]
    exact corresponds_checked_top rfl rfl hnode raw (.ok rfl)
  | @array n n' item item' hnode hsome _ ih =>
    intro hd raw
    refine corresponds_checked_top rfl rfl hnode raw (Json.corresponds_overItems (fun x => ?_) raw)
    rcases isSome_eq_cases hsome with ⟨rfl, rfl⟩ | ⟨o, o', rfl, rfl⟩
    · exact .ok rfl
    · have hitem : C.free → o.Distinct := by
        intro hfree
        cases hd hfree with
        | array hitem => exact hitem o rfl
      refine (ih o rfl o' rfl hitem x).imp_error fun r r' hr => hr.imp_right fun hr => ?_
      exact ⟨.item hr.place, hr.node, hr.received, hr.complaint⟩
  | @object n n' fields moved fields' hnode horder hnames _ ih =>
    intro hd raw
    have hdistinct : C.free → (fields.map (·.1)).Nodup ∧ ∀ f ∈ fields, f.2.Distinct := by
      intro hfree
      cases hd hfree with
      | object hn hf => exact ⟨hn, hf⟩
    refine corresponds_checked_top rfl rfl hnode raw ?_
    cases raw with
    | object given =>
      rw [Json.overMembers, Json.overMembers, Json.map_ofMembers, Json.map_ofMembers]
      refine Corresponds.map (corresponds_evalFields (fun hfree _ _ => Or.inl hfree) horder
        (fun hfree => (hdistinct hfree).1) hnames (fun p hp x => ?_) given [])
        fun _ _ ho => by rw [ho]
      refine (ih p hp (fun hfree => ?_) x).imp_error fun r r' hr => ?_
      · exact (hdistinct hfree).2 p.1 (horder.perm.mem_iff.mpr (List.of_mem_zip hp).1)
      · rcases hr with hfree | hr
        · exact Or.inl hfree
        · cases horder with
          | same => exact Or.inr ⟨.field hp hr.place, hr.node, hr.received, hr.complaint⟩
          | moved hfree => exact Or.inl hfree
    | _ => exact .ok rfl

theorem eval (h : o.Matches C o') (hd : C.free → o.Distinct) (raw : Json) :
    Corresponds C.rejection Eq (o.eval raw) (o'.eval raw) :=
  (h.eval_alike hd raw).imp_error fun _ _ hr =>
    hr.elim (fun hfree => C.anyFailure hfree _ _) Rejection.Alike.rejection

/-- **Outlines that match are compiled alike**: both of them, or with faults that compare. -/
theorem build (h : o.Matches C o') :
    Corresponds C.fault (fun _ _ => True) o.build.result o'.build.result := by
  induction h with
  | fault h => exact .error h
  | scalar hnode =>
    rw [result_build_scalar, result_build_scalar]
    exact (C.corresponds_scalarRule? hnode).map fun _ _ _ => trivial
  | @array n n' item item' hnode hsome _ ih =>
    rw [result_build_array, result_build_array]
    refine Corresponds.map (A := fun _ _ => True) ?_ fun _ _ _ => trivial
    rcases isSome_eq_cases hsome with ⟨rfl, rfl⟩ | ⟨o, o', rfl, rfl⟩
    · exact .ok trivial
    · exact ih o rfl o' rfl
  | object hnode horder hnames _ ih =>
    rw [result_build_object, result_build_object]
    exact (corresponds_buildFields horder hnames ih).map fun _ _ _ => trivial

end Matches

end Outline

/-! ### Compiled schemas -/

/-- **Schemas whose outlines match compile and validate alike.** -/
theorem Schema.corresponds_compile {C : Comparison} {v w : Vocabulary} {path place : String}
    {S T : Schema} (h : (S.outline v path).Matches C (T.outline w place))
    (hd : C.free → S.Distinct) :
    Corresponds C.fault
      (fun c c' => ∀ raw, Corresponds C.failure Eq (c.validate raw) (c'.validate raw))
      (S.compile v path).result (T.compile w place).result := by
  have hb := h.build
  rw [← map_validator_compile, ← map_validator_compile] at hb
  cases hS : (S.compile v path).result with
  | error f =>
    cases hT : (T.compile w place).result with
    | error g =>
      rw [hS, hT] at hb
      cases hb with
      | error hf => exact .error hf
    | ok c' =>
      rw [hS, hT] at hb
      cases hb
  | ok c =>
    cases hT : (T.compile w place).result with
    | error g =>
      rw [hS, hT] at hb
      cases hb
    | ok c' =>
      refine .ok fun raw => ?_
      rw [validate_eq_eval hS, validate_eq_eval hT]
      exact (h.eval (fun hfree => distinct_outline v path S (hd hfree)) raw).mapError
        fun _ _ hr => hr

end ShorthandSchema
