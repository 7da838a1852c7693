import ShorthandSchema.Proofs.WellFormed

/-! # Evaluation: validating a value along an outline

A compiled schema is a tree of rules in which a required node takes two validators. `Outline.eval`
walks the outline instead: each node checks its own value first, all checks at once, and then the
nodes below it get their values. A rejection keeps the node that complains and the value it was
given.

* `run_of_build`: the validator of an outline and `eval` agree.
* `Schema.validate_eq_eval`: a compiled schema validates as its outline is evaluated. -/

namespace ShorthandSchema

/-- **The rejection of a value by a node.** -/
structure Rejection where
  node : Node
  received : Json
  complaint : Complaint

/-- The failure that is reported. -/
def Rejection.failure (r : Rejection) : Failure := r.node.site.failure r.received r.complaint

theorem Json.eq_null_of_isNull {raw : Json} (h : raw.isNull = true) : raw = .null := by
  cases raw with
  | null => rfl
  | _ => cases h

/-- The result `below`, unless the node rejects the value by itself. -/
def Node.checked {α : Type} (n : Node) (raw : Json) (below : Except Rejection α) :
    Except Rejection α :=
  (n.complaints raw).head?.elim below fun c => .error ⟨n, raw, c⟩

/-- An array with a function applied to its items; any other value is left as it is. -/
def Json.overItems {ε : Type} (f : Json → Except ε Json) : Json → Except ε Json
  | .array items => (items.mapM f).map .array
  | other => .ok other

/-- An object that is rebuilt from its members; any other value is left as it is. -/
def Json.overMembers {ε : Type}
    (f : List (String × Json) → Except ε (List (String × Json))) : Json → Except ε Json
  | .object given => (f given).map .ofMembers
  | other => .ok other

theorem Json.mapError_overItems {ε δ : Type} (g : ε → δ) (f : Json → Except ε Json)
    (raw : Json) : (raw.overItems f).mapError g = raw.overItems fun x => (f x).mapError g := by
  cases raw with
  | array items => rw [overItems, overItems, mapError_map, mapM_mapError]
  | _ => rfl

theorem Json.mapError_overMembers {ε δ : Type} (g : ε → δ)
    (f : List (String × Json) → Except ε (List (String × Json))) (raw : Json) :
    (raw.overMembers f).mapError g = raw.overMembers fun given => (f given).mapError g := by
  cases raw with
  | object given => rw [overMembers, overMembers, mapError_map]
  | _ => rfl

namespace Outline

mutual

/-- **The coerced value, or the first rejection.** -/
def eval : Outline → Json → Except Rejection Json
  | fault _, raw => .ok raw
  | scalar n, raw => n.checked raw (.ok (n.coerced raw))
  | array n item, raw => n.checked raw (raw.overItems (evalItem item))
  | object n fields, raw => n.checked raw (raw.overMembers (evalFields fields))

/-- An item of an array; without an outline it is left as it is. -/
def evalItem : Option Outline → Json → Except Rejection Json
  | none, raw => .ok raw
  | some o, raw => eval o raw

/-- The members of an object under the declared names. -/
def evalFields : List (String × Outline) → List (String × Json) →
    Except Rejection (List (String × Json))
  | [], _ => .ok []
  | (name, o) :: rest, given => do
    let out ← eval o (Json.member name given)
    let outs ← evalFields rest given
    return (name, out) :: outs

end

theorem evalFields_eq_mapM (fields : List (String × Outline)) (given : List (String × Json)) :
    evalFields fields given =
      fields.mapM fun f => (f.2.eval (Json.member f.1 given)).map (f.1, ·) := by
  induction fields with
  | nil => rfl
  | cons f rest ih =>
    rw [evalFields, List.mapM_cons, ih]
    cases f.2.eval (Json.member f.1 given) <;> rfl

theorem names_of_evalFields {fields : List (String × Outline)} {given outs : List (String × Json)}
    (h : evalFields fields given = .ok outs) : outs.map (·.1) = fields.map (·.1) := by
  rw [evalFields_eq_mapM, mapM_eq_ok_iff] at h
  refine (map_eq_map_iff_forall₂.mpr (h.imp fun f m hm => ?_)).symm
  obtain ⟨out, -, rfl⟩ := map_eq_ok_iff.mp hm
  rfl

theorem mem_of_evalFields {fields : List (String × Outline)} {given outs : List (String × Json)}
    (h : evalFields fields given = .ok outs) {f : String × Outline} (hf : f ∈ fields) :
    ∃ out, f.2.eval (Json.member f.1 given) = .ok out ∧ (f.1, out) ∈ outs := by
  rw [evalFields_eq_mapM, mapM_eq_ok_iff] at h
  obtain ⟨m, hm, he⟩ := exists_of_forall₂ h hf
  obtain ⟨out, hout, rfl⟩ := map_eq_ok_iff.mp he
  exact ⟨out, hout, hm⟩

end Outline

/-! ### Checks of a node -/

namespace Node

variable {α : Type} {n : Node} {raw : Json}

theorem checked_of_nil (h : n.complaints raw = []) (below : Except Rejection α) :
    n.checked raw below = below := by
  rw [checked, h]
  rfl

theorem checked_of_cons {c : Complaint} {cs : List Complaint} (h : n.complaints raw = c :: cs)
    (below : Except Rejection α) : n.checked raw below = .error ⟨n, raw, c⟩ := by
  rw [checked, h]
  rfl

theorem complaints_null_eq_nil_iff : n.complaints .null = [] ↔ n.required = false := by
  rw [complaints_null]
  cases n.required <;> simp

theorem checked_eq_ok_iff {below : Except Rejection α} {out : α} :
    n.checked raw below = .ok out ↔ n.complaints raw = [] ∧ below = .ok out := by
  cases h : n.complaints raw with
  | nil => simp [checked_of_nil h]
  | cons c cs => simp [checked_of_cons h]

end Node

namespace Outline

theorem eval_scalar_eq_ok_iff {n : Node} {raw out : Json} :
    eval (.scalar n) raw = .ok out ↔ n.complaints raw = [] ∧ n.coerced raw = out := by
  rw [eval, Node.checked_eq_ok_iff, Except.ok.injEq]

theorem eval_array_eq_ok_iff {n : Node} (hk : n.kind = .array) {item : Option Outline}
    {raw out : Json} :
    eval (.array n item) raw = .ok out ↔
      (raw = .null ∧ n.required = false ∧ out = .null) ∨
      ∃ items outs, raw = .array items ∧ n.arrayComplaints raw = [] ∧
        items.mapM (evalItem item) = .ok outs ∧ out = .array outs := by
  rw [eval, Node.checked_eq_ok_iff]
  cases raw with
  | null =>
    rw [Node.complaints_null_eq_nil_iff]
    constructor
    · rintro ⟨h, ⟨⟩⟩
      exact Or.inl ⟨rfl, h, rfl⟩
    · rintro (⟨-, h, rfl⟩ | ⟨_, _, ⟨⟩, -⟩)
      exact ⟨h, rfl⟩
  | array items =>
    have hc : n.complaints (.array items) = n.arrayComplaints (.array items) := by
      simp [Node.complaints, Json.isNull, hk]
    rw [hc, Json.overItems, map_eq_ok_iff]
    constructor
    · rintro ⟨h, outs, houts, rfl⟩
      exact Or.inr ⟨items, outs, rfl, h, houts, rfl⟩
    · rintro (⟨⟨⟩, -⟩ | ⟨_, outs, ⟨⟩, h, houts, rfl⟩)
      exact ⟨h, outs, houts, rfl⟩
  | _ => simp [Node.complaints, Json.isNull, hk, Node.arrayComplaints]

/-- An object node returns null for null, and rebuilds an object from what its fields return. -/
theorem eval_object_eq_ok_iff {n : Node} (hk : n.kind = .object)
    {fields : List (String × Outline)} {raw out : Json} :
    eval (.object n fields) raw = .ok out ↔
      (raw = .null ∧ n.required = false ∧ out = .null) ∨
      ∃ given outs, raw = .object given ∧ evalFields fields given = .ok outs ∧
        out = .ofMembers outs := by
  rw [eval, Node.checked_eq_ok_iff]
  cases raw with
  | null =>
    rw [Node.complaints_null_eq_nil_iff]
    constructor
    · rintro ⟨h, ⟨⟩⟩
      exact Or.inl ⟨rfl, h, rfl⟩
    · rintro (⟨-, h, rfl⟩ | ⟨_, _, ⟨⟩, -⟩)
      exact ⟨h, rfl⟩
  | object given =>
    have hc : n.complaints (.object given) = [] := by
      simp [Node.complaints, Json.isNull, hk, Node.objectComplaints]
    rw [hc, Json.overMembers, map_eq_ok_iff]
    constructor
    · rintro ⟨-, outs, houts, rfl⟩
      exact Or.inr ⟨given, outs, rfl, houts, rfl⟩
    · rintro (⟨⟨⟩, -⟩ | ⟨_, outs, ⟨⟩, houts, rfl⟩)
      exact ⟨rfl, outs, houts, rfl⟩
  | _ => simp [Node.complaints, Json.isNull, hk, Node.objectComplaints]

end Outline

/-! ### The validator of an outline -/

namespace Validator

theorem runFields_eq_mapM (fields : List (String × Validator)) (given : List (String × Json)) :
    runFields fields given =
      fields.mapM fun f => (f.2.run (Json.member f.1 given)).map (f.1, ·) := by
  induction fields with
  | nil => rfl
  | cons f rest ih =>
    rw [runFields, List.mapM_cons, ih]
    cases f.2.run (Json.member f.1 given) <;> rfl

/-- The guard of a node rejects null where a value is required; nothing else is its business. -/
theorem run_guarded {n : Node} {inner : Validator} {raw : Json} {below : Except Rejection Json}
    (hnull : raw = .null → inner.run raw = .ok .null ∧ below = .ok .null)
    (hrun : raw.isNull = false → inner.run raw = (n.checked raw below).mapError Rejection.failure) :
    (n.guarded inner).run raw = (n.checked raw below).mapError Rejection.failure := by
  cases hr : raw.isNull with
  | true =>
    obtain rfl := Json.eq_null_of_isNull hr
    obtain ⟨hi, rfl⟩ := hnull rfl
    unfold Node.guarded Node.checked
    rw [Node.complaints_null]
    split
    · rfl
    · exact hi
  | false =>
    rw [← hrun hr]
    unfold Node.guarded
    split
    · rw [run, Site.checkPresent, hr]
      rfl
    · rfl

end Validator

namespace Outline

theorem run_array {n : Node} (hk : n.kind = .array) {item : Option Outline} {inner : Validator}
    (hi : ∀ x, inner.run x = (evalItem item x).mapError Rejection.failure) (raw : Json) :
    (n.guarded (.array n.site n.countRule inner)).run raw =
      (eval (.array n item) raw).mapError Rejection.failure := by
  -- null is settled by the guard, so the complaints are those of the kind
  refine Validator.run_guarded (fun hr => by subst hr; exact ⟨rfl, rfl⟩) fun hr => ?_
  have hc : n.complaints raw = n.arrayComplaints raw := by simp [Node.complaints, hr, hk]
  rw [Validator.run, Node.checked, hc]
  cases raw with
  | array items =>
    rw [Site.checkArray, Node.complaint?_countRule]
    cases (n.arrayComplaints (.array items)).head? with
    | some c => rfl
    | none =>
      show (items.mapM inner.run).map Json.array =
        ((Json.array items).overItems (evalItem item)).mapError Rejection.failure
      rw [Json.mapError_overItems, Json.overItems, mapM_congr_of_mem fun x _ => hi x]
  | null => cases hr
  | _ => rfl

theorem run_object {n : Node} (hk : n.kind = .object) {fields : List (String × Outline)}
    {inner : List (String × Validator)}
    (hi : ∀ given, Validator.runFields inner given =
      (evalFields fields given).mapError Rejection.failure) (raw : Json) :
    (n.guarded (.object n.site inner)).run raw =
      (eval (.object n fields) raw).mapError Rejection.failure := by
  refine Validator.run_guarded (fun hr => by subst hr; exact ⟨rfl, rfl⟩) fun hr => ?_
  have hc : n.complaints raw = Node.objectComplaints raw := by simp [Node.complaints, hr, hk]
  rw [Validator.run, Node.checked, hc]
  cases raw with
  | object given =>
    show (Validator.runFields inner given).map Json.ofMembers =
      ((Json.object given).overMembers (evalFields fields)).mapError Rejection.failure
    rw [Json.mapError_overMembers, Json.overMembers, hi]
  | null => cases hr
  | _ => rfl

/-- **The validator of an outline agrees with the evaluation.** -/
theorem run_of_build {o : Outline} (h : o.WellFormed) :
    ∀ {val : Validator}, o.build.result = .ok val →
      ∀ raw, val.run raw = (o.eval raw).mapError Rejection.failure := by
  induction h with
  | @scalar n ha ho hfits =>
    intro val hb raw
    obtain ⟨rule, hrule, hcheck⟩ := Node.check_eq hfits ha ho
    rw [result_build_scalar, hrule] at hb
    cases hb
    refine Validator.run_guarded (fun hr => by subst hr; exact ⟨rfl, rfl⟩) fun hr => ?_
    rw [Validator.run, Site.checkScalar, hr, hcheck raw hr, Node.checked]
    cases (n.complaints raw).head? <;> rfl
  | @array n item hk _ ih =>
    intro val hb
    rw [result_build_array] at hb
    obtain ⟨inner, hinner, rfl⟩ := map_eq_ok_iff.mp hb
    refine run_array hk fun x => ?_
    cases item with
    | none =>
      cases hinner
      exact Validator.run_any x
    | some o => exact ih o rfl hinner x
  | @object n fields hk _ ih =>
    intro val hb
    rw [result_build_object, result_buildFields] at hb
    obtain ⟨inner, hinner, rfl⟩ := map_eq_ok_iff.mp hb
    refine run_object hk fun given => ?_
    rw [Validator.runFields_eq_mapM, evalFields_eq_mapM, mapM_mapError]
    -- each field with its compiled counterpart, and the hypothesis about it
    have hf := (List.forall₂_and_left _ _).mpr ⟨@ih, mapM_eq_ok_iff.mp hinner⟩
    refine (mapM_eq_of_forall₂ (hf.imp ?_)).symm
    rintro f w ⟨ihf, hw⟩
    obtain ⟨val, hval, rfl⟩ := map_eq_ok_iff.mp hw
    rw [mapError_map, ← ihf hval]

end Outline

/-! ### Compiled schemas -/

namespace Schema

theorem validator_of_compile {v : Vocabulary} {path : String} {S : Schema} {c : Compiled}
    (h : (S.compile v path).result = .ok c) :
    ∃ d, S.describe v path = .ok d ∧ (S.outline v path).build.result = .ok c.validator ∧
      c.name = d.path ∧ c.kind = d.kind ∧ c.required = d.required := by
  rw [compile, Traced.result_reportingFault, Traced.result_bind_eq_ok] at h
  obtain ⟨d, hd, h⟩ := h
  obtain ⟨val, hval, h⟩ := Traced.result_bind_eq_ok.mp h
  cases h
  have hd' : S.describe v path = .ok d := hd
  exact ⟨d, hd', by rw [outline_of_describe hd']; exact hval, rfl, rfl, rfl⟩

theorem wellFormed_of_compile {v : Vocabulary} {path : String} {S : Schema} {c : Compiled}
    (h : (S.compile v path).result = .ok c) : (S.outline v path).WellFormed := by
  obtain ⟨_, -, hb, -⟩ := validator_of_compile h
  exact wellFormed_of_build v path S hb

/-- **A compiled schema validates as its outline is evaluated.** -/
theorem validate_eq_eval {v : Vocabulary} {path : String} {S : Schema} {c : Compiled}
    (h : (S.compile v path).result = .ok c) (raw : Json) :
    c.validate raw = ((S.outline v path).eval raw).mapError Rejection.failure := by
  obtain ⟨_, -, hb, -⟩ := validator_of_compile h
  exact Outline.run_of_build (wellFormed_of_compile h) hb raw

theorem exists_accepted_of_run {x : Except Fault Compiled} {raw : Json} {text : String}
    (h : x.toOption.bind (fun c => (c.validate raw).toOption.map Json.text) = some text) :
    ∃ c out, x = .ok c ∧ c.validate raw = .ok out ∧ out.text = text := by
  cases x with
  | error e => cases h
  | ok c =>
    have hc : (c.validate raw).toOption.map Json.text = some text := h
    cases hr : c.validate raw with
    | error g => rw [hr] at hc; cases hc
    | ok out =>
      rw [hr] at hc
      exact ⟨c, out, rfl, hr, Option.some.inj hc⟩

theorem exists_rejected_of_run {x : Except Fault Compiled} {raw : Json} {f : Failure}
    (h : x.toOption.map (fun c => (c.validate raw).map fun _ => ()) = some (.error f)) :
    ∃ c, x = .ok c ∧ c.validate raw = .error f := by
  cases x with
  | error e => cases h
  | ok c =>
    have hc : (c.validate raw).map (fun _ => ()) = .error f := Option.some.inj h
    cases hr : c.validate raw with
    | ok out => rw [hr] at hc; cases hc
    | error g =>
      rw [hr] at hc
      cases hc
      exact ⟨c, rfl, hr⟩

end Schema

/-! ### An order -/

/-- An order: a required id, at most three tags with a message that shows them, and a customer. -/
def orderSchema : Schema :=
  .fields <| .ofList [
    ("id", .named "int-required"),
    ("tags", .described
      { kind := .array
        items := some (.named "text-required")
        maxItems := some 3
        message := some (.computed fun raw => "Not a list of tags: " ++ raw.text) }),
    ("customer", .triple (.kind .object) false
      (some (.fields (.ofList [("name", .named "string")]))))]

theorem orderSchema_compiles :
    ∃ c, (orderSchema.compile .builtin "order").result = .ok c := by
  have h : (orderSchema.compile .builtin "order").result.isOk = true := by decide +kernel
  cases hr : (orderSchema.compile .builtin "order").result with
  | ok c => exact ⟨c, rfl⟩
  | error f => rw [hr] at h; cases h

theorem orderSchema_distinct : orderSchema.Distinct := by
  refine .ofList fun e he => ?_
  simp only [List.mem_cons, List.not_mem_nil, or_false] at he
  rcases he with rfl | rfl | rfl
  · exact .named _
  · refine .described (by simp) (by simp [Descriptor.fieldList]) fun s hs => ?_
    cases hs
    exact .named _
  · refine .triple fun s hs => ?_
    cases hs
    refine .ofList fun f hf => ?_
    rw [List.mem_singleton.mp hf]
    exact .named _

/-- An order that is accepted, without a customer and with a note that the schema does not
declare. -/
def order : Json :=
  .object [("id", .string "7"), ("note", .null), ("tags", .array [.bool true])]

theorem validate_order {c : Compiled} (h : (orderSchema.compile .builtin "order").result = .ok c) :
    ∃ out, c.validate order = .ok out ∧
      out.text = "\x7b\"customer\":null,\"id\":7,\"tags\":[\"true\"]\x7d" := by
  have ht : ((orderSchema.outline .builtin "order").eval order).toOption.map Json.text =
      some "\x7b\"customer\":null,\"id\":7,\"tags\":[\"true\"]\x7d" := by decide +kernel
  rw [Schema.validate_eq_eval h]
  cases he : (orderSchema.outline .builtin "order").eval order with
  | error r => rw [he] at ht; cases ht
  | ok out =>
    rw [he] at ht
    exact ⟨out, rfl, Option.some.inj ht⟩

end ShorthandSchema
