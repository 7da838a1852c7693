import ShorthandSchema.Proofs.Checks
import ShorthandSchema.Proofs.Written

/-! # Visits: the nodes that see a value, in order

The visits of an outline are all nodes that are given a value, in pre-order: the fields of an object
in the order of their declaration, the items of an array by index. A node that fails a check of its
own, or that is given null, passes nothing on; a failure elsewhere ends nothing.

* `eval_eq_outcome`: the evaluation stops at the first visit that fails.
* `Schema.validate_eq_first_failure`: so does a compiled schema; if no visit fails, it returns the
  value that the nodes make of it together. -/

namespace ShorthandSchema

namespace Visit

/-- The rejection by the first complaint of the node. -/
def rejection? (x : Visit) : Option Rejection :=
  (x.node.complaints x.received).head?.map fun c => ⟨x.node, x.received, c⟩

theorem failure?_eq (x : Visit) : x.failure? = x.rejection?.map Rejection.failure := by
  unfold failure? rejection?
  rw [Node.find?_fails_checks, Option.map_map, Option.map_map]
  refine congrArg (Option.map · _) (funext fun c => ?_)
  unfold Function.comp Rejection.failure Node.site Site.failure
  cases x.node.message with
  | none => rfl
  | some m => cases m <;> rfl

end Visit

/-! ### The reference -/

/-- The array of the values of a function at the items; any other value is left as it is. -/
def Json.mapItems (f : Json → Json) : Json → Json
  | .array items => .array (items.map f)
  | other => other

/-- The object with the members that a function gives; any other value is left as it is. -/
def Json.mapMembers (f : List (String × Json) → List (String × Json)) : Json → Json
  | .object given => .ofMembers (f given)
  | other => other

/-- The visits that an array hands on to its items. -/
def Json.itemVisits (f : Json → List Visit) : Json → List Visit
  | .array items => items.flatMap f
  | _ => []

/-- The visits that an object hands on to its members. -/
def Json.memberVisits (f : List (String × Json) → List Visit) : Json → List Visit
  | .object given => f given
  | _ => []

namespace Outline

mutual

/-- **All nodes that see a value**, in pre-order, each with the value that it is given. -/
def visits : Outline → Json → List Visit
  | fault _, _ => []
  | scalar n, raw => [⟨n, raw⟩]
  | array n item, raw =>
    ⟨n, raw⟩ :: if n.fails raw then [] else raw.itemVisits (visitsItem item)
  | object n fields, raw =>
    ⟨n, raw⟩ :: if n.fails raw then [] else raw.memberVisits (visitsFields fields)

/-- The visits of an item of an array; without an outline there is no node. -/
def visitsItem : Option Outline → Json → List Visit
  | none, _ => []
  | some o, raw => visits o raw

/-- The visits of the members of an object, a missing one as null. -/
def visitsFields : List (String × Outline) → List (String × Json) → List Visit
  | [], _ => []
  | (name, o) :: rest, given => visits o (Json.member name given) ++ visitsFields rest given

end

variable (leaf : Node → Json → Json)

mutual

/-- **A value that is rebuilt along an outline**: by `leaf` at the nodes without nodes below them,
an array from its items, an object from its members under the declared names, a missing one as
null. -/
def rebuild : Outline → Json → Json
  | fault _, raw => raw
  | scalar n, raw => leaf n raw
  | array _ item, raw => raw.mapItems (rebuildItem item)
  | object _ fields, raw => raw.mapMembers (rebuildFields fields)

/-- An item of an array; without an outline it is left as it is. -/
def rebuildItem : Option Outline → Json → Json
  | none, raw => raw
  | some o, raw => rebuild o raw

/-- The members of an object under the declared names. -/
def rebuildFields : List (String × Outline) → List (String × Json) → List (String × Json)
  | [], _ => []
  | (name, o) :: rest, given =>
    (name, rebuild o (Json.member name given)) :: rebuildFields rest given

end

theorem rebuildFields_eq_map (fields : List (String × Outline)) (given : List (String × Json)) :
    rebuildFields leaf fields given =
      fields.map fun f => (f.1, f.2.rebuild leaf (Json.member f.1 given)) := by
  induction fields with
  | nil => rfl
  | cons f rest ih => rw [rebuildFields, List.map_cons, ih]

/-- **What the nodes make of a value together**, whether they accept it or not. -/
def coerced (o : Outline) (raw : Json) : Json := o.rebuild Node.coerced raw

theorem visitsFields_eq_flatMap (fields : List (String × Outline))
    (given : List (String × Json)) :
    visitsFields fields given = fields.flatMap fun f => f.2.visits (Json.member f.1 given) := by
  induction fields with
  | nil => rfl
  | cons f rest ih => rw [visitsFields, List.flatMap_cons, ih]

end Outline

/-! ### Outcomes -/

/-- **The rejection by the first visit that fails**, or else the result `out`. -/
def outcome {α : Type} (visits : List Visit) (out : α) : Except Rejection α :=
  (visits.findSome? Visit.rejection?).elim (.ok out) .error

section Outcome
variable {α β : Type}

theorem outcome_cons (n : Node) (raw : Json) (visits : List Visit) (out : α) :
    outcome (⟨n, raw⟩ :: visits) out = n.checked raw (outcome visits out) := by
  unfold outcome Node.checked
  rw [List.findSome?_cons, Visit.rejection?]
  cases (n.complaints raw).head? <;> rfl

theorem outcome_map (visits : List Visit) (f : α → β) (out : α) :
    (outcome visits out).map f = outcome visits (f out) := by
  unfold outcome
  cases visits.findSome? Visit.rejection? <;> rfl

theorem outcome_append_cons (visits others : List Visit) (a : β) (out : List β) :
    outcome (visits ++ others) (a :: out) =
      outcome visits a >>= fun b => (outcome others out).map (b :: ·) := by
  unfold outcome
  rw [List.findSome?_append]
  cases visits.findSome? Visit.rejection? with
  | some r => rfl
  | none => cases others.findSome? Visit.rejection? <;> rfl

theorem mapM_eq_outcome {f : α → Except Rejection β} {visits : α → List Visit} {g : α → β}
    {l : List α} (h : ∀ a ∈ l, f a = outcome (visits a) (g a)) :
    l.mapM f = outcome (l.flatMap visits) (l.map g) := by
  induction l with
  | nil => rfl
  | cons a l ih =>
    rw [List.flatMap_cons, List.map_cons, outcome_append_cons, List.mapM_cons,
      h a List.mem_cons_self, ih fun b hb => h b (List.mem_cons_of_mem _ hb)]
    rfl

end Outcome

theorem outcome_node {α : Type} (n : Node) (raw : Json) (visits : List Visit) (out : α) :
    outcome (⟨n, raw⟩ :: if n.fails raw then [] else visits) out =
      n.checked raw (outcome visits out) := by
  rw [outcome_cons]
  cases h : n.complaints raw with
  | nil => rw [(n.fails_eq_false_iff raw).mpr h, if_neg Bool.false_ne_true]
  | cons c cs => rw [Node.checked_of_cons h, Node.checked_of_cons h]

/-! ### The evaluation stops at the first failure -/

/-- **The evaluation of an outline stops at the first visit that fails.** -/
theorem Outline.eval_eq_outcome (o : Outline) :
    ∀ raw, o.eval raw = outcome (o.visits raw) (o.coerced raw) := by
  induction o using Outline.induction with
  | fault f => exact fun raw => rfl
  | scalar n =>
    intro raw
    rw [eval, visits, outcome_cons]
    rfl
  | array n item ih =>
    intro raw
    have hi : ∀ x, evalItem item x =
        outcome (visitsItem item x) (rebuildItem Node.coerced item x) := by
      intro x
      cases item with
      | none => rfl
      | some o => exact ih o rfl x
    rw [eval, visits, outcome_node, coerced, rebuild]
    refine congrArg (n.checked raw) ?_
    cases raw with
    | array items =>
      rw [Json.overItems, Json.itemVisits, Json.mapItems, mapM_eq_outcome fun x _ => hi x,
        outcome_map]
    | _ => rfl
  | object n fields ih =>
    intro raw
    have hi : ∀ given, evalFields fields given =
        outcome (visitsFields fields given) (rebuildFields Node.coerced fields given) := by
      intro given
      rw [evalFields_eq_mapM, visitsFields_eq_flatMap, rebuildFields_eq_map]
      refine mapM_eq_outcome fun f hf => ?_
      rw [ih f hf, outcome_map, coerced]
    rw [eval, visits, outcome_node, coerced, rebuild]
    refine congrArg (n.checked raw) ?_
    cases raw with
    | object given => rw [Json.overMembers, Json.memberVisits, Json.mapMembers, hi, outcome_map]
    | _ => rfl

namespace Schema

variable {v : Vocabulary} {path : String} {S : Schema} {c : Compiled}
  (h : (S.compile v path).result = .ok c)
include h

theorem validate_eq_visits (raw : Json) :
    c.validate raw =
      match ((S.outline v path).visits raw).findSome? Visit.failure? with
      | some f => .error f
      | none => .ok ((S.outline v path).coerced raw) := by
  have hf : Visit.failure? = Option.map Rejection.failure ∘ Visit.rejection? :=
    funext Visit.failure?_eq
  rw [validate_eq_eval h, Outline.eval_eq_outcome, outcome, hf, ← List.map_findSome?]
  cases ((S.outline v path).visits raw).findSome? Visit.rejection? <;> rfl

/-- **A compiled schema stops at the first visit that fails its own checks**, with the failure of
that visit; if none fails, it returns what the nodes make of the value together. The nodes are those
of the outline that the schema writes. -/
theorem validate_eq_first_failure :
    ∃ o, S.HasOutline v path o ∧ ∀ raw, c.validate raw =
      match (o.visits raw).findSome? Visit.failure? with
      | some f => .error f
      | none => .ok (o.coerced raw) :=
  ⟨S.outline v path, hasOutline_of_compile h, validate_eq_visits h⟩

end Schema

/-- An order whose second tag is null and whose customer is a number: the tag comes first. -/
theorem validate_order_without_tag :
    ∃ c, (orderSchema.compile .builtin "order").result = .ok c ∧
      c.validate (.object [("customer", .number (.integer 5 (by decide))), ("id", .string "7"),
        ("tags", .array [.string "a", .null])]) =
      .error ⟨.requireField, "order.tags.<item>", "Required field is missing or null"⟩ := by
  obtain ⟨c, hc⟩ := orderSchema_compiles
  obtain ⟨o, ho, hall⟩ := Schema.validate_eq_first_failure hc
  obtain rfl := ho.unique (Schema.hasOutline_of_compile hc)
  have hf : ((orderSchema.outline .builtin "order").visits
      (.object [("customer", .number (.integer 5 (by decide))), ("id", .string "7"),
        ("tags", .array [.string "a", .null])])).findSome? Visit.failure? =
      some ⟨.requireField, "order.tags.<item>", "Required field is missing or null"⟩ := by
    decide +kernel
  exact ⟨c, hc, by rw [hall, hf]⟩

end ShorthandSchema
