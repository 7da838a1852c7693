import ShorthandSchema.Proofs.Members
import ShorthandSchema.Proofs.Visits

/-! # Projection: the declared part of a value

The projection of a value has only what the outline declares: of an object the members under the
declared names, of an array the projections of its items. A node without nodes below it takes a
value as a whole, a container too.

* `mapError_cause_eval_project`: a value and its projection are evaluated alike.
* `Schema.validate_project`: only the declared part of a value matters. -/

namespace ShorthandSchema

/-- The value of a node that leaves it as it is. -/
def Node.kept (_ : Node) (raw : Json) : Json := raw

/-- **The declared part of a value**: nodes without nodes below them keep it as it is. -/
def Outline.project (o : Outline) (raw : Json) : Json := o.rebuild Node.kept raw

/-! ### Results that agree -/

/-- The message of a node is computed from the value that it is given. -/
def Node.ComputesMessage (n : Node) : Prop := ∃ text, n.message = some (.computed text)

/-- **Results that agree**: the same value, or failures with the same code and the same path. The
messages of failures may differ only if `mayDiffer`. -/
inductive Agree (mayDiffer : Prop) : Except Failure Json → Except Failure Json → Prop
  | ok (out : Json) : Agree mayDiffer (.ok out) (.ok out)
  | error {f g : Failure} (hcode : f.code = g.code) (hpath : f.path = g.path)
      (hmessage : f.message = g.message ∨ mayDiffer) : Agree mayDiffer (.error f) (.error g)

theorem Agree.eq_ok {mayDiffer : Prop} {out : Json} {result : Except Failure Json}
    (h : Agree mayDiffer (.ok out) result) : result = .ok out := by
  cases h
  rfl

/-- What a rejection is about: the node and its complaint, but not the value. -/
def Rejection.cause (r : Rejection) : Node × Complaint := (r.node, r.complaint)

namespace Rejection

theorem failure_eq (r : Rejection) :
    r.failure = ⟨r.complaint.code, r.node.path,
      r.node.message.elim r.complaint.text (·.resolve r.received)⟩ := rfl

theorem message_eq_or {r s : Rejection} (h : r.cause = s.cause) :
    r.failure.message = s.failure.message ∨ r.node.ComputesMessage := by
  obtain ⟨hn, hc⟩ := Prod.mk.inj h
  rw [failure_eq, failure_eq, ← hn, ← hc]
  cases hm : r.node.message with
  | none => exact Or.inl rfl
  | some m =>
    cases m with
    | fixed text => exact Or.inl rfl
    | computed text => exact Or.inr ⟨text, hm⟩

theorem agree_of_cause {x y : Except Rejection Json} (h : x.mapError cause = y.mapError cause) :
    Agree (∃ r, x = .error r ∧ r.node.ComputesMessage) (x.mapError failure)
      (y.mapError failure) := by
  cases x with
  | ok out =>
    cases y with
    | ok out' =>
      cases h
      exact .ok out
    | error s => cases h
  | error r =>
    cases y with
    | ok out => cases h
    | error s =>
      have hc : r.cause = s.cause := Except.error.inj h
      obtain ⟨hn, hcomplaint⟩ := Prod.mk.inj hc
      rw [mapError_error, mapError_error]
      refine .error ?_ ?_ ((message_eq_or hc).imp_right fun hm => ⟨r, rfl, hm⟩)
      · rw [failure_eq, failure_eq, hcomplaint]
      · rw [failure_eq, failure_eq, hn]

end Rejection

/-! ### A node and a projected value -/

namespace Node

variable {n : Node}

/-- An array node looks only at the number of items. -/
theorem complaints_mapItems (hk : n.kind = .array) (f : Json → Json) (raw : Json) :
    n.complaints (raw.mapItems f) = n.complaints raw := by
  cases raw with
  | array items => simp [complaints, Json.isNull, Json.mapItems, hk, arrayComplaints]
  | _ => rfl

/-- An object node looks at no member. -/
theorem complaints_mapMembers (hk : n.kind = .object)
    (f : List (String × Json) → List (String × Json)) (raw : Json) :
    n.complaints (raw.mapMembers f) = n.complaints raw := by
  cases raw with
  | object given =>
    simp [complaints, Json.isNull, Json.mapMembers, Json.ofMembers, hk, objectComplaints]
  | _ => rfl

theorem mapError_cause_checked {α : Type} {raw raw' : Json} {below below' : Except Rejection α}
    (hc : n.complaints raw' = n.complaints raw)
    (h : below'.mapError Rejection.cause = below.mapError Rejection.cause) :
    (n.checked raw' below').mapError Rejection.cause =
      (n.checked raw below).mapError Rejection.cause := by
  unfold checked
  rw [hc]
  cases (n.complaints raw).head? with
  | none => exact h
  | some c => rfl

end Node

/-! ### Values and their projections -/

/-- An object is projected by its members under the declared names. Other members do not matter, nor
does it whether null is written down. -/
theorem Outline.project_object_congr (n : Node) {fields : List (String × Outline)}
    {given others : List (String × Json)}
    (h : ∀ f ∈ fields, f.2.project (Json.member f.1 given) =
      f.2.project (Json.member f.1 others)) :
    (object n fields).project (.object given) = (object n fields).project (.object others) := by
  have hm : rebuildFields Node.kept fields given = rebuildFields Node.kept fields others := by
    rw [rebuildFields_eq_map, rebuildFields_eq_map]
    exact List.map_congr_left fun f hf => Prod.ext rfl (h f hf)
  rw [project, project, rebuild, rebuild, Json.mapMembers, Json.mapMembers, hm]

/-- **A value and its projection are evaluated alike**: the same value comes out, or the same node
has the same complaint. -/
theorem Outline.mapError_cause_eval_project {o : Outline} (hw : o.WellFormed) (hd : o.Distinct) :
    ∀ raw, (o.eval (o.project raw)).mapError Rejection.cause =
      (o.eval raw).mapError Rejection.cause := by
  unfold project
  induction hw with
  | scalar => exact fun raw => rfl
  | @array n item hk _ ih =>
    cases hd with
    | array hitem =>
      intro raw
      have hi : ∀ x, (evalItem item (rebuildItem Node.kept item x)).mapError Rejection.cause =
          (evalItem item x).mapError Rejection.cause := by
        intro x
        cases item with
        | none => rfl
        | some o => exact ih o rfl (hitem o rfl) x
      rw [rebuild, eval, eval]
      refine Node.mapError_cause_checked (Node.complaints_mapItems hk _ raw) ?_
      cases raw with
      | array items =>
        rw [Json.mapItems, Json.mapError_overItems, Json.mapError_overItems, Json.overItems,
          Json.overItems, List.mapM_map]
        exact congrArg _ (mapM_congr_of_mem fun x _ => hi x)
      | _ => rfl
  | @object n fields hk _ ih =>
    cases hd with
    | object hnames hfields =>
      intro raw
      rw [rebuild, eval, eval]
      refine Node.mapError_cause_checked (Node.complaints_mapMembers hk _ raw) ?_
      cases raw with
      | object given =>
        have hn : ((rebuildFields Node.kept fields given).map (·.1)).Nodup := by
          rw [rebuildFields_eq_map, List.map_map]
          exact hnames
        obtain ⟨members, hm⟩ : ∃ members,
            Json.ofMembers (rebuildFields Node.kept fields given) = .object members :=
          ⟨_, rfl⟩
        -- each declared name has the projected member, whatever the order of the keys
        have hmember : ∀ f ∈ fields, Json.member f.1 members =
            f.2.rebuild Node.kept (Json.member f.1 given) := by
          intro f hf
          refine Json.member_of_ofMembers_eq hn hm ?_
          rw [rebuildFields_eq_map]
          exact List.mem_map_of_mem hf
        rw [Json.mapMembers, hm, Json.mapError_overMembers, Json.mapError_overMembers,
          Json.overMembers, Json.overMembers, evalFields_eq_mapM, evalFields_eq_mapM,
          mapM_mapError, mapM_mapError]
        refine congrArg _ (mapM_congr_of_mem fun f hf => ?_)
        rw [mapError_map, mapError_map, hmember f hf, ih f hf (hfields f hf)]
      | _ => rfl

theorem Outline.mapError_cause_eval_eq {o : Outline} (hw : o.WellFormed) (hd : o.Distinct)
    {raw raw' : Json} (h : o.project raw = o.project raw') :
    (o.eval raw).mapError Rejection.cause = (o.eval raw').mapError Rejection.cause := by
  rw [← mapError_cause_eval_project hw hd raw, h, mapError_cause_eval_project hw hd raw']

theorem Outline.eval_eq_error_iff {o : Outline} {raw : Json} {r : Rejection} :
    o.eval raw = .error r ↔ (o.visits raw).findSome? Visit.rejection? = some r := by
  rw [eval_eq_outcome, outcome]
  cases (o.visits raw).findSome? Visit.rejection? <;> simp

/-! ### Compiled schemas -/

/-- The first node that rejects a value has a message that is computed. -/
def Outline.RejectsByComputed (o : Outline) (raw : Json) : Prop :=
  ∃ r, (o.visits raw).findSome? Visit.rejection? = some r ∧ r.node.ComputesMessage

/-- **Only the declared part of a value matters**: a compiled schema treats a value as its
projection along the outline that the schema writes, and so treats all values with the same
projection alike. -/
theorem Schema.validate_project {v : Vocabulary} {path : String} {S : Schema} {c : Compiled}
    (h : (S.compile v path).result = .ok c) (hS : S.Distinct) :
    ∃ o, S.HasOutline v path o ∧ ∀ raw,
      Agree (o.RejectsByComputed raw) (c.validate raw) (c.validate (o.project raw)) ∧
      ∀ raw', o.project raw = o.project raw' →
        Agree (o.RejectsByComputed raw) (c.validate raw) (c.validate raw') := by
  have hw := wellFormed_of_compile h
  have hd := distinct_outline v path S hS
  have hagree : ∀ raw raw', ((S.outline v path).eval raw).mapError Rejection.cause =
      ((S.outline v path).eval raw').mapError Rejection.cause →
        Agree ((S.outline v path).RejectsByComputed raw) (c.validate raw)
          (c.validate raw') := by
    intro raw raw' hc
    have ha := Rejection.agree_of_cause hc
    simp only [Outline.eval_eq_error_iff] at ha
    rw [validate_eq_eval h, validate_eq_eval h]
    exact ha
  refine ⟨S.outline v path, hasOutline_of_compile h, fun raw => ⟨?_, fun raw' hp => ?_⟩⟩
  · exact hagree raw _ (Outline.mapError_cause_eval_project hw hd raw).symm
  · exact hagree raw raw' (Outline.mapError_cause_eval_eq hw hd hp)

theorem validate_project_order :
    ∃ c out, (orderSchema.compile .builtin "order").result = .ok c ∧ orderSchema.Distinct ∧
      c.validate order = .ok out ∧
      c.validate ((orderSchema.outline .builtin "order").project order) = .ok out ∧
      c.validate (.object [("customer", .null), ("id", .string "7"),
        ("tags", .array [.bool true])]) = .ok out := by
  obtain ⟨c, hc⟩ := orderSchema_compiles
  obtain ⟨out, hout, -⟩ := validate_order hc
  obtain ⟨o, ho, hall⟩ := Schema.validate_project hc orderSchema_distinct
  obtain rfl := ho.unique (Schema.hasOutline_of_compile hc)
  obtain ⟨hproject, hsame⟩ := hall order
  have hp : (orderSchema.outline .builtin "order").project order =
      (orderSchema.outline .builtin "order").project (.object [("customer", .null),
        ("id", .string "7"), ("tags", .array [.bool true])]) := by
    rw [orderSchema, Schema.outline_of_describe rfl]
    refine Outline.project_object_congr _ fun f hf => ?_
    obtain ⟨g, hg, rfl⟩ := List.mem_map.mp hf
    have hg := OrderedMap.mem_ofList hg
    simp only [List.mem_cons, List.not_mem_nil, or_false] at hg
    rcases hg with rfl | rfl | rfl <;> rfl
  have hs := hsame _ hp
  rw [hout] at hproject hs
  exact ⟨c, out, hc, orderSchema_distinct, hout, hproject.eq_ok, hs.eq_ok⟩

end ShorthandSchema
