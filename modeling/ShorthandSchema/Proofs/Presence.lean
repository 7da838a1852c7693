import ShorthandSchema.Proofs.Members
import ShorthandSchema.Proofs.Written

/-! # Presence: where null is given and returned

Only a required node rejects null, every other returns it. No node makes null of anything else, and
an accepted array or object has its items and its declared members in the output. So null stands in
the output at the places of the schema where the input has null or nothing.

* `Outline.eval_eq_null_iff`: null is returned exactly for null.
* `Position.Accepted.of_leads`: positions that an accepted one leads on to are accepted.
* `Schema.validate_null`: presence at the root and at every depth. -/

namespace ShorthandSchema

/-! ### One node -/

theorem Node.coerced_eq_null_iff {n : Node} {raw : Json} (h : n.complaints raw = []) :
    n.coerced raw = .null ↔ raw = .null := by
  constructor
  · intro hnull
    cases hr : raw.isNull with
    | true => exact Json.eq_null_of_isNull hr
    | false =>
      rw [complaints, hr] at h
      rw [coerced, hr] at hnull
      cases hk : n.kind with
      | boolean | string => rw [hk] at hnull; cases hnull
      | integer | number =>
        -- a value that is no number has a complaint
        rw [hk] at h hnull
        have h : n.numberComplaints raw = [] := h
        have hnull : (raw.asNumber? n.wholeNumbers).elim .null (.number ·.number) = Json.null :=
          hnull
        cases hc : raw.asNumber? n.wholeNumbers with
        | none => rw [numberComplaints, hc] at h; cases h
        | some c => rw [hc] at hnull; cases hnull
      | array | object | any => rw [hk] at hnull; exact hnull
  · rintro rfl
    rfl

namespace Outline

variable {o : Outline} {raw out : Json}

theorem eval_eq_null_iff (hw : o.WellFormed) (h : o.eval raw = .ok out) :
    out = .null ↔ raw = .null := by
  cases hw with
  | scalar =>
    obtain ⟨hc, rfl⟩ := eval_scalar_eq_ok_iff.mp h
    exact Node.coerced_eq_null_iff hc
  | array hk =>
    rcases (eval_array_eq_ok_iff hk).mp h with ⟨rfl, -, rfl⟩ | ⟨items, outs, rfl, -, -, rfl⟩
    · exact Iff.rfl
    · exact iff_of_false Json.noConfusion Json.noConfusion
  | object hk =>
    rcases (eval_object_eq_ok_iff hk).mp h with ⟨rfl, -, rfl⟩ | ⟨given, outs, rfl, -, rfl⟩
    · exact Iff.rfl
    · exact iff_of_false Json.noConfusion Json.noConfusion

theorem complaints_of_eval (h : o.eval raw = .ok out) {n : Node} (hn : n ∈ o.node?) :
    n.complaints raw = [] := by
  cases o with
  | fault f => cases hn
  | scalar n' | array n' item | object n' fields =>
    cases hn
    rw [eval] at h
    exact (Node.checked_eq_ok_iff.mp h).1

theorem ne_null_of_eval (h : o.eval raw = .ok out) {n : Node} (hn : n ∈ o.node?)
    (hreq : n.required = true) : raw ≠ .null := by
  rintro rfl
  have hc := Node.complaints_null_eq_nil_iff.mp (complaints_of_eval h hn)
  rw [hreq] at hc
  cases hc

/-- **Null is rejected by a required node and returned by any other**, whatever else the node asks
for. -/
theorem eval_null (hw : o.WellFormed) {n : Node} (hn : n ∈ o.node?) :
    o.eval .null = if n.required then .error ⟨n, .null, .missing⟩ else .ok .null := by
  cases hw with
  | scalar | array | object =>
    cases hn
    rw [eval, Node.checked, Node.complaints_null]
    cases n.required <;> rfl

end Outline

theorem Json.member_eq_null_iff {key : String} {members : List (String × Json)} :
    member key members = .null ↔ members.lookup key = none ∨ members.lookup key = some .null := by
  rw [member]
  cases members.lookup key with
  | none => exact iff_of_true rfl (Or.inl rfl)
  | some x => simp

/-! ### All positions -/

/-- **A node of a schema with a value that it is given and the one that it returns.** -/
structure Position where
  outline : Outline
  given : Json
  returned : Json

namespace Position

/-- **A position leads on** from an array to an item, from an object to a declared member. An item
is returned at its index and a member under its name; a missing member is given as null. -/
inductive Leads : Position → Position → Prop
  | item {n : Node} {o : Outline} {xs ys : List Json} {i : Nat} {x y : Json}
      (hx : xs[i]? = some x) (hy : ys[i]? = some y) :
      Leads ⟨.array n (some o), .array xs, .array ys⟩ ⟨o, x, y⟩
  | field {n : Node} {fields : List (String × Outline)} {xs ys : List (String × Json)}
      {f : String × Outline} {y : Json} (hf : f ∈ fields) (hy : ys.lookup f.1 = some y) :
      Leads ⟨.object n fields, .object xs, .object ys⟩ ⟨f.2, Json.member f.1 xs, y⟩

/-- **Null stands where it was given.** Nothing is lost on the way down either: all items are
returned, and so are all declared members, each as null exactly if it was null or missing. -/
structure KeepsNull (p : Position) : Prop where
  null : p.returned = .null ↔ p.given = .null
  required : ∀ n ∈ p.outline.node?, n.required = true → p.returned ≠ .null
  items : ∀ n item xs, p.outline = .array n item → p.given = .array xs →
    ∃ ys, p.returned = .array ys ∧ ys.length = xs.length
  members : ∀ n fields xs, p.outline = .object n fields → p.given = .object xs →
    ∃ ys, p.returned = .object ys ∧ ∀ f ∈ fields, ∃ y, ys.lookup f.1 = some y ∧
      (y = .null ↔ xs.lookup f.1 = none ∨ xs.lookup f.1 = some .null) ∧
      ∀ n ∈ f.2.node?, n.required = true → y ≠ .null

/-- What a node of a compiled schema returns for a value that it accepts. -/
structure Accepted (p : Position) : Prop where
  wellFormed : p.outline.WellFormed
  distinct : p.outline.Distinct
  eval : p.outline.eval p.given = .ok p.returned

variable {p q : Position}

theorem Accepted.null_iff (h : p.Accepted) : p.returned = .null ↔ p.given = .null :=
  Outline.eval_eq_null_iff h.wellFormed h.eval

theorem Accepted.ne_null (h : p.Accepted) {n : Node} (hn : n ∈ p.outline.node?)
    (hreq : n.required = true) : p.returned ≠ .null := fun hnull =>
  Outline.ne_null_of_eval h.eval hn hreq (h.null_iff.mp hnull)

theorem Accepted.of_array {n : Node} {item : Option Outline} {xs : List Json} {w : Json}
    (h : Accepted ⟨.array n item, .array xs, w⟩) :
    ∃ ys, w = .array ys ∧ List.Forall₂ (fun x y => Outline.evalItem item x = .ok y) xs ys := by
  obtain ⟨hw, -, he⟩ := h
  cases hw with
  | array hk =>
    rcases (Outline.eval_array_eq_ok_iff hk).mp he with ⟨⟨⟩, -⟩ | ⟨_, ys, ⟨⟩, -, hys, rfl⟩
    exact ⟨ys, rfl, mapM_eq_ok_iff.mp hys⟩

theorem Accepted.of_object {n : Node} {fields : List (String × Outline)}
    {xs : List (String × Json)} {w : Json} (h : Accepted ⟨.object n fields, .object xs, w⟩) :
    ∃ ys, w = .object ys ∧ ∀ f ∈ fields, ∃ y, ys.lookup f.1 = some y ∧
      Accepted ⟨f.2, Json.member f.1 xs, y⟩ := by
  obtain ⟨hw, hd, he⟩ := h
  cases hw with
  | object hk hfields =>
    cases hd with
    | object hnames hdistinct =>
      rcases (Outline.eval_object_eq_ok_iff hk).mp he with ⟨⟨⟩, -⟩ | ⟨_, outs, ⟨⟩, houts, hw⟩
      -- the names of what is returned are the declared ones, so each is found under its own
      rw [← Outline.names_of_evalFields houts] at hnames
      obtain ⟨ys, hys⟩ : ∃ ys, Json.ofMembers outs = .object ys := ⟨_, rfl⟩
      refine ⟨ys, hw.trans hys, fun f hf => ?_⟩
      obtain ⟨y, hy, hmem⟩ := Outline.mem_of_evalFields houts hf
      have hlookup : ys.lookup f.1 = some y := by
        rw [((Json.ofMembers_eq_object_iff hnames).mp hys).2]
        exact (lookup_eq_some_iff_mem hnames).mpr hmem
      exact ⟨y, hlookup, hfields f hf, hdistinct f hf, hy⟩

/-- **Positions that an accepted one leads on to are accepted.** -/
theorem Accepted.of_leads (h : p.Accepted) (hpq : p.Leads q) : q.Accepted := by
  cases hpq with
  | item hx hy =>
    obtain ⟨_, ⟨⟩, hf⟩ := h.of_array
    obtain ⟨hi, rfl⟩ := List.getElem?_eq_some_iff.mp hx
    obtain ⟨hj, rfl⟩ := List.getElem?_eq_some_iff.mp hy
    obtain ⟨hw, hd, -⟩ := h
    cases hw with
    | array _ hitem =>
      cases hd with
      | array hdistinct => exact ⟨hitem _ rfl, hdistinct _ rfl, hf.get hi hj⟩
  | field hf hy =>
    obtain ⟨_, ⟨⟩, hmembers⟩ := h.of_object
    obtain ⟨y, hlookup, hacc⟩ := hmembers _ hf
    cases hlookup.symm.trans hy
    exact hacc

theorem Accepted.keepsNull (h : p.Accepted) : p.KeepsNull where
  null := h.null_iff
  required _ hn hreq := h.ne_null hn hreq
  items n item xs ho hg := by
    obtain ⟨o, given, w⟩ := p
    subst ho hg
    obtain ⟨ys, rfl, hf⟩ := h.of_array
    exact ⟨ys, rfl, hf.length_eq.symm⟩
  members n fields xs ho hg := by
    obtain ⟨o, given, w⟩ := p
    subst ho hg
    obtain ⟨ys, rfl, hmembers⟩ := h.of_object
    refine ⟨ys, rfl, fun f hf => ?_⟩
    obtain ⟨y, hlookup, hacc⟩ := hmembers f hf
    exact ⟨y, hlookup, hacc.null_iff.trans Json.member_eq_null_iff, fun _ hn hreq =>
      hacc.ne_null hn hreq⟩

theorem Accepted.of_reaches (h : p.Accepted) (hpq : Relation.ReflTransGen Leads p q) :
    q.Accepted := by
  induction hpq with
  | refl => exact h
  | tail _ hstep ih => exact ih.of_leads hstep

end Position

/-! ### Compiled schemas -/

namespace Schema

variable {v : Vocabulary} {path : String} {S : Schema} {c : Compiled}

theorem exists_node_of_compile (h : (S.compile v path).result = .ok c) :
    ∃ n ∈ (S.outline v path).node?, n.path = c.name ∧ n.required = c.required ∧
      (c.required = true ↔ S.Required) := by
  obtain ⟨d, hd, -, hname, -, hreq⟩ := validator_of_compile h
  refine ⟨d.toNode, ?_, hname.symm, hreq.symm, ?_⟩
  · rw [outline_of_describe hd]
    exact Descriptor.node?_outline _ d
  · rw [hreq]
    exact (describedBy_of_describe hd).required

/-- **Presence is decided by the node alone.** A compiled schema rejects null, under its own name,
if its form asks for a value, and returns it if not; whatever it returns is null exactly for null.
Null is kept in the same way at every position of what is given and returned. -/
theorem validate_null (h : (S.compile v path).result = .ok c) :
    (c.required = true ↔ S.Required) ∧
    (c.required = false → c.validate .null = .ok .null) ∧
    (c.required = true → ∃ text, c.validate .null = .error ⟨.requireField, c.name, text⟩) ∧
    (∀ raw out, c.validate raw = .ok out → (out = .null ↔ raw = .null)) ∧
    (S.Distinct → ∃ o, S.HasOutline v path o ∧ ∀ raw out, c.validate raw = .ok out → ∀ p,
      Relation.ReflTransGen Position.Leads ⟨o, raw, out⟩ p → p.KeepsNull) := by
  have hw := wellFormed_of_compile h
  obtain ⟨n, hn, hname, hreq, hform⟩ := exists_node_of_compile h
  have hnull := validate_eq_eval h .null
  rw [Outline.eval_null hw hn, hreq] at hnull
  have heval : ∀ raw out, c.validate raw = .ok out → (S.outline v path).eval raw = .ok out := by
    intro raw out hout
    rwa [validate_eq_eval h, mapError_eq_ok_iff] at hout
  refine ⟨hform, fun hf => ?_, fun ht => ?_, fun raw out hout => ?_,
    fun hS => ⟨S.outline v path, hasOutline_of_compile h, fun raw out hout p hp => ?_⟩⟩
  · rw [hnull, hf]
    rfl
  · rw [hnull, ht, ← hname]
    exact ⟨_, rfl⟩
  · exact Outline.eval_eq_null_iff hw (heval raw out hout)
  · have hacc : Position.Accepted ⟨S.outline v path, raw, out⟩ :=
      ⟨hw, distinct_outline v path S hS, heval raw out hout⟩
    exact (hacc.of_reaches hp).keepsNull

theorem validate_null_order :
    ∃ c out, (orderSchema.compile .builtin "order").result = .ok c ∧ orderSchema.Distinct ∧
      c.validate order = .ok out ∧ c.validate .null = .ok .null ∧
      ∃ members, out = .object members ∧ members.lookup "customer" = some .null ∧
        ∃ id, members.lookup "id" = some id ∧ id ≠ .null := by
  obtain ⟨c, hc⟩ := orderSchema_compiles
  obtain ⟨out, hout, -⟩ := validate_order hc
  obtain ⟨hform, hnull, -, -, hall⟩ := validate_null hc
  refine ⟨c, out, hc, orderSchema_distinct, hout, hnull ?_, ?_⟩
  · exact Bool.eq_false_iff.mpr fun hreq => hform.mp hreq
  · obtain ⟨o, ho, hkeeps⟩ := hall orderSchema_distinct
    obtain rfl := ho.unique (hasOutline_of_compile hc)
    have hroot := hkeeps order out hout _ .refl
    rw [outline_of_describe rfl, Descriptor.outline_of_object rfl] at hroot
    obtain ⟨members, hmembers, hfields⟩ := hroot.members _ _ _ rfl rfl
    obtain ⟨customer, hcustomer, hiff, -⟩ :=
      hfields _ (List.mem_map_of_mem (.tail _ (.tail _ (.head _))))
    obtain ⟨id, hid, -, hreq⟩ := hfields _ (List.mem_map_of_mem (.head _))
    obtain rfl := hiff.mpr (Or.inl rfl)
    have hdescribe : (named "int-required").describe .builtin "order.id" =
        .ok { kind := .integer, path := "order.id", required := true } := rfl
    have hnode := (congrArg Outline.node? (outline_of_describe hdescribe)).trans
      (Descriptor.node?_outline _ _)
    exact ⟨members, hmembers, hcustomer, id, hid, hreq _ hnode rfl⟩

end Schema

end ShorthandSchema
