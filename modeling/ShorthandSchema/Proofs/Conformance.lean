import ShorthandSchema.Proofs.Members
import ShorthandSchema.Proofs.NumberForm
import ShorthandSchema.Proofs.Written

/-! # Conformance: the values that a schema leaves as they are

Conformance is said of the outline that a schema writes, without coercion: a value conforms if it
already has the type of its node and every constraint holds of it. Members of objects are listed by
key.

* `conforms_of_eval`: what an evaluation returns conforms.
* `eval_of_conforms`: a value that conforms is returned as it is. -/

namespace ShorthandSchema

open Binary64 (Alike)

namespace Node

/-! ### The constraints of a node -/

/-- A number is within the bounds of a node, and the same as the one it asks for. -/
structure NumberFits (n : Node) (x : Binary64) : Prop where
  least : ∀ b ∈ n.minValue, x.less b = false
  most : ∀ b ∈ n.maxValue, b.less x = false
  expected : ∀ e ∈ n.value, ∃ c, e.asNumber? n.wholeNumbers = some c ∧ x.same c.value

/-- A text has a length within the bounds of a node, is the one it asks for, and has a part that
matches its pattern. -/
structure TextFits (n : Node) (s : String) : Prop where
  least : ∀ b ∈ n.minLength, b ≤ s.length
  most : ∀ b ∈ n.maxLength, s.length ≤ b
  expected : ∀ e ∈ n.value, s = e.asText
  pattern : ∀ p ∈ n.pattern, p.occursIn s

/-- A number of items is within the bounds of a node. -/
structure CountFits (n : Node) (count : Nat) : Prop where
  least : ∀ b ∈ n.minItems, b ≤ count
  most : ∀ b ∈ n.maxItems, count ≤ b

theorem NumberFits.congr {n : Node} {x y : Binary64} (h : Alike x y) (hx : n.NumberFits x) :
    n.NumberFits y where
  least b hb := (h.less_left b).symm.trans (hx.least b hb)
  most b hb := (h.less_right b).symm.trans (hx.most b hb)
  expected e he := by
    obtain ⟨c, hc, hs⟩ := hx.expected e he
    exact ⟨c, hc, by rw [← h.same_left]; exact hs⟩

theorem same_nan (x : Binary64) : x.same .nan = false := by cases x <;> rfl

theorem boundComplaints_eq_nil_iff {n : Node} {x : Binary64} :
    n.boundComplaints x = [] ↔ n.NumberFits x := by
  unfold boundComplaints expectedNumber
  rw [List.append_eq_nil_iff, List.append_eq_nil_iff, failing_eq_nil_iff, failing_eq_nil_iff,
    failing_eq_nil_iff]
  constructor
  · rintro ⟨hl, hm, he⟩
    refine ⟨hl, hm, fun e hv => ?_⟩
    have hs := he _ (Option.mem_map_of_mem _ hv)
    cases hc : e.asNumber? n.wholeNumbers with
    | none => simp [hc, same_nan] at hs
    | some c => exact ⟨c, rfl, by simpa [hc] using hs⟩
  · rintro ⟨hl, hm, he⟩
    refine ⟨hl, hm, fun b hb => ?_⟩
    obtain ⟨e, hv, rfl⟩ := Option.mem_map.mp hb
    obtain ⟨c, hc, hs⟩ := he e hv
    simp [hc, hs]

theorem textComplaints_eq_nil_iff {n : Node} {s : String} :
    n.textComplaints s = [] ↔ n.TextFits s := by
  unfold textComplaints
  rw [List.append_eq_nil_iff, List.append_eq_nil_iff, List.append_eq_nil_iff, failing_eq_nil_iff,
    failing_eq_nil_iff, failing_eq_nil_iff, failing_eq_nil_iff]
  constructor
  · rintro ⟨hl, hm, he, hp⟩
    exact ⟨fun b hb => by simpa using hl b hb, fun b hb => by simpa using hm b hb,
      fun e hv => by simpa using he _ (Option.mem_map_of_mem _ hv),
      fun p h => by simpa using hp p h⟩
  · rintro ⟨hl, hm, he, hp⟩
    refine ⟨fun b hb => by simpa using hl b hb, fun b hb => by simpa using hm b hb,
      fun b hb => ?_, fun p h => by simpa using hp p h⟩
    obtain ⟨e, hv, rfl⟩ := Option.mem_map.mp hb
    simpa using he e hv

theorem arrayComplaints_eq_nil_iff {n : Node} {items : List Json} :
    n.arrayComplaints (.array items) = [] ↔ n.CountFits items.length := by
  unfold arrayComplaints
  rw [List.append_eq_nil_iff, failing_eq_nil_iff, failing_eq_nil_iff]
  constructor
  · rintro ⟨hl, hm⟩
    exact ⟨fun b hb => by simpa using hl b hb, fun b hb => by simpa using hm b hb⟩
  · rintro ⟨hl, hm⟩
    exact ⟨fun b hb => by simpa using hl b hb, fun b hb => by simpa using hm b hb⟩

end Node

/-! ### Conformance -/

/-- Null is allowed where the topmost node does not require a value. -/
def Outline.AllowsNull : Outline → Prop
  | fault _ => False
  | scalar n => n.required = false
  | array n _ => n.required = false
  | object n _ => n.required = false

/-- **A value conforms to an outline**: it has the type of its node, the constraints hold of it, and
what is in it conforms to the outlines below. -/
inductive Outline.Conforms : Outline → Json → Prop
  | null {o : Outline} (h : o.AllowsNull) : Conforms o .null
  | boolean {n : Node} {b : Bool} (hkind : n.kind = .boolean) (h : ∀ e ∈ n.value, e = .bool b) :
      Conforms (.scalar n) (.bool b)
  | number {n : Node} {x : Json.Number} (hkind : n.kind = .integer ∨ n.kind = .number)
      (hnormal : x.Normal n.wholeNumbers) (h : n.NumberFits x.toBinary64) :
      Conforms (.scalar n) (.number x)
  | string {n : Node} {s : String} (hkind : n.kind = .string) (h : n.TextFits s) :
      Conforms (.scalar n) (.string s)
  | any {n : Node} {w : Json} (hkind : n.kind = .any) (h : w.isNull = false) :
      Conforms (.scalar n) w
  | array {n : Node} {item : Option Outline} {items : List Json}
      (h : n.CountFits items.length) (hitems : ∀ o ∈ item, ∀ w ∈ items, Conforms o w) :
      Conforms (.array n item) (.array items)
  | object {n : Node} {fields : List (String × Outline)} {members : List (String × Json)}
      (horder : Json.KeyOrdered members)
      (hkeys : ∀ key, key ∈ members.map (·.1) ↔ key ∈ fields.map (·.1))
      (hmembers : ∀ f ∈ fields, Conforms f.2 (Json.member f.1 members)) :
      Conforms (.object n fields) (.object members)

namespace Node

variable {n : Node}

/-! ### What comes out conforms -/

theorem conforms_coerced_number {raw : Json} (hk : n.kind = .integer ∨ n.kind = .number)
    (hc : n.numberComplaints raw = []) :
    Outline.Conforms (.scalar n)
      ((raw.asNumber? n.wholeNumbers).elim .null (.number ·.number)) := by
  unfold numberComplaints at hc
  cases ha : raw.asNumber? n.wholeNumbers with
  | none => simp [ha] at hc
  | some c =>
    rw [ha] at hc
    have hs := Json.sound_of_asNumber? ha
    have hf : n.NumberFits c.value := boundComplaints_eq_nil_iff.mp hc
    exact .number hk hs.normal (hf.congr hs.alike.symm)

/-- **A scalar node that accepts a value makes a value that conforms of it.** -/
theorem conforms_coerced (ha : n.kind ≠ .array) (ho : n.kind ≠ .object) (hfits : n.Fits)
    {raw : Json} (hc : n.complaints raw = []) : Outline.Conforms (.scalar n) (n.coerced raw) := by
  cases hr : raw.isNull with
  | true =>
    obtain rfl := Json.eq_null_of_isNull hr
    exact .null (complaints_null_eq_nil_iff.mp hc)
  | false =>
    unfold complaints at hc
    unfold coerced
    simp only [hr, Bool.false_eq_true, if_false] at hc ⊢
    cases hk : n.kind with
    | boolean =>
      rw [hk] at hc
      refine .boolean hk fun e he => ?_
      obtain ⟨b, rfl⟩ := hfits hk e he
      have hv : n.value = some (.bool b) := he
      simp only [booleanComplaints, hv] at hc
      split at hc
      · rename_i hb
        rw [hb]
      · cases hc
    | integer =>
      rw [hk] at hc
      exact conforms_coerced_number (Or.inl hk) hc
    | number =>
      rw [hk] at hc
      exact conforms_coerced_number (Or.inr hk) hc
    | string =>
      rw [hk] at hc
      exact .string hk (textComplaints_eq_nil_iff.mp hc)
    | array => exact absurd hk ha
    | object => exact absurd hk ho
    | any => exact .any hk hr

end Node

namespace Outline

/-- **What an evaluation returns conforms.** -/
theorem conforms_of_eval {o : Outline} (hw : o.WellFormed) (hd : o.Distinct) :
    ∀ {raw out : Json}, o.eval raw = .ok out → o.Conforms out := by
  induction hw with
  | scalar ha ho hfits =>
    intro raw out h
    obtain ⟨hc, rfl⟩ := eval_scalar_eq_ok_iff.mp h
    exact Node.conforms_coerced ha ho hfits hc
  | array hk _ ih =>
    cases hd with
    | array hitem =>
      intro raw out h
      rcases (eval_array_eq_ok_iff hk).mp h with ⟨-, hn, rfl⟩ | ⟨items, outs, rfl, hc, houts, rfl⟩
      · exact .null hn
      · have hf := mapM_eq_ok_iff.mp houts
        refine .array ?_ ?_
        · rw [← hf.length_eq]
          exact Node.arrayComplaints_eq_nil_iff.mp hc
        · rintro o ho w hw
          obtain ⟨x, -, hx⟩ := exists_of_forall₂ hf.flip hw
          cases ho
          exact ih o rfl (hitem o rfl) hx
  | object hk _ ih =>
    cases hd with
    | object hnames hfields =>
      intro raw out h
      rcases (eval_object_eq_ok_iff hk).mp h with ⟨-, hn, rfl⟩ | ⟨given, outs, rfl, houts, rfl⟩
      · exact .null hn
      · have hn := names_of_evalFields houts
        rw [← hn] at hnames
        -- what comes out is sorted by key; only its lookups are known
        obtain ⟨horder, hlookup⟩ := (Json.ofMembers_eq_object_iff hnames).mp rfl
        refine .object horder (fun key => ?_) fun f hf => ?_
        · rw [← hn, ← not_iff_not, ← lookup_eq_none_iff_notMem, ← lookup_eq_none_iff_notMem,
            hlookup]
        · obtain ⟨w, hw, hm⟩ := mem_of_evalFields houts hf
          rw [Json.member_of_ofMembers_eq hnames rfl hm]
          exact ih f hf (hfields f hf) hw

/-! ### What conforms stays -/

theorem eval_scalar_of_conforms {n : Node} {w : Json} (h : Conforms (.scalar n) w) :
    eval (.scalar n) w = .ok w := by
  rw [eval_scalar_eq_ok_iff]
  cases h with
  | null h => exact ⟨Node.complaints_null_eq_nil_iff.mpr h, rfl⟩
  | @boolean _ b hk h =>
    refine ⟨?_, by simp [Node.coerced, Json.isNull, hk, Json.truthy]⟩
    simp only [Node.complaints, Json.isNull, hk, Node.booleanComplaints]
    cases hv : n.value with
    | none => rfl
    | some e =>
      rw [h e hv]
      simp [Json.truthy]
  | @number _ x hk hx h =>
    have ha := Json.asNumber?_of_normal hx
    have hc := Node.boundComplaints_eq_nil_iff.mpr h
    rcases hk with hk | hk
    · simp [Node.complaints, Node.numberComplaints, Node.coerced, Json.isNull, hk, ha, hc]
    · simp [Node.complaints, Node.numberComplaints, Node.coerced, Json.isNull, hk, ha, hc]
  | @string _ s hk h =>
    have hc := Node.textComplaints_eq_nil_iff.mpr h
    simp [Node.complaints, Node.coerced, Json.isNull, hk, Json.asText, hc]
  | any hk h => simp [Node.complaints, Node.coerced, hk, h]

/-- **A value that conforms is returned as it is.** -/
theorem eval_of_conforms {o : Outline} (hw : o.WellFormed) (hd : o.Distinct) :
    ∀ {w : Json}, o.Conforms w → o.eval w = .ok w := by
  induction hw with
  | scalar => exact eval_scalar_of_conforms
  | @array n item hk _ ih =>
    cases hd with
    | array hitem =>
      intro w h
      rw [eval_array_eq_ok_iff hk]
      cases h with
      | null h => exact Or.inl ⟨rfl, h, rfl⟩
      | @array _ _ items hc hitems =>
        refine Or.inr ⟨items, items, rfl, Node.arrayComplaints_eq_nil_iff.mpr hc, ?_, rfl⟩
        rw [mapM_eq_ok_iff, List.forall₂_same]
        intro x hx
        cases item with
        | none => rfl
        | some o => exact ih o rfl (hitem o rfl) (hitems o rfl x hx)
  | @object n fields hk _ ih =>
    cases hd with
    | object hnames hfields =>
      intro w h
      rw [eval_object_eq_ok_iff hk]
      cases h with
      | null h => exact Or.inl ⟨rfl, h, rfl⟩
      | @object _ _ members horder hkeys hmembers =>
        have houts : evalFields fields members =
            .ok (fields.map fun f => (f.1, Json.member f.1 members)) := by
          rw [evalFields_eq_mapM, mapM_eq_ok_iff, List.forall₂_map_right_iff, List.forall₂_same]
          intro f hf
          rw [ih f hf (hfields f hf) (hmembers f hf)]
          rfl
        refine Or.inr ⟨members, _, rfl, houts, Eq.symm ?_⟩
        rw [Json.ofMembers_eq_object_iff (by rw [List.map_map]; exact hnames)]
        exact ⟨horder, fun key => Json.lookup_eq_of_keys hkeys key⟩

theorem eval_of_eval {o : Outline} (hw : o.WellFormed) (hd : o.Distinct) {raw out : Json}
    (h : o.eval raw = .ok out) : o.eval out = .ok out :=
  eval_of_conforms hw hd (conforms_of_eval hw hd h)

end Outline

/-! ### Compiled schemas -/

namespace Schema

variable {v : Vocabulary} {path : String} {S : Schema} {c : Compiled}

/-- **Validation is idempotent**: what comes out is accepted as it is. -/
theorem validate_idempotent (h : (S.compile v path).result = .ok c) (hS : S.Distinct)
    {raw out : Json} (hout : c.validate raw = .ok out) : c.validate out = .ok out := by
  have hw := wellFormed_of_compile h
  have hd := distinct_outline v path S hS
  rw [validate_eq_eval h, mapError_eq_ok_iff] at hout ⊢
  exact Outline.eval_of_conforms hw hd (Outline.conforms_of_eval hw hd hout)

theorem validate_idempotent_order :
    ∃ c out, (orderSchema.compile .builtin "order").result = .ok c ∧ orderSchema.Distinct ∧
      c.validate order = .ok out ∧ c.validate out = .ok out := by
  obtain ⟨c, hc⟩ := orderSchema_compiles
  obtain ⟨out, hout, -⟩ := validate_order hc
  exact ⟨c, out, hc, orderSchema_distinct, hout, validate_idempotent hc orderSchema_distinct hout⟩

/-- **A value conforms to a schema** if it conforms to the outline that the schema writes. -/
def Conforms (v : Vocabulary) (path : String) (S : Schema) (w : Json) : Prop :=
  ∃ o, S.HasOutline v path o ∧ o.Conforms w

theorem conforms_iff_of_compile (h : (S.compile v path).result = .ok c) {w : Json} :
    S.Conforms v path w ↔ (S.outline v path).Conforms w := by
  have ho := hasOutline_of_compile h
  constructor
  · rintro ⟨o, ho', hw⟩
    rwa [ho.unique ho']
  · exact fun hw => ⟨_, ho, hw⟩

/-- **The values that are accepted as they are are those that conform.** -/
theorem validate_eq_self_iff_conforms (h : (S.compile v path).result = .ok c) (hS : S.Distinct)
    (w : Json) : c.validate w = .ok w ↔ S.Conforms v path w := by
  have hw := wellFormed_of_compile h
  have hd := distinct_outline v path S hS
  rw [conforms_iff_of_compile h, validate_eq_eval h, mapError_eq_ok_iff]
  exact ⟨Outline.conforms_of_eval hw hd, Outline.eval_of_conforms hw hd⟩

theorem conforms_order :
    ∃ c out, (orderSchema.compile .builtin "order").result = .ok c ∧ orderSchema.Distinct ∧
      c.validate order = .ok out ∧ c.validate out = .ok out ∧
      ¬ orderSchema.Conforms .builtin "order" order := by
  obtain ⟨c, hc⟩ := orderSchema_compiles
  obtain ⟨out, hout, htext⟩ := validate_order hc
  refine ⟨c, out, hc, orderSchema_distinct, hout, ?_, fun h => ?_⟩
  · have he : (orderSchema.outline .builtin "order").eval order = .ok out := by
      rw [← mapError_eq_ok_iff, ← validate_eq_eval hc]
      exact hout
    have hconforms := Outline.conforms_of_eval (wellFormed_of_compile hc)
      (distinct_outline .builtin "order" orderSchema orderSchema_distinct) he
    exact (validate_eq_self_iff_conforms hc orderSchema_distinct out).mpr
      ((conforms_iff_of_compile hc).mpr hconforms)
  · have hself := (validate_eq_self_iff_conforms hc orderSchema_distinct order).mpr h
    rw [hself] at hout
    cases hout
    exact absurd htext (by decide +kernel)

end Schema

end ShorthandSchema
