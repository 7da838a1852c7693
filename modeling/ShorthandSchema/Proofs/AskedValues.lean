import ShorthandSchema.Proofs.Scalars

/-! # Asked values: nodes that accept the equals of a value

A node for texts or numbers may ask for a value. What it is given is accepted if both count as the
same text, or as numbers that are the same. Both sides are coerced in the same way, so it makes no
difference which of two values is asked for and which is given. A value that does not count as a
number is the same as none, also of its own kind, so equality is reflexive only on those that count.

* `Equates.symm`, `Equates.trans`, `equates_self_iff`: the laws of this equality.
* `accepts_asking_iff`: a descriptor without other constraints accepts the equals of its value.
* `asking_partial_equivalence`: the same laws for what descriptors accept. -/

namespace ShorthandSchema

/-! ### Numbers that are the same -/

namespace Binary64

theorem same_comm (a b : Binary64) : a.same b = b.same a := by
  cases a with
  | finite x =>
    cases b with
    | finite y => exact decide_eq_decide.mpr eq_comm
    | infinite | nan => rfl
  | infinite m =>
    cases b with
    | infinite n => exact Bool.beq_comm
    | finite | nan => rfl
  | nan => cases b <;> rfl

theorem same_trans {a b c : Binary64} (hab : a.same b) (hbc : b.same c) : a.same c := by
  cases a with
  | finite x =>
    cases b with
    | finite y =>
      cases c with
      | finite z => exact decide_eq_true ((of_decide_eq_true hab).trans (of_decide_eq_true hbc))
      | infinite | nan => cases hbc
    | infinite | nan => cases hab
  | infinite m =>
    cases b with
    | infinite n =>
      obtain rfl : m = n := beq_iff_eq.mp hab
      exact hbc
    | finite | nan => cases hab
  | nan => cases hab

theorem same_self (x : Finite) : same (.finite x) (.finite x) := decide_eq_true rfl

end Binary64

/-! ### Values that count as the same -/

namespace Node

/-- **A value counts** under the kind of a node: as a text always, as a number if it is coerced to
one. -/
inductive Counts (n : Node) (a : Json) : Prop
  | text (hk : n.kind = .string)
  | number (hk : n.IsNumber) {x : Coerced} (hx : a.asNumber? n.wholeNumbers = some x)

/-- **Two values count as the same** under the kind of a node. -/
inductive Equates (n : Node) (a b : Json) : Prop
  | text (hk : n.kind = .string) (h : a.asText = b.asText)
  | number (hk : n.IsNumber) {x y : Coerced} (hx : a.asNumber? n.wholeNumbers = some x)
      (hy : b.asNumber? n.wholeNumbers = some y) (h : x.value.same y.value)

theorem IsNumber.not_string {n : Node} (h : n.IsNumber) : n.kind ≠ .string := by
  rcases h with h | h <;> simp [h]

variable {n : Node} {a b c : Json}

theorem Equates.symm (h : n.Equates a b) : n.Equates b a := by
  cases h with
  | text hk h => exact .text hk h.symm
  | number hk hx hy h => exact .number hk hy hx (Binary64.same_comm _ _ ▸ h)

theorem Equates.trans (hab : n.Equates a b) (hbc : n.Equates b c) : n.Equates a c := by
  cases hab with
  | text hk h =>
    cases hbc with
    | text _ h' => exact .text hk (h.trans h')
    | number hn => exact absurd hk hn.not_string
  | number hn hx hy h =>
    cases hbc with
    | text hk => exact absurd hk hn.not_string
    | number _ hy' hz h' =>
      obtain rfl := Option.some.inj (hy.symm.trans hy')
      exact .number hn hx hz (Binary64.same_trans h h')

theorem Equates.counts (h : n.Equates a b) : n.Counts a := by
  cases h with
  | text hk => exact .text hk
  | number hk hx => exact .number hk hx

/-- Only the kind and the treatment of fractions matter. -/
theorem Equates.congr {m : Node} (h : n.Equates a b) (hk : m.kind = n.kind)
    (hw : m.wholeNumbers = n.wholeNumbers) : m.Equates a b := by
  cases h with
  | text hn h => exact .text (hk.trans hn) h
  | number hn hx hy h =>
    have hm : m.IsNumber := hn.imp hk.trans hk.trans
    rw [← hw] at hx hy
    exact .number hm hx hy h

theorem equates_of_asNumber? (hk : n.IsNumber) {x : Coerced}
    (ha : a.asNumber? n.wholeNumbers = some x) (hb : b.asNumber? n.wholeNumbers = some x) :
    n.Equates a b := by
  obtain ⟨y, hy⟩ := Json.exists_finite_of_asNumber? ha
  refine .number hk ha hb ?_
  rw [hy]
  exact Binary64.same_self y

theorem equates_self_iff : n.Equates a a ↔ n.Counts a := by
  refine ⟨Equates.counts, fun h => ?_⟩
  cases h with
  | text hk => exact .text hk rfl
  | number hk hx => exact equates_of_asNumber? hk hx hx

end Node

/-! ### Descriptors that ask for a value -/

/-- **A node for texts or numbers with no constraint** but perhaps a value that it asks for. -/
structure Node.OnlyAsks (n : Node) : Prop where
  kind : n.kind = .string ∨ n.IsNumber
  minLength : n.minLength = none
  maxLength : n.maxLength = none
  minValue : n.minValue = none
  maxValue : n.maxValue = none
  pattern : n.pattern = none

namespace Node.OnlyAsks

variable {n : Node} (h : n.OnlyAsks)
include h

theorem not_array : n.kind ≠ .array := by
  rcases h.kind with hk | hk
  · simp [hk]
  · exact hk.not_array

theorem not_object : n.kind ≠ .object := by
  rcases h.kind with hk | hk
  · simp [hk]
  · exact hk.not_object

theorem fits : n.Fits := by
  intro hb
  rcases h.kind with hk | hk | hk <;> simp [hk] at hb

/-- **A node that only asks for a value complains about nothing that equals it.** -/
theorem complaints_eq_nil_iff {e raw : Json} (hv : n.value = some e) (hr : raw.isNull = false) :
    n.complaints raw = [] ↔ n.Equates e raw := by
  obtain ⟨hkind, hminl, hmaxl, hmin, hmax, hpat⟩ := h
  rcases hkind with hk | hk
  · have hc : n.complaints raw = n.textComplaints raw.asText := by simp [complaints, hr, hk]
    rw [hc, textComplaints_eq_nil_iff]
    constructor
    · intro hfits
      exact .text hk (hfits.expected e hv).symm
    · rintro (⟨-, he⟩ | hn)
      · exact ⟨by simp [hminl], by simp [hmaxl], by simp [hv, he], by simp [hpat]⟩
      · exact absurd hk hn.not_string
  · rw [complaints_number hk hr, numberComplaints]
    constructor
    · intro hc
      cases hx : raw.asNumber? n.wholeNumbers with
      | none => simp [hx] at hc
      | some x =>
        rw [hx] at hc
        obtain ⟨y, hy, hsame⟩ := (boundComplaints_eq_nil_iff.mp hc).expected e hv
        exact .number hk hy hx (Binary64.same_comm _ _ ▸ hsame)
    · rintro (⟨hs, -⟩ | ⟨-, hy, hx, hsame⟩)
      · exact absurd hs hk.not_string
      · rw [hx]
        refine boundComplaints_eq_nil_iff.mpr ⟨by simp [hmin], by simp [hmax], fun e' he => ?_⟩
        obtain rfl := Option.some.inj (hv.symm.trans he)
        exact ⟨_, hy, Binary64.same_comm _ _ ▸ hsame⟩

end Node.OnlyAsks

namespace Descriptor

/-- The descriptor with a value that it asks for. -/
def asking {σ : Type} (d : Descriptor σ) (e : Json) : Descriptor σ := { d with value := some e }

/-- **A descriptor accepts a value**: it compiles, and its validator accepts the value. -/
def Accepts (v : Vocabulary) (path : String) (d : Descriptor Schema) (raw : Json) : Prop :=
  ∃ c, ((Schema.described d).compile v path).result = .ok c ∧ c.Accepts raw

section OnlyAsks

variable {d : Descriptor Schema} (h : d.OnlyAsks) (v : Vocabulary) (path : String)
include h

theorem onlyAsks_asking (e : Json) (place : String) :
    Node.OnlyAsks { (d.asking e).toNode with path := place } :=
  ⟨h.kind, h.minLength, h.maxLength, h.minValue, h.maxValue, h.pattern⟩

theorem exists_compile_asking (e : Json) :
    ∃ c, ((Schema.described (d.asking e)).compile v path).result = .ok c ∧
      c.TopNode { (d.asking e).toNode with path := (Schema.described (d.asking e)).pathAt path } :=
  have ha : (d.asking e).OnlyAsks := onlyAsks_asking h e d.path
  exists_compile_of_scalar (d.asking e) ha.not_array ha.not_object ha.fits v path

section Compiled

variable {c : Compiled} {e raw out : Json}
  (hc : ((Schema.described (d.asking e)).compile v path).result = .ok c)
  (hr : raw.isNull = false)
include hc hr

theorem validate_asking_eq_ok_iff :
    c.validate raw = .ok out ↔ d.Equates e raw ∧ d.toNode.coerced raw = out := by
  obtain ⟨c', hc', hn⟩ := exists_compile_asking h v path e
  obtain rfl := Except.ok.inj (hc'.symm.trans hc)
  -- the path is the only difference between the node and the descriptor
  set n : Node := { (d.asking e).toNode with path := (Schema.described (d.asking e)).pathAt path }
  have hasks : n.OnlyAsks := onlyAsks_asking h e _
  have hequates : n.Equates e raw ↔ d.Equates e raw :=
    ⟨fun he => he.congr rfl rfl, fun he => he.congr rfl rfl⟩
  rw [hn.validate_scalar_eq_ok_iff hasks.not_array hasks.not_object,
    hasks.complaints_eq_nil_iff rfl hr, hequates]
  rfl

theorem eq_of_validate_asking (hk : d.kind = .string) (hout : c.validate raw = .ok out) :
    out = .string e.asText := by
  obtain ⟨hequates, rfl⟩ := (validate_asking_eq_ok_iff h v path hc hr).mp hout
  have htext : e.asText = raw.asText := by
    cases hequates with
    | text _ htext => exact htext
    | number hn => exact absurd hk hn.not_string
  rw [htext]
  simp [Node.coerced, hr, hk]

end Compiled

/-- **A descriptor that asks for a value accepts what counts as the same**, and nothing else. -/
theorem accepts_asking_iff {e raw : Json} (hr : raw.isNull = false) :
    (d.asking e).Accepts v path raw ↔ d.Equates e raw := by
  constructor
  · rintro ⟨c, hc, out, hout⟩
    exact ((validate_asking_eq_ok_iff h v path hc hr).mp hout).1
  · intro hequates
    obtain ⟨c, hc, -⟩ := exists_compile_asking h v path e
    exact ⟨c, hc, _, (validate_asking_eq_ok_iff h v path hc hr).mpr ⟨hequates, rfl⟩⟩

/-- **The value asked for and the value given are compared by the same coercion.** Of a descriptor
for texts or numbers without other constraints, with any treatment of fractions: it compiles with
every value; on values that are not null, acceptance is symmetric and transitive; a value is accepted
where it is asked for exactly if it counts under the kind, which every value does as a text; and where one
that does not count is asked for, nothing is accepted. For texts all that is accepted comes out the
same. -/
theorem asking_partial_equivalence :
    (∀ e, ∃ c, ((Schema.described (d.asking e)).compile v path).result = .ok c) ∧
    (∀ a b, a.isNull = false → b.isNull = false →
      ((d.asking a).Accepts v path b ↔ (d.asking b).Accepts v path a)) ∧
    (∀ a b c, b.isNull = false → c.isNull = false → (d.asking a).Accepts v path b →
      (d.asking b).Accepts v path c → (d.asking a).Accepts v path c) ∧
    (∀ a, a.isNull = false → ((d.asking a).Accepts v path a ↔ d.Counts a)) ∧
    (∀ a b, ¬ d.Counts a → b.isNull = false → ¬ (d.asking a).Accepts v path b) ∧
    (d.kind = .string → (∀ a, d.Counts a) ∧
      ∀ e c, ((Schema.described (d.asking e)).compile v path).result = .ok c →
        ∀ a b out out', a.isNull = false → b.isNull = false → c.validate a = .ok out →
          c.validate b = .ok out' → out = out') := by
  refine ⟨fun e => ?_, fun a b ha hb => ?_, fun a b c hb hc hab hbc => ?_, fun a ha => ?_,
    fun a b ha hb haccepts => ?_, fun hk => ⟨fun a => .text hk, ?_⟩⟩
  · obtain ⟨c, hc, -⟩ := exists_compile_asking h v path e
    exact ⟨c, hc⟩
  · rw [accepts_asking_iff h v path hb, accepts_asking_iff h v path ha]
    exact ⟨Node.Equates.symm, Node.Equates.symm⟩
  · rw [accepts_asking_iff h v path hb] at hab
    rw [accepts_asking_iff h v path hc] at hbc ⊢
    exact hab.trans hbc
  · rw [accepts_asking_iff h v path ha]
    exact Node.equates_self_iff
  · exact ha ((accepts_asking_iff h v path hb).mp haccepts).counts
  · intro e c hc a b out out' ha hb hout hout'
    rw [eq_of_validate_asking h v path hc ha hk hout, eq_of_validate_asking h v path hc hb hk hout']

end OnlyAsks

/-- A count that is required. -/
def countDescriptor : Descriptor Schema := { kind := .integer, path := "count", required := true }

/-- Of texts with the same integer at their start one is accepted where another is asked for, as
both are where the integer is. A boolean is not even accepted where it is asked for. -/
theorem asking_partial_equivalence_count :
    countDescriptor.OnlyAsks ∧
      (countDescriptor.asking (.string " 7.9 kg")).Accepts .builtin "" (.string "+07e5") ∧
      ¬ (countDescriptor.asking (.bool true)).Accepts .builtin "" (.bool true) := by
  have h : countDescriptor.OnlyAsks := ⟨Or.inr (Or.inl rfl), rfl, rfl, rfl, rfl, rfl⟩
  have hk : countDescriptor.IsNumber := Or.inl rfl
  have hseven : (Json.number (.integer 7 (by decide))).asNumber? countDescriptor.wholeNumbers =
      some ⟨.ofInt 7, .integer 7 (by decide)⟩ := rfl
  have hleft : (Json.string " 7.9 kg").asNumber? countDescriptor.wholeNumbers =
      some ⟨.ofInt 7, .integer 7 (by decide)⟩ := by decide +kernel
  have hright : (Json.string "+07e5").asNumber? countDescriptor.wholeNumbers =
      some ⟨.ofInt 7, .integer 7 (by decide)⟩ := by decide +kernel
  have hbool : ¬ countDescriptor.Counts (.bool true) := by
    rintro (hs | ⟨-, hx⟩)
    · cases hs
    · cases hx
  obtain ⟨-, -, htrans, -, hnone, -⟩ := asking_partial_equivalence h .builtin ""
  refine ⟨h, htrans _ (.number (.integer 7 (by decide))) _ rfl rfl ?_ ?_, hnone _ _ hbool rfl⟩
  · exact (accepts_asking_iff h .builtin "" rfl).mpr (Node.equates_of_asNumber? hk hleft hseven)
  · exact (accepts_asking_iff h .builtin "" rfl).mpr (Node.equates_of_asNumber? hk hseven hright)

end Descriptor

end ShorthandSchema
