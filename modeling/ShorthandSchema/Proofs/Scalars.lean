import ShorthandSchema.Proofs.Conformance
import ShorthandSchema.Proofs.Faults
import ShorthandSchema.Proofs.Projection

/-! # Scalars: compiled schemas with a scalar on top

A compiled scalar is its topmost node. A number node looks at a value only through its coercion: the
checks compare the binary64 value, and what comes out is the number beside it.

* `TopNode.validate_scalar`: a compiled scalar checks its value and returns it coerced.
* `TopNode.validate_number_eq_ok_iff`: when a number is accepted, and what comes out.
* `TopNode.agree_of_alike`: values that are coerced to the same number are treated alike. -/

namespace ShorthandSchema

open Binary64 (Alike)

/-- `n` is the topmost node of a schema that `c` is compiled from. -/
def Compiled.TopNode (c : Compiled) (n : Node) : Prop :=
  ∃ v path S, (Schema.compile v path S).result = .ok c ∧ S.HasNode v path n

namespace Compiled

/-- A value is accepted. -/
def Accepts (c : Compiled) (raw : Json) : Prop := ∃ out, c.validate raw = .ok out

/-- A value is rejected with a code. -/
def Rejects (c : Compiled) (raw : Json) (code : Code) : Prop :=
  ∃ f, c.validate raw = .error f ∧ f.code = code

end Compiled

theorem Json.isNull_of_asNumber? {whole : Bool} {raw : Json} {x : Coerced}
    (h : raw.asNumber? whole = some x) : raw.isNull = false := by
  cases raw with
  | null => cases h
  | _ => rfl

theorem Descriptor.exists_compile_of_scalar (d : Descriptor Schema) (ha : d.kind ≠ .array)
    (ho : d.kind ≠ .object) (hf : d.Fits) (v : Vocabulary) (path : String) :
    ∃ c, ((Schema.described d).compile v path).result = .ok c ∧
      c.TopNode { d.toNode with path := (Schema.described d).pathAt path } := by
  have hd : (Schema.described d).describe v path =
      .ok { d with path := (Schema.described d).pathAt path } := rfl
  have hout : (Schema.described d).outline v path =
      .scalar { d.toNode with path := (Schema.described d).pathAt path } := by
    rw [Schema.outline_of_describe hd]
    exact Descriptor.outline_of_scalar (by exact ha) (by exact ho) _
  have hw : ((Schema.described d).outline v path).WellFormed := by
    rw [hout]
    exact .scalar ha ho hf
  obtain ⟨c, hc⟩ := Schema.exists_compile_of_wellFormed hw
  exact ⟨c, hc, v, path, _, hc, Schema.hasNode_described v path d⟩

namespace Node

/-- A node of one of the two kinds of numbers. -/
def IsNumber (n : Node) : Prop := n.kind = .integer ∨ n.kind = .number

theorem IsNumber.not_array {n : Node} (h : n.IsNumber) : n.kind ≠ .array := by
  rcases h with h | h <;> simp [h]

theorem IsNumber.not_object {n : Node} (h : n.IsNumber) : n.kind ≠ .object := by
  rcases h with h | h <;> simp [h]

/-- Every scalar that fits its kind is the topmost node of a schema that compiles. -/
theorem exists_topNode {n : Node} (ha : n.kind ≠ .array) (ho : n.kind ≠ .object) (hf : n.Fits) :
    ∃ c, Compiled.TopNode c n := by
  obtain ⟨c, -, hc⟩ := Descriptor.exists_compile_of_scalar { toNode := n } ha ho hf .builtin n.path
  have hn : { n with path := (Schema.described { toNode := n }).pathAt n.path } = n := by
    simp [Schema.pathAt]
  exact ⟨c, hn ▸ hc⟩

theorem IsNumber.exists_topNode {n : Node} (h : n.IsNumber) : ∃ c, Compiled.TopNode c n :=
  Node.exists_topNode h.not_array h.not_object fun hb => by rcases h with h | h <;> simp [h] at hb

theorem boundComplaints_congr (n : Node) {x y : Binary64} (h : Alike x y) :
    n.boundComplaints x = n.boundComplaints y := by
  have hleast : (fun b => x.less b) = fun b => y.less b := funext h.less_left
  have hmost : (fun b : Binary64 => b.less x) = fun b => b.less y := funext h.less_right
  have hsame : (fun b => !x.same b) = fun b => !y.same b := by
    funext b
    rw [h.same_left]
  rw [boundComplaints, boundComplaints, hleast, hmost, hsame]

variable {n : Node} (hk : n.IsNumber) {raw : Json}
include hk

theorem complaints_number (hr : raw.isNull = false) :
    n.complaints raw = n.numberComplaints raw := by
  rcases hk with hk | hk <;> simp [complaints, hr, hk]

theorem coerced_number {x : Coerced} (hx : raw.asNumber? n.wholeNumbers = some x) :
    n.coerced raw = .number x.number := by
  rcases hk with hk | hk <;> simp [coerced, Json.isNull_of_asNumber? hx, hk, hx]

end Node

namespace Compiled.TopNode

variable {c : Compiled} {n : Node} (h : c.TopNode n)
include h

/-- **A compiled scalar checks its value and returns it coerced.** -/
theorem validate_scalar (ha : n.kind ≠ .array) (ho : n.kind ≠ .object) (raw : Json) :
    c.validate raw = (n.checked raw (.ok (n.coerced raw))).mapError Rejection.failure := by
  obtain ⟨v, path, S, hc, hn⟩ := h
  have hw := Schema.wellFormed_of_compile hc
  have hn : (S.outline v path).node? = some n := (Schema.hasOutline_of_compile hc).node?_eq hn
  rw [Schema.validate_eq_eval hc]
  -- the outline is a scalar, as the other forms have other kinds on top
  generalize S.outline v path = o at hn hw
  cases hw with
  | scalar => cases hn; rfl
  | array hkind => cases hn; exact absurd hkind ha
  | object hkind => cases hn; exact absurd hkind ho

theorem validate_scalar_eq_ok_iff (ha : n.kind ≠ .array) (ho : n.kind ≠ .object)
    {raw out : Json} : c.validate raw = .ok out ↔ n.complaints raw = [] ∧ n.coerced raw = out := by
  rw [h.validate_scalar ha ho, mapError_eq_ok_iff, Node.checked_eq_ok_iff, Except.ok.injEq]

/-! ### Numbers -/

variable (hk : n.IsNumber) {raw : Json}
include hk

theorem exists_coerced {out : Json} (hr : raw.isNull = false) (hout : c.validate raw = .ok out) :
    ∃ x, raw.asNumber? n.wholeNumbers = some x := by
  rw [h.validate_scalar_eq_ok_iff hk.not_array hk.not_object, Node.complaints_number hk hr,
    Node.numberComplaints] at hout
  cases hx : raw.asNumber? n.wholeNumbers with
  | none => rw [hx] at hout; cases hout.1
  | some x => exact ⟨x, rfl⟩

variable {x : Coerced} (hx : raw.asNumber? n.wholeNumbers = some x)
include hx

theorem validate_number :
    c.validate raw = (n.boundComplaints x.value).head?.elim (.ok (.number x.number))
      fun q => .error (n.site.failure raw q) := by
  have hc : n.complaints raw = n.boundComplaints x.value := by
    rw [Node.complaints_number hk (Json.isNull_of_asNumber? hx), Node.numberComplaints, hx]
  rw [h.validate_scalar hk.not_array hk.not_object, Node.coerced_number hk hx, Node.checked, hc]
  cases (n.boundComplaints x.value).head? <;> rfl

theorem validate_number_eq_ok_iff {out : Json} :
    c.validate raw = .ok out ↔ n.NumberFits x.value ∧ out = .number x.number := by
  rw [h.validate_number hk hx, ← Node.boundComplaints_eq_nil_iff, eq_comm (a := out)]
  cases n.boundComplaints x.value <;> simp

/-- **Values that are coerced to the same number are treated alike.** -/
theorem agree_of_alike {raw' : Json} {y : Coerced} (hy : raw'.asNumber? n.wholeNumbers = some y)
    (hvalue : Alike x.value y.value) (hnumber : x.number = y.number) :
    Agree n.ComputesMessage (c.validate raw) (c.validate raw') := by
  rw [h.validate_number hk hx, h.validate_number hk hy, n.boundComplaints_congr hvalue, hnumber]
  cases (n.boundComplaints y.value).head? with
  | none => exact .ok _
  | some q =>
    have hcause : (Rejection.mk n raw q).cause = (Rejection.mk n raw' q).cause := rfl
    exact .error rfl rfl (Rejection.message_eq_or hcause)

end Compiled.TopNode

end ShorthandSchema
