import ShorthandSchema.Proofs.IntegerTexts
import ShorthandSchema.Proofs.Numeral.Printed

/-! # Printed numbers: what is read from the text of a number

A node for strings without constraints makes a text of a number: the digits of an integer, also of a
float without fraction that is one of the signed range, and the shortest digits of another float. A
node for numbers that keeps fractions reads this text as the number it was given.

* `Json.asNumber?_asText`: a text of a number is coerced to what the number is coerced to.
* `TopNode.validate_printed`: a printed number is treated as the number. -/

namespace ShorthandSchema

open Binary64 (Alike Finite)

/-! ### Texts of numbers -/

namespace Json

theorem spells_text (whole : Bool) (k : Int) (exact : Exact k) :
    (Json.string (Number.integer k exact).text).Spells whole k := by
  have hsign : Sign.Suits (if k < 0 then some .minus else none) k := by
    refine ⟨fun h => if_pos h, fun h => ?_⟩
    rw [if_neg (by omega)]
    simp
  have htext : (Number.integer k exact).text =
      Numeral.spelling [] (if k < 0 then some .minus else none) 0 k [] := by
    rw [Numeral.spelling, Sign.text_ite, Numeral.paddedDigits, List.append_nil]
    rfl
  rw [htext]
  exact .text 0 (by simp) hsign (Numeral.stops_nil whole)

theorem asNumber?_text_float {x : Finite} (h : ¬ (x.isIntegral ∧ Signed x.toInt)) :
    (Json.string (Number.float x).text).asNumber? false = some (.ofFinite false x) := by
  have h0 : x.units ≠ 0 := by
    intro h0
    refine h ⟨?_, ?_⟩
    · simp [Finite.isIntegral, h0]
    · simp [Finite.toInt, h0, Signed]
  obtain ⟨n, htext, hwritten, hwhole, hvalue⟩ := Layout.exists_literal_finite h0
  have hread : Numeral.read? false (Number.float x).text = some n := by
    rw [Number.text, ← htext, Numeral.read?_text hwritten]
  rw [asNumber?, hread]
  show Coerced.ofNumeral? false n = _
  rw [Coerced.ofNumeral?, dif_neg (by simp [hwhole]), hvalue]
  rfl

/-- **A text of a number is coerced to what the number is coerced to**, up to the sign of a zero in
the value. -/
theorem asNumber?_asText (x : Number) :
    ∃ a b, (Json.string (Json.number x).asText).asNumber? false = some a ∧
      (Json.number x).asNumber? false = some b ∧ Alike a.value b.value ∧ a.number = b.number := by
  cases x with
  | integer k exact =>
    obtain ⟨y, hy, hread⟩ := (spells_text false k exact).asNumber? exact
    exact ⟨_, _, hread, rfl, hy, rfl⟩
  | float x =>
    by_cases h : x.isIntegral ∧ Signed x.toInt
    · have hn : Number.ofFinite x = .integer x.toInt h.2.exact := dif_pos h
      obtain ⟨y, hy, hread⟩ := (spells_text false x.toInt h.2.exact).asNumber? h.2.exact
      refine ⟨⟨y, .integer x.toInt h.2.exact⟩, .ofFinite false x, ?_, rfl, ?_, hn.symm⟩
      · rw [asText, hn, hread]
      · exact hy.trans (Binary64.alike_ofInt_toInt h.1)
    · have hn : Number.ofFinite x = .float x := dif_neg h
      refine ⟨.ofFinite false x, .ofFinite false x, ?_, rfl, .refl _, rfl⟩
      rw [asText, hn, asNumber?_text_float h]

end Json

/-! ### Nodes -/

/-- **A node for strings without constraints.** -/
structure Node.PlainText (n : Node) : Prop where
  kind : n.kind = .string
  minLength : n.minLength = none
  maxLength : n.maxLength = none
  value : n.value = none
  pattern : n.pattern = none

theorem Node.PlainText.exists_topNode {n : Node} (h : n.PlainText) : ∃ c, Compiled.TopNode c n :=
  Node.exists_topNode (by simp [h.kind]) (by simp [h.kind]) fun hb => by simp [h.kind] at hb

namespace Compiled.TopNode

theorem validate_plainText {c : Compiled} {n : Node} (h : c.TopNode n) (hn : n.PlainText)
    {raw : Json} (hr : raw.isNull = false) : c.validate raw = .ok (.string raw.asText) := by
  obtain ⟨hkind, hmin, hmax, hvalue, hpattern⟩ := hn
  have hcomplaints : n.complaints raw = [] := by
    simp [Node.complaints, hr, hkind, Node.textComplaints, failing, hmin, hmax, hvalue, hpattern]
  have hcoerced : n.coerced raw = .string raw.asText := by simp [Node.coerced, hr, hkind]
  rw [h.validate_scalar (by simp [hkind]) (by simp [hkind]), Node.checked_of_nil hcomplaints,
    hcoerced]
  rfl

/-- **A printed number is treated as the number**: the text that a node for strings makes of it has
the same outcome at every node for numbers that keeps fractions. -/
theorem validate_printed {strings numbers : Compiled} {s n : Node} (hs : strings.TopNode s)
    (hplain : s.PlainText) (hn : numbers.TopNode n) (hk : n.IsNumber)
    (hw : n.wholeNumbers = false) (x : Json.Number) :
    ∃ t, strings.validate (.number x) = .ok (.string t) ∧
      Agree n.ComputesMessage (numbers.validate (.number x)) (numbers.validate (.string t)) := by
  refine ⟨_, hs.validate_plainText hplain rfl, ?_⟩
  obtain ⟨a, b, ha, hb, hvalue, hnumber⟩ := Json.asNumber?_asText x
  rw [← hw] at ha hb
  exact hn.agree_of_alike hk hb ha hvalue.symm hnumber.symm

/-- A label without constraints. -/
def labelNode : Node := { kind := .string, path := "label" }

theorem plainText_labelNode : labelNode.PlainText := ⟨rfl, rfl, rfl, rfl, rfl⟩

theorem representable_debt : Binary64.Representable (10000000000000000000000 * Binary64.one) := by
  decide +kernel

/-- The float `-10 ^ 22`. -/
def debt : Finite := ⟨true, 10000000000000000000000 * Binary64.one, representable_debt⟩

/-- A float without fraction beyond the signed range is written with a scale, and read back. -/
theorem validate_printed_debt :
    ∃ strings numbers, TopNode strings labelNode ∧ labelNode.PlainText ∧
      TopNode numbers amountNode ∧ amountNode.IsNumber ∧ amountNode.wholeNumbers = false ∧
      strings.validate (.number (.float debt)) = .ok (.string "-1e+22") ∧
      numbers.validate (.string "-1e+22") = .ok (.number (.float debt)) := by
  have hk : amountNode.IsNumber := Or.inr rfl
  obtain ⟨strings, hs⟩ := plainText_labelNode.exists_topNode
  obtain ⟨numbers, hn⟩ := hk.exists_topNode
  have htext : (Json.number (.float debt)).asText = "-1e+22" := by decide +kernel
  have hstrings : strings.validate (.number (.float debt)) = .ok (.string "-1e+22") := by
    rw [hs.validate_plainText plainText_labelNode rfl, htext]
  have hread : (Json.number (.float debt)).asNumber? amountNode.wholeNumbers =
      some ⟨.finite debt, .float debt⟩ := by
    decide +kernel
  have hnumbers : numbers.validate (.number (.float debt)) = .ok (.number (.float debt)) :=
    (hn.validate_number_eq_ok_iff hk hread).mpr ⟨numberFits_amountNode _, rfl⟩
  obtain ⟨t, ht, hagree⟩ := hs.validate_printed plainText_labelNode hn hk rfl (.float debt)
  rw [hstrings] at ht
  cases ht
  rw [hnumbers] at hagree
  exact ⟨strings, numbers, hs, plainText_labelNode, hn, hk, rfl, hstrings, hagree.eq_ok⟩

end Compiled.TopNode

end ShorthandSchema
