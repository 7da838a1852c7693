import ShorthandSchema.Coercion
import ShorthandSchema.Proofs.Binary64.Order

/-! # Coercion: the form of coerced numbers

A coerced number is an integer, or a float that could not be written as one. Its value is the one
that was checked, up to the sign of a zero, and coercion leaves it as it is.

* `sound_of_asNumber?`: what coercion returns has this form.
* `exists_finite_of_asNumber?`: what is compared is a finite number.
* `asNumber?_of_normal`: a number of this form is coerced to itself. -/

namespace ShorthandSchema

open Binary64 (Alike Finite)

/-- **A number in the form of coerced ones**: no float is an integer of 64 bits with a sign, and
none has a fraction if `whole` is set. -/
def Json.Number.Normal (whole : Bool) : Json.Number → Prop
  | .integer _ _ => True
  | .float x => ¬ (x.isIntegral ∧ Json.Signed x.toInt) ∧ (whole → x.isIntegral)

/-! ### Numbers that come out -/

theorem Json.Number.ofFinite_of_signed {x : Finite} (h : x.isIntegral) {k : Int} (hk : x.toInt = k)
    (hs : Json.Signed k) : ofFinite x = .integer k hs.exact := by
  subst hk
  exact dif_pos ⟨h, hs⟩

theorem Json.Number.ofFinite_of_not_signed {x : Finite} (h : ¬ Json.Signed x.toInt) :
    ofFinite x = .float x := dif_neg fun hx => h hx.2

theorem Json.Number.normal_ofFinite {whole : Bool} {x : Finite} (h : whole → x.isIntegral) :
    (Json.Number.ofFinite x).Normal whole := by
  unfold Json.Number.ofFinite
  split
  · trivial
  · rename_i hx
    exact ⟨hx, h⟩

theorem Json.Number.alike_ofFinite (x : Finite) :
    Alike (Json.Number.ofFinite x).toBinary64 (.finite x) := by
  unfold Json.Number.ofFinite
  split
  · rename_i hx
    exact Binary64.alike_ofInt_toInt hx.1
  · exact .refl _

/-- A coerced number whose two sides belong together. -/
structure Coerced.Sound (whole : Bool) (c : Coerced) : Prop where
  normal : c.number.Normal whole
  alike : Alike c.number.toBinary64 c.value

theorem Coerced.sound_ofFinite (whole : Bool) (x : Finite) : (ofFinite whole x).Sound whole := by
  refine ⟨Json.Number.normal_ofFinite fun hw => ?_, Json.Number.alike_ofFinite _⟩
  rw [if_pos hw]
  exact Finite.isIntegral_truncate x

namespace Numeral

variable {n : Numeral} (h : n.isWhole)
include h

theorem decimal_of_isWhole : n.decimal = ⟨Decimal.ofDigits n.whole, 0⟩ := by
  obtain ⟨sign, whole, fraction, scale⟩ := n
  obtain ⟨rfl, rfl⟩ : fraction = none ∧ scale = none := by simpa [isWhole] using h
  simp [decimal]

theorem toBinary64_of_ne_zero (h0 : n.toInt ≠ 0) : n.toBinary64 = .ofInt n.toInt := by
  have hd : n.toInt.natAbs = Decimal.ofDigits n.whole := by
    unfold toInt
    split <;> omega
  have hneg : decide (n.toInt < 0) = n.negative := by
    unfold toInt at h0 ⊢
    cases n.negative with
    | false => simp
    | true =>
      simp only [if_true, decide_eq_true_eq] at h0 ⊢
      omega
  rw [toBinary64, decimal_of_isWhole h, Binary64.ofInt, hd, hneg]

/-- The integer of a whole literal is rounded as the literal is, up to the sign of a zero. -/
theorem alike_toBinary64 : Alike (.ofInt n.toInt) n.toBinary64 := by
  by_cases h0 : n.toInt = 0
  · have hd : Decimal.ofDigits n.whole = 0 := by
      unfold toInt at h0
      split at h0 <;> omega
    rw [h0, toBinary64, decimal_of_isWhole h, hd]
    refine .finite ?_
    rw [Binary64.scaled_zero, Binary64.scaled_zero]
  · rw [toBinary64_of_ne_zero h h0]
    exact .refl _

end Numeral

/-- **What coercion returns has the form of coerced numbers**, and its value is the checked one. -/
theorem Json.sound_of_asNumber? {whole : Bool} {raw : Json} {c : Coerced}
    (h : raw.asNumber? whole = some c) : c.Sound whole := by
  unfold Json.asNumber? at h
  split at h
  · cases h
    exact ⟨trivial, .refl _⟩
  · cases h
    exact Coerced.sound_ofFinite whole _
  · obtain ⟨n, -, hn⟩ := Option.bind_eq_some_iff.mp h
    unfold Coerced.ofNumeral? at hn
    split at hn
    · rename_i hw
      cases hn
      exact ⟨trivial, Numeral.alike_toBinary64 hw.1⟩
    · unfold Coerced.ofBinary64? at hn
      split at hn
      · cases hn
        exact Coerced.sound_ofFinite whole _
      · cases hn
  · cases h

theorem Json.Exact.exists_ofInt {k : Int} (h : Json.Exact k) :
    ∃ x, Binary64.ofInt k = .finite x := by
  obtain ⟨hlo, hhi⟩ := h
  exact Binary64.exists_ofInt_of_natAbs_le (by omega)

theorem Json.exists_finite_of_asNumber? {whole : Bool} {raw : Json} {c : Coerced}
    (h : raw.asNumber? whole = some c) : ∃ x, c.value = .finite x := by
  have hfinite : ∃ x, c.number.toBinary64 = .finite x := by
    cases c.number with
    | integer k exact => exact exact.exists_ofInt
    | float x => exact ⟨x, rfl⟩
  obtain ⟨x, hx⟩ := hfinite
  have halike := (Json.sound_of_asNumber? h).alike
  rw [hx] at halike
  generalize c.value = b at halike
  cases halike with
  | refl => exact ⟨x, rfl⟩
  | finite => exact ⟨_, rfl⟩

/-! ### Numbers that stay -/

/-- **A number in the form of coerced ones is coerced to itself.** -/
theorem Json.asNumber?_of_normal {whole : Bool} {n : Json.Number} (h : n.Normal whole) :
    (Json.number n).asNumber? whole = some ⟨n.toBinary64, n⟩ := by
  cases n with
  | integer k exact => rfl
  | float x =>
    obtain ⟨hs, hw⟩ := h
    have hx : (if whole then x.truncate else x) = x := by
      split
      · rename_i hwhole
        exact Finite.truncate_of_isIntegral (hw hwhole)
      · rfl
    have hn : Json.Number.ofFinite x = .float x := dif_neg hs
    have hc : Coerced.ofFinite whole x = ⟨.finite x, .ofFinite x⟩ := by
      simp only [Coerced.ofFinite, hx]
    show some (Coerced.ofFinite whole x) = _
    rw [hc, hn]
    rfl

end ShorthandSchema
