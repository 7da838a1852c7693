import ShorthandSchema.Proofs.Binary64.Order
import ShorthandSchema.Proofs.Numeral.Reading
import ShorthandSchema.Proofs.Scalars

/-! # Integers in texts: which number they are coerced to

An integer that JSON keeps exactly may be given as a number or as a text that starts with a spelling
of it: blanks, a sign, zeros and its digits. All of these are coerced to the integer itself. An
integer literal outside of these ranges is coerced to the nearest binary64 number. That number is
beyond the ranges too, apart from the integers right below `-2 ^ 63`, which are nearest to
`-2 ^ 63`.

* `TopNode.validate_spelling`: no digit of a 64-bit integer is lost.
* `TopNode.validate_integer_literal`: what comes out for an integer literal of any size.
* `validate_below_signed`: a literal below `-2 ^ 63` for which an integer comes out. -/

namespace ShorthandSchema

open Binary64 (Alike Finite one)

/-! ### Spellings -/

/-- A literal of `k` may have this sign; zero takes any. -/
def Sign.Suits (sign : Option Sign) (k : Int) : Prop :=
  (k < 0 → sign = some .minus) ∧ (0 < k → sign ≠ some .minus)

instance (sign : Option Sign) (k : Int) : Decidable (Sign.Suits sign k) :=
  inferInstanceAs (Decidable (_ ∧ _))

namespace Numeral

/-- The digits of an integer with zeros before them. -/
def paddedDigits (zeros : Nat) (k : Int) : List Char :=
  Decimal.zeros zeros ++ Nat.toDigits 10 k.natAbs

/-- **A text with an integer at its start**: blanks, a sign, zeros, the digits, and a rest. -/
def spelling (blanks : List Char) (sign : Option Sign) (zeros : Nat) (k : Int)
    (rest : List Char) : String :=
  String.ofList (blanks ++ (Sign.text sign ++ (paddedDigits zeros k ++ rest)))

theorem allDigits_paddedDigits (zeros : Nat) (k : Int) : AllDigits (paddedDigits zeros k) :=
  (allDigits_zeros zeros).append (allDigits_toDigits _)

theorem paddedDigits_ne_nil (zeros : Nat) (k : Int) : paddedDigits zeros k ≠ [] :=
  List.append_ne_nil_of_right_ne_nil _ Nat.toDigits_ne_nil

theorem isWhole_integer (sign : Option Sign) (digits : List Char) :
    (integer sign digits).isWhole := rfl

theorem toInt_integer {sign : Option Sign} {k : Int} (h : Sign.Suits sign k) (zeros : Nat) :
    (integer sign (paddedDigits zeros k)).toInt = k := by
  have hd : Decimal.ofDigits (paddedDigits zeros k) = k.natAbs := by
    rw [paddedDigits, Decimal.ofDigits_zeros_append, Decimal.ofDigits_toDigits]
  obtain ⟨hneg, hpos⟩ := h
  by_cases hs : sign = some .minus
  · have hk : ¬ 0 < k := fun hk => hpos hk hs
    simp only [toInt, negative, integer, hs, decide_true, if_true, hd]
    omega
  · have hk : ¬ k < 0 := fun hk => hs (hneg hk)
    simp only [toInt, negative, integer, hs, decide_false, Bool.false_eq_true, if_false, hd]
    omega

end Numeral

/-- **The spellings of an integer**: itself, and the texts with it at their start. -/
inductive Json.Spells (whole : Bool) (k : Int) : Json → Prop
  | number (exact : Exact k) : Spells whole k (.number (.integer k exact))
  | text {blanks rest : List Char} {sign : Option Sign} (zeros : Nat)
      (hblanks : ∀ b ∈ blanks, isBlank b) (hsign : Sign.Suits sign k)
      (hrest : Numeral.Stops whole rest) :
      Spells whole k (.string (Numeral.spelling blanks sign zeros k rest))

theorem Coerced.ofNumeral?_of_exact {whole : Bool} {l : Numeral} {k : Int} (hl : l.isWhole)
    (hk : l.toInt = k) (exact : Json.Exact k) :
    ofNumeral? whole l = some ⟨l.toBinary64, .integer k exact⟩ := by
  subst hk
  exact dif_pos ⟨hl, exact⟩

/-- **A spelling is coerced to its integer**; the value is that of the integer, up to the sign of a
zero. -/
theorem Json.Spells.asNumber? {whole : Bool} {k : Int} {raw : Json} (h : raw.Spells whole k)
    (exact : Json.Exact k) :
    ∃ x, Alike x (.ofInt k) ∧ raw.asNumber? whole = some ⟨x, .integer k exact⟩ := by
  cases h with
  | number => exact ⟨_, .refl _, rfl⟩
  | @text blanks rest sign zeros hblanks hsign hrest =>
    have hread := (Numeral.read?_spelled_iff sign (Numeral.allDigits_paddedDigits zeros k)
      (Numeral.paddedDigits_ne_nil zeros k) hblanks).mpr hrest
    have hk := Numeral.toInt_integer hsign zeros
    have hvalue := Numeral.alike_toBinary64
      (Numeral.isWhole_integer sign (Numeral.paddedDigits zeros k))
    rw [hk] at hvalue
    refine ⟨_, hvalue.symm, ?_⟩
    rw [Json.asNumber?, Numeral.spelling, hread]
    exact Coerced.ofNumeral?_of_exact rfl hk exact

namespace Compiled.TopNode

/-- **No digit of a 64-bit integer is lost.** A text with a sign, zeros and its digits after blanks
is read as just these exactly when what follows does not extend them. Then it is coerced to the
integer, as the integer itself is, and the checks compare the same number for all spellings. If they
accept that number, the integer comes out. -/
theorem validate_spelling {c : Compiled} {n : Node} (h : c.TopNode n) (hk : n.IsNumber) {k : Int}
    (exact : Json.Exact k) :
    (∀ blanks sign zeros rest, (∀ b ∈ blanks, isBlank b) →
      (Numeral.read? n.wholeNumbers (Numeral.spelling blanks sign zeros k rest) =
          some (Numeral.integer sign (Numeral.paddedDigits zeros k)) ↔
        Numeral.Stops n.wholeNumbers rest)) ∧
    ∀ raw, raw.Spells n.wholeNumbers k →
      ∃ x, Alike x (.ofInt k) ∧ raw.asNumber? n.wholeNumbers = some ⟨x, .integer k exact⟩ ∧
        ∀ out, c.validate raw = .ok out ↔
          n.NumberFits (.ofInt k) ∧ out = .number (.integer k exact) := by
  refine ⟨fun blanks sign zeros rest hblanks => ?_, fun raw hraw => ?_⟩
  · exact Numeral.read?_spelled_iff sign (Numeral.allDigits_paddedDigits zeros k)
      (Numeral.paddedDigits_ne_nil zeros k) hblanks
  · obtain ⟨x, hvalue, hx⟩ := hraw.asNumber? exact
    refine ⟨x, hvalue, hx, fun out => ?_⟩
    rw [h.validate_number_eq_ok_iff hk hx]
    exact and_congr_left fun _ => ⟨.congr hvalue, .congr hvalue.symm⟩

/-- An id of 64 bits without a sign. -/
def idNode : Node :=
  { kind := .integer, path := "id", maxValue := some (.ofInt 18446744073709551615) }

theorem spells_id :
    (Json.string "\u3000+0018446744073709551615.5px").Spells idNode.wholeNumbers
      18446744073709551615 := by
  have hrest : Numeral.Stops idNode.wholeNumbers ".5px".toList := by
    refine ⟨fun c hc => ?_, nofun, nofun⟩
    cases hc
    rfl
  have hblanks : ∀ b ∈ ['\u3000'], isBlank b := by
    intro b hb
    rw [List.mem_singleton.mp hb]
    rfl
  have hs : Numeral.spelling ['\u3000'] (some .plus) 2 18446744073709551615 ".5px".toList =
      "\u3000+0018446744073709551615.5px" := by decide +kernel
  rw [← hs]
  exact .text 2 hblanks (by decide) hrest

/-- The largest integer of 64 bits comes out of a text that has zeros and a sign before it and a
fraction behind it, although the bound is compared with `2 ^ 64`. -/
theorem validate_spelling_id :
    ∃ c, TopNode c idNode ∧ idNode.IsNumber ∧ Json.Exact 18446744073709551615 ∧
      (Json.string "\u3000+0018446744073709551615.5px").Spells idNode.wholeNumbers
        18446744073709551615 ∧
      c.validate (.string "\u3000+0018446744073709551615.5px") =
        .ok (.number (.integer 18446744073709551615 (by decide))) := by
  have hk : idNode.IsNumber := Or.inl rfl
  have hexact : Json.Exact 18446744073709551615 := by decide
  obtain ⟨c, hc⟩ := hk.exists_topNode
  obtain ⟨x, -, -, hout⟩ := (hc.validate_spelling hk hexact).2 _ spells_id
  have hfits : idNode.NumberFits (.ofInt 18446744073709551615) := by
    refine ⟨fun b hb => ?_, fun b hb => ?_, fun e he => ?_⟩
    · exact absurd hb (Option.not_mem_none b)
    · have hb : Binary64.ofInt 18446744073709551615 = b := Option.some.inj hb
      rw [← hb]
      decide +kernel
    · exact absurd he (Option.not_mem_none e)
  exact ⟨c, hc, hk, hexact, spells_id, (hout _).mpr ⟨hfits, rfl⟩⟩

end Compiled.TopNode

/-! ### Integers outside of the 64-bit ranges -/

/-- **The integers below the signed ones that are nearest to the least of these.** -/
def Json.RoundsToLeast (k : Int) : Prop := -9223372036854776832 ≤ k ∧ k < -9223372036854775808

namespace Binary64

theorem le_roundUnits_of_unsigned {j : Nat} (h : 18446744073709551616 ≤ j) :
    18446744073709551616 * one ≤ roundUnits (j * one) 1 :=
  le_roundUnits_of_le (by decide +kernel) (Nat.mul_le_mul_right one h)

/-- Half a unit and one above `2 ^ 63` is rounded up, where a unit is `2048`. -/
theorem le_roundUnits_of_signed {j : Nat} (h : 9223372036854776833 ≤ j) :
    9223372036854777856 * one ≤ roundUnits (j * one) 1 := by
  have hr : roundUnits (9223372036854776833 * one) 1 = 9223372036854777856 * one := by
    decide +kernel
  rw [← hr]
  exact roundUnits_mono (Nat.mul_le_mul_right one h)

/-- Up to half a unit above `2 ^ 63` is rounded down, as the significand of `2 ^ 63` is even. -/
theorem roundUnits_least {j : Nat} (hl : 9223372036854775808 ≤ j) (hu : j ≤ 9223372036854776832) :
    roundUnits (j * one) 1 = 9223372036854775808 * one := by
  have hr : roundUnits (9223372036854776832 * one) 1 = 9223372036854775808 * one := by
    decide +kernel
  refine Nat.le_antisymm ?_ ?_
  · rw [← hr]
    exact roundUnits_mono (Nat.mul_le_mul_right one hu)
  · exact le_roundUnits_of_le (by decide +kernel) (Nat.mul_le_mul_right one hl)

variable {k : Int} {x : Finite} (hx : ofInt k = .finite x)
include hx

/-- Outside of the 64-bit ranges the nearest number is outside of the signed range, with the
exception. -/
theorem not_signed_of_ofInt (hk : ¬ Json.Exact k) (hl : ¬ Json.RoundsToLeast k) :
    ¬ Json.Signed x.toInt := by
  unfold Json.Exact at hk
  unfold Json.RoundsToLeast at hl
  obtain ⟨hneg, hunits⟩ := eq_of_ofInt (by omega) hx
  rw [Finite.toInt, hneg, hunits, Json.Signed]
  by_cases h : k < 0
  · have hr := le_roundUnits_of_signed (j := k.natAbs) (by omega)
    rw [← Nat.le_div_iff_mul_le one_pos] at hr
    simp only [h, decide_true, if_true]
    omega
  · have hr := le_roundUnits_of_unsigned (j := k.natAbs) (by omega)
    rw [← Nat.le_div_iff_mul_le one_pos] at hr
    simp only [h, decide_false, Bool.false_eq_true, if_false]
    omega

theorem toInt_of_roundsToLeast (hl : Json.RoundsToLeast k) : x.toInt = -9223372036854775808 := by
  unfold Json.RoundsToLeast at hl
  obtain ⟨hneg, hunits⟩ := eq_of_ofInt (by omega) hx
  have hk : k < 0 := by omega
  rw [Finite.toInt, hneg, hunits, roundUnits_least (by omega) (by omega),
    Nat.mul_div_cancel _ one_pos]
  simp [hk]

end Binary64

theorem Coerced.ofFinite_of_isIntegral {x : Finite} (h : x.isIntegral) (whole : Bool) :
    ofFinite whole x = ⟨.finite x, .ofFinite x⟩ := by
  cases whole with
  | false => rfl
  | true => rw [ofFinite, if_pos rfl, Binary64.Finite.truncate_of_isIntegral h]

theorem Coerced.ofNumeral?_of_not_exact {whole : Bool} {l : Numeral} {x : Coerced}
    (hl : l.isWhole) (hk : ¬ Json.Exact l.toInt) (h : ofNumeral? whole l = some x) :
    ∃ y, Binary64.ofInt l.toInt = .finite y ∧ x = ⟨.finite y, .ofFinite y⟩ := by
  have h0 : l.toInt ≠ 0 := by
    intro h0
    rw [h0] at hk
    exact hk (by decide)
  rw [ofNumeral?, dif_neg fun hw => hk hw.2, Numeral.toBinary64_of_ne_zero hl h0] at h
  cases hy : Binary64.ofInt l.toInt with
  | finite y =>
    rw [hy] at h
    cases h
    exact ⟨y, rfl, ofFinite_of_isIntegral (Binary64.isIntegral_of_ofInt hy) whole⟩
  | infinite negative => rw [hy] at h; cases h
  | nan => rw [hy] at h; cases h

namespace Compiled.TopNode

/-- **What comes out for a text with an integer literal.** The integer itself, if it fits into 64
bits with a sign or without. Otherwise the nearest binary64 number, as a float; only the integers
that are nearest to `-2 ^ 63` give this integer. -/
theorem validate_integer_literal {c : Compiled} {n : Node} (h : c.TopNode n) (hk : n.IsNumber)
    {s : String} {l : Numeral} (hread : Numeral.read? n.wholeNumbers s = some l) (hl : l.isWhole)
    {out : Json} (hout : c.validate (.string s) = .ok out) :
    (Json.Exact l.toInt → ∃ exact, out = .number (.integer l.toInt exact)) ∧
      (¬ Json.Exact l.toInt → ¬ Json.RoundsToLeast l.toInt →
        ∃ x, Binary64.ofInt l.toInt = .finite x ∧ out = .number (.float x)) ∧
      (Json.RoundsToLeast l.toInt →
        out = .number (.integer (-9223372036854775808) (by decide))) := by
  obtain ⟨x, hx⟩ := h.exists_coerced hk rfl hout
  obtain ⟨-, rfl⟩ := (h.validate_number_eq_ok_iff hk hx).mp hout
  have hx : Coerced.ofNumeral? n.wholeNumbers l = some x := by
    rw [← hx, Json.asNumber?, hread]
    rfl
  refine ⟨fun exact => ?_, fun hexact hleast => ?_, fun hleast => ?_⟩
  · rw [Coerced.ofNumeral?_of_exact hl rfl exact] at hx
    cases hx
    exact ⟨exact, rfl⟩
  · obtain ⟨y, hy, rfl⟩ := Coerced.ofNumeral?_of_not_exact hl hexact hx
    have hs := Binary64.not_signed_of_ofInt hy hexact hleast
    exact ⟨y, hy, congrArg Json.number (Json.Number.ofFinite_of_not_signed hs)⟩
  · have hexact : ¬ Json.Exact l.toInt := fun hexact => by
      unfold Json.Exact at hexact
      unfold Json.RoundsToLeast at hleast
      omega
    obtain ⟨y, hy, rfl⟩ := Coerced.ofNumeral?_of_not_exact hl hexact hx
    have hi := Binary64.isIntegral_of_ofInt hy
    have ht := Binary64.toInt_of_roundsToLeast hy hleast
    exact congrArg Json.number (Json.Number.ofFinite_of_signed hi ht (by decide))

/-- An amount without bounds. -/
def amountNode : Node := { kind := .number, path := "amount" }

theorem numberFits_amountNode (x : Binary64) : amountNode.NumberFits x := by
  refine ⟨fun b hb => ?_, fun b hb => ?_, fun e he => ?_⟩
  · exact absurd hb (Option.not_mem_none b)
  · exact absurd hb (Option.not_mem_none b)
  · exact absurd he (Option.not_mem_none e)

theorem validate_integer_literal_amount :
    ∃ c x, TopNode c amountNode ∧ amountNode.IsNumber ∧
      Numeral.read? amountNode.wholeNumbers " -99999999999999999999 units" =
        some (Numeral.integer (some .minus) "99999999999999999999".toList) ∧
      c.validate (.string " -99999999999999999999 units") = .ok (.number (.float x)) ∧
      Binary64.ofInt (-99999999999999999999) = .finite x := by
  have hk : amountNode.IsNumber := Or.inr rfl
  obtain ⟨c, hc⟩ := hk.exists_topNode
  have hread : Numeral.read? amountNode.wholeNumbers " -99999999999999999999 units" =
      some (Numeral.integer (some .minus) "99999999999999999999".toList) := by decide +kernel
  have hint : (Numeral.integer (some .minus) "99999999999999999999".toList).toInt =
      -99999999999999999999 := by decide +kernel
  have hsome : ((Json.string " -99999999999999999999 units").asNumber?
      amountNode.wholeNumbers).isSome := by decide +kernel
  obtain ⟨y, hy⟩ := Option.isSome_iff_exists.mp hsome
  have hout := (hc.validate_number_eq_ok_iff hk hy).mpr ⟨numberFits_amountNode _, rfl⟩
  have hall := (hc.validate_integer_literal hk hread rfl hout).2.1
  rw [hint] at hall
  obtain ⟨x, hx, hfloat⟩ := hall (by decide) (by unfold Json.RoundsToLeast; omega)
  exact ⟨c, x, hc, hk, hread, by rw [hout, hfloat], hx⟩

/-- **A literal below the 64-bit integers for which an integer comes out**, and not its own: it is
rounded to `-2 ^ 63`, which is an integer with a sign. -/
theorem validate_below_signed :
    ∃ c, TopNode c amountNode ∧ amountNode.IsNumber ∧
      Numeral.read? amountNode.wholeNumbers "-9223372036854775809" =
        some (Numeral.integer (some .minus) "9223372036854775809".toList) ∧
      (Numeral.integer (some .minus) "9223372036854775809".toList).toInt = -9223372036854775809 ∧
      ¬ Json.Exact (-9223372036854775809) ∧
      c.validate (.string "-9223372036854775809") =
        .ok (.number (.integer (-9223372036854775808) (by decide))) := by
  have hk : amountNode.IsNumber := Or.inr rfl
  obtain ⟨c, hc⟩ := hk.exists_topNode
  have hx : (Json.string "-9223372036854775809").asNumber? amountNode.wholeNumbers =
      some ⟨.ofInt (-9223372036854775808), .integer (-9223372036854775808) (by decide)⟩ := by
    decide +kernel
  exact ⟨c, hc, hk, by decide +kernel, by decide +kernel, by decide,
    (hc.validate_number_eq_ok_iff hk hx).mpr ⟨numberFits_amountNode _, rfl⟩⟩

end Compiled.TopNode

end ShorthandSchema
