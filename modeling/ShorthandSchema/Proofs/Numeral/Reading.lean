import Mathlib.Tactic.Ring
import ShorthandSchema.Numeral.Scan

/-! # Numerals: reading what is written

A literal at the start of a text is read with all its parts, unless what follows would extend it. An
integer literal is extended by a digit; as a decimal literal it also goes on with a point, or with a
scale that has a digit.

* `ofDigits_append`, `ofDigits_toDigits`: what lists of digits denote.
* `scanDecimal_text_append`, `read?_text`: a decimal literal is read from its text.
* `read?_spelled_iff`: an integer literal is read as it is exactly when `Stops` holds of what
  follows. -/

namespace ShorthandSchema

/-! ### Digits -/

namespace Decimal

theorem ofDigits_eq_ofDigitChars (cs : List Char) : ofDigits cs = Nat.ofDigitChars 10 cs 0 :=
  Nat.ofDigitChars_eq_foldl.symm

theorem ofDigits_append (a b : List Char) :
    ofDigits (a ++ b) = ofDigits a * 10 ^ b.length + ofDigits b := by
  simp only [ofDigits_eq_ofDigitChars]
  rw [Nat.ofDigitChars_append, Nat.ofDigitChars_eq_ofDigitChars_zero, Nat.mul_comm]

theorem ofDigits_toDigits (n : Nat) : ofDigits (Nat.toDigits 10 n) = n := by
  rw [ofDigits_eq_ofDigitChars, Nat.ofDigitChars_ten_toDigits]

theorem ofDigits_zeros (n : Nat) : ofDigits (zeros n) = 0 := by
  rw [ofDigits_eq_ofDigitChars, zeros, Nat.ofDigitChars_replicate_zero, Nat.mul_zero]

theorem ofDigits_zeros_append (n : Nat) (cs : List Char) :
    ofDigits (zeros n ++ cs) = ofDigits cs := by
  rw [ofDigits_append, ofDigits_zeros, Nat.zero_mul, Nat.zero_add]

theorem ofDigits_append_zeros (cs : List Char) (n : Nat) :
    ofDigits (cs ++ zeros n) = ofDigits cs * 10 ^ n := by
  rw [ofDigits_append, ofDigits_zeros, Nat.add_zero, zeros, List.length_replicate]

end Decimal

/-- All characters are digits. -/
def AllDigits (cs : List Char) : Prop := ∀ c ∈ cs, c.isDigit

/-- No digit comes next. -/
def NoDigitNext (rest : List Char) : Prop := ∀ c ∈ rest.head?, c.isDigit = false

theorem noDigitNext_nil : NoDigitNext [] := by
  simp [NoDigitNext]

theorem AllDigits.append {a b : List Char} (ha : AllDigits a) (hb : AllDigits b) :
    AllDigits (a ++ b) := by
  intro c hc
  rcases List.mem_append.mp hc with h | h
  · exact ha c h
  · exact hb c h

theorem allDigits_zeros (n : Nat) : AllDigits (Decimal.zeros n) := by
  intro c hc
  rw [List.eq_of_mem_replicate hc]
  rfl

theorem allDigits_toDigits (n : Nat) : AllDigits (Nat.toDigits 10 n) :=
  fun _ hc => Nat.isDigit_of_mem_toDigits (by decide) (by decide) hc

theorem Sign.ofChar?_of_isDigit {c : Char} (h : c.isDigit) : ofChar? c = none := by
  have hplus : c ≠ '+' := by rintro rfl; revert h; decide
  have hminus : c ≠ '-' := by rintro rfl; revert h; decide
  rw [ofChar?, if_neg hplus, if_neg hminus]

theorem Sign.text_ite (c : Prop) [Decidable c] :
    Sign.text (if c then some .minus else none) = if c then ['-'] else [] := by
  split <;> rfl

theorem isBlank_of_isDigit {c : Char} (h : c.isDigit) : isBlank c = false := by
  have hc : 48 ≤ c.toNat ∧ c.toNat ≤ 57 := Char.isDigit_iff_toNat.mp h
  simp only [isBlank, blankRanges, List.any_cons, List.any_nil, Bool.or_false, Bool.or_eq_false_iff,
    decide_eq_false_iff_not]
  omega

namespace Numeral

/-! ### Parts at the start of a text -/

theorem takeDigits_eq_nil_iff {cs : List Char} : takeDigits cs = [] ↔ NoDigitNext cs := by
  cases cs with
  | nil => simp [takeDigits, NoDigitNext]
  | cons c rest => cases h : c.isDigit <;> simp [takeDigits, NoDigitNext, h]

theorem dropDigits_of_noDigitNext {cs : List Char} (h : NoDigitNext cs) : dropDigits cs = cs := by
  have hnil := takeDigits_eq_nil_iff.mpr h
  have hall := takeDigits_append_dropDigits cs
  rwa [hnil, List.nil_append] at hall

theorem takeDigits_append {ds : List Char} (h : AllDigits ds) (rest : List Char) :
    takeDigits (ds ++ rest) = ds ++ takeDigits rest :=
  List.takeWhile_append_of_pos h

theorem dropDigits_append {ds : List Char} (h : AllDigits ds) (rest : List Char) :
    dropDigits (ds ++ rest) = dropDigits rest :=
  List.dropWhile_append_of_pos h

theorem text_takeSign (cs : List Char) : Sign.text (takeSign cs).1 ++ (takeSign cs).2 = cs := by
  cases cs with
  | nil => rfl
  | cons c rest =>
    unfold takeSign Sign.ofChar?
    by_cases hplus : c = '+'
    · subst hplus
      rfl
    by_cases hminus : c = '-'
    · subst hminus
      rfl
    simp [hplus, hminus, Sign.text]

/-- A sign is read from its text; one that is absent is not found in what follows. -/
theorem takeSign_text_append {sign : Option Sign} {cs : List Char}
    (h : sign = none → ∀ c ∈ cs.head?, Sign.ofChar? c = none) :
    takeSign (Sign.text sign ++ cs) = (sign, cs) := by
  cases sign with
  | some s => cases s <;> rfl
  | none =>
    cases cs with
    | nil => rfl
    | cons c rest => simp [Sign.text, takeSign, h rfl c rfl]

theorem takeSign_text_digits (sign : Option Sign) {ds : List Char} (hd : AllDigits ds)
    (hne : ds ≠ []) (rest : List Char) :
    takeSign (Sign.text sign ++ (ds ++ rest)) = (sign, ds ++ rest) := by
  obtain ⟨d, ds, rfl⟩ := List.exists_cons_of_ne_nil hne
  refine takeSign_text_append fun _ c hc => Sign.ofChar?_of_isDigit ?_
  cases hc
  exact hd d List.mem_cons_self

/-- What follows goes on with a scale that has a digit. -/
def ScaleNext (rest : List Char) : Prop :=
  ∃ marker sign digit tail, (marker = 'e' ∨ marker = 'E') ∧ digit.isDigit ∧
    rest = marker :: (Sign.text sign ++ digit :: tail)

theorem scanScale_cons (marker : Char) (rest : List Char) :
    scanScale (marker :: rest) =
      if (marker = 'e' ∨ marker = 'E') ∧ takeDigits (takeSign rest).2 ≠ [] then
        some ⟨marker, (takeSign rest).1, takeDigits (takeSign rest).2⟩
      else none := rfl

theorem scanScale_eq_none_iff {rest : List Char} : scanScale rest = none ↔ ¬ ScaleNext rest := by
  constructor
  · rintro h ⟨marker, sign, digit, tail, hm, hd, rfl⟩
    have hdigits : AllDigits [digit] := by simpa [AllDigits] using hd
    have hs := takeSign_text_digits sign hdigits (by simp) tail
    have hne : takeDigits (digit :: tail) ≠ [] := by simp [takeDigits, hd]
    rw [List.singleton_append] at hs
    rw [scanScale_cons, hs, if_pos ⟨hm, hne⟩] at h
    cases h
  · intro h
    cases rest with
    | nil => rfl
    | cons marker after =>
      have ha := text_takeSign after
      rw [scanScale_cons]
      refine if_neg ?_
      rintro ⟨hm, hne⟩
      refine h ⟨marker, (takeSign after).1, ?_⟩
      cases hds : (takeSign after).2 with
      | nil => rw [hds] at hne; exact absurd rfl hne
      | cons digit tail =>
        rw [hds] at hne ha
        refine ⟨digit, tail, hm, ?_, by rw [ha]⟩
        by_contra hd
        exact hne (takeDigits_eq_nil_iff.mpr (by simpa [NoDigitNext] using hd))

/-! ### Decimal literals -/

end Numeral

/-- A scale with its marker and with digits. -/
structure Scale.Written (s : Scale) : Prop where
  marker : s.marker = 'e' ∨ s.marker = 'E'
  digits : AllDigits s.digits
  ne_nil : s.digits ≠ []

/-- **A literal whose parts have the characters of their places**; there is a digit before or after
the point. -/
structure Numeral.Written (n : Numeral) : Prop where
  whole : AllDigits n.whole
  fraction : AllDigits (n.fraction.getD [])
  ne_nil : n.whole = [] → n.fraction.getD [] ≠ []
  scale : ∀ s ∈ n.scale, s.Written

namespace Numeral

theorem scanScale_text_append {s : Scale} (h : s.Written) {rest : List Char}
    (hr : NoDigitNext rest) : scanScale (s.text ++ rest) = some s := by
  obtain ⟨marker, sign, digits⟩ := s
  obtain ⟨hm, hd, hne⟩ := h
  have ht : takeDigits (digits ++ rest) = digits := by
    rw [takeDigits_append hd, takeDigits_eq_nil_iff.mpr hr, List.append_nil]
  have hs := takeSign_text_digits sign hd hne rest
  rw [Scale.text, List.cons_append, List.append_assoc, scanScale_cons, hs, ht]
  exact if_pos ⟨hm, hne⟩

theorem takeFraction_of_ne {cs : List Char} (h : cs.head? ≠ some '.') :
    takeFraction cs = (none, cs) := by
  unfold takeFraction
  split
  · exact absurd rfl h
  · rfl

theorem takeFraction_fst_eq_none_iff {cs : List Char} :
    (takeFraction cs).1 = none ↔ cs.head? ≠ some '.' := by
  constructor
  · rintro h hc
    obtain ⟨rest, rfl⟩ := List.head?_eq_some_iff.mp hc
    cases h
  · intro h
    rw [takeFraction_of_ne h]

theorem takeFraction_text_append {fraction : Option (List Char)} {rest : List Char}
    (hd : AllDigits (fraction.getD [])) (hr : NoDigitNext rest)
    (hp : fraction = none → rest.head? ≠ some '.') :
    takeFraction (fraction.elim [] ('.' :: ·) ++ rest) = (fraction, rest) := by
  cases fraction with
  | some ds =>
    have hd : AllDigits ds := hd
    simp only [Option.elim_some, List.cons_append, takeFraction]
    rw [takeDigits_append hd, dropDigits_append hd, takeDigits_eq_nil_iff.mpr hr,
      dropDigits_of_noDigitNext hr, List.append_nil]
  | none => exact takeFraction_of_ne (hp rfl)

theorem takeSign_text_magnitude (sign : Option Sign) {whole : List Char}
    {fraction : Option (List Char)} (hw : AllDigits whole)
    (hne : whole = [] → fraction.getD [] ≠ []) (after : List Char) :
    takeSign (Sign.text sign ++ (whole ++ (fraction.elim [] ('.' :: ·) ++ after))) =
      (sign, whole ++ (fraction.elim [] ('.' :: ·) ++ after)) := by
  by_cases hnil : whole = []
  · subst hnil
    refine takeSign_text_append fun _ c hc => ?_
    cases fraction with
    | none => exact absurd rfl (hne rfl)
    | some ds =>
      cases hc
      rfl
  · exact takeSign_text_digits sign hw hnil _

/-- **A decimal literal is read from its text**, unless what follows extends it. -/
theorem scanDecimal_text_append {n : Numeral} (h : n.Written) {rest : List Char}
    (hr : NoDigitNext rest) (hp : n.isWhole → rest.head? ≠ some '.')
    (hs : n.scale = none → scanScale rest = none) : scanDecimal (n.text ++ rest) = some n := by
  obtain ⟨sign, whole, fraction, scale⟩ := n
  obtain ⟨hw, hf, hne, hsc⟩ := h
  -- what is left after the fraction
  have hafter : scanScale (scale.elim [] Scale.text ++ rest) = scale ∧
      NoDigitNext (scale.elim [] Scale.text ++ rest) ∧
      (fraction = none → (scale.elim [] Scale.text ++ rest).head? ≠ some '.') := by
    cases scale with
    | none => exact ⟨hs rfl, hr, fun hf => hp (by simp [isWhole, hf])⟩
    | some s =>
      have hm := (hsc s rfl).marker
      refine ⟨scanScale_text_append (hsc s rfl) hr, ?_, fun _ => ?_⟩
      · rcases hm with hm | hm <;> simp [NoDigitNext, Scale.text, hm]
      · rcases hm with hm | hm <;> simp [Scale.text, hm]
  obtain ⟨hscan, hdigit, hpoint⟩ := hafter
  generalize hafter : scale.elim [] Scale.text ++ rest = after at hscan hdigit hpoint
  have htext : (Numeral.mk sign whole fraction scale).text ++ rest =
      Sign.text sign ++ (whole ++ (fraction.elim [] ('.' :: ·) ++ after)) := by
    simp only [text, List.append_assoc, hafter]
  have hfraction := takeFraction_text_append hf hdigit hpoint
  have hstart : NoDigitNext (fraction.elim [] ('.' :: ·) ++ after) := by
    cases fraction with
    | some ds => simp [NoDigitNext]
    | none => exact hdigit
  rw [htext, scanDecimal, takeSign_text_magnitude sign hw hne]
  simp only [takeDigits_append hw, dropDigits_append hw, takeDigits_eq_nil_iff.mpr hstart,
    dropDigits_of_noDigitNext hstart, hfraction, hscan, List.append_nil]
  exact if_neg fun h => hne h.1 h.2

/-! ### Integer literals -/

/-- The literal of a sign and digits. -/
def integer (sign : Option Sign) (digits : List Char) : Numeral := ⟨sign, digits, none, none⟩

/-- **What follows does not extend an integer literal.** It has no digit at its start; where a
literal may have a fraction, there is no point either, and no scale with a digit. -/
structure Stops (whole : Bool) (rest : List Char) : Prop where
  digit : NoDigitNext rest
  point : whole = false → rest.head? ≠ some '.'
  scale : whole = false → ¬ ScaleNext rest

section

theorem stops_nil (whole : Bool) : Stops whole [] :=
  ⟨noDigitNext_nil, by simp, fun _ => scanScale_eq_none_iff.mp rfl⟩

variable (sign : Option Sign) {ds : List Char} (hd : AllDigits ds) (hne : ds ≠ [])
include hd hne

theorem scanWhole_digits (rest : List Char) :
    scanWhole (Sign.text sign ++ (ds ++ rest)) = some (integer sign (ds ++ takeDigits rest)) := by
  have hs := takeSign_text_digits sign hd hne rest
  simp only [scanWhole, hs, takeDigits_append hd]
  exact if_neg fun h => hne (List.append_eq_nil_iff.mp h).1

theorem scanDecimal_digits (rest : List Char) :
    scanDecimal (Sign.text sign ++ (ds ++ rest)) =
      some ⟨sign, ds ++ takeDigits rest, (takeFraction (dropDigits rest)).1,
        scanScale (takeFraction (dropDigits rest)).2⟩ := by
  have hs := takeSign_text_digits sign hd hne rest
  simp only [scanDecimal, hs, takeDigits_append hd, dropDigits_append hd]
  exact if_neg fun h => hne (List.append_eq_nil_iff.mp h.1).1

theorem trimLeft_spelled {blanks : List Char} (hb : ∀ b ∈ blanks, isBlank b) (rest : List Char) :
    trimLeft (blanks ++ (Sign.text sign ++ (ds ++ rest))) = Sign.text sign ++ (ds ++ rest) := by
  obtain ⟨d, ds, rfl⟩ := List.exists_cons_of_ne_nil hne
  rw [trimLeft_append_of_blank hb]
  cases sign with
  | some s => cases s <;> rfl
  | none =>
    have hblank := isBlank_of_isDigit (hd d List.mem_cons_self)
    exact List.dropWhile_cons_of_neg (by simp [hblank])

/-- **A sign and digits are read as they are exactly when what follows does not extend them**,
whatever blanks there are before them. -/
theorem read?_spelled_iff {whole : Bool} {blanks : List Char} (hb : ∀ b ∈ blanks, isBlank b)
    {rest : List Char} :
    read? whole (String.ofList (blanks ++ (Sign.text sign ++ (ds ++ rest)))) =
      some (integer sign ds) ↔ Stops whole rest := by
  rw [read?, String.toList_ofList, trimLeft_spelled sign hd hne hb]
  cases whole with
  | true =>
    rw [if_pos rfl, scanWhole_digits sign hd hne]
    constructor
    · intro h
      refine ⟨takeDigits_eq_nil_iff.mp ?_, by simp, by simp⟩
      simpa [integer] using h
    · intro h
      rw [takeDigits_eq_nil_iff.mpr h.digit, List.append_nil]
  | false =>
    rw [if_neg (by decide), scanDecimal_digits sign hd hne]
    constructor
    · intro h
      simp only [integer, Option.some.injEq, Numeral.mk.injEq, true_and, List.append_right_eq_self]
        at h
      obtain ⟨hdigit, hpoint, hscale⟩ := h
      have hdigit := takeDigits_eq_nil_iff.mp hdigit
      rw [dropDigits_of_noDigitNext hdigit] at hpoint hscale
      have hpoint := takeFraction_fst_eq_none_iff.mp hpoint
      rw [takeFraction_of_ne hpoint] at hscale
      exact ⟨hdigit, fun _ => hpoint, fun _ => scanScale_eq_none_iff.mp hscale⟩
    · rintro ⟨hdigit, hpoint, hscale⟩
      rw [takeDigits_eq_nil_iff.mpr hdigit, dropDigits_of_noDigitNext hdigit,
        takeFraction_of_ne (hpoint rfl), scanScale_eq_none_iff.mpr (hscale rfl), List.append_nil]
      rfl

end

theorem read?_text {n : Numeral} (h : n.Written) :
    read? false (String.ofList n.text) = some n := by
  have htrim : trimLeft n.text = n.text := by
    obtain ⟨sign, whole, fraction, scale⟩ := n
    obtain ⟨hw, -, hfraction, -⟩ := h
    by_cases hnil : whole = []
    · subst hnil
      cases fraction with
      | none => exact absurd rfl (hfraction rfl)
      | some after =>
        cases sign with
        | none => rfl
        | some s => cases s <;> rfl
    · have ht := trimLeft_spelled sign hw hnil (List.forall_mem_nil _)
        (fraction.elim [] ('.' :: ·) ++ scale.elim [] Scale.text)
      simpa only [text, List.append_assoc, List.nil_append] using ht
  have hscan := scanDecimal_text_append h noDigitNext_nil (by simp) fun _ => rfl
  rw [List.append_nil] at hscan
  rw [read?, String.toList_ofList, htrim, if_neg (by decide), hscan]

end Numeral

end ShorthandSchema
