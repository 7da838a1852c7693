import Mathlib.Computability.Language
import Mathlib.Data.List.TakeWhile
import ShorthandSchema.Proofs.Numeral.Reading

/-! # Numerals: the grammar of literals

The literals are two languages: a sign and digits, or a decimal number that may have a point and a
scale. They are said by union, product and star alone.

* `mem_wholeLiteral`, `mem_decimalLiteral`: the words of the languages are the texts of numerals.
* `ascii_literals`: all their characters are ASCII. -/

namespace ShorthandSchema

open Computability

/-! ### Longest prefixes -/

/-- **The longest prefix of a word that is in a language.** -/
structure LongestPrefix {α : Type} (l : Language α) (word p : List α) : Prop where
  starts : p <+: word
  mem : p ∈ l
  longest : ∀ q, q <+: word → q ∈ l → q.length ≤ p.length

theorem LongestPrefix.unique {α : Type} {l : Language α} {word p q : List α}
    (hp : LongestPrefix l word p) (hq : LongestPrefix l word q) : p = q := by
  have hlength : p.length = q.length :=
    le_antisymm (hq.longest p hp.starts hp.mem) (hp.longest q hq.starts hq.mem)
  exact (List.prefix_of_prefix_length_le hp.starts hq.starts hlength.le).eq_of_length hlength

/-! ### The languages -/

namespace Grammar

/-- A digit. -/
def digit : Language Char := {w | ∃ c, '0' ≤ c ∧ c ≤ '9' ∧ w = [c]}

/-- A digit or more. -/
def digits : Language Char := digit * digit∗

/-- A sign. -/
def sign : Language Char := {['+'], ['-']}

/-- The marker of a scale. -/
def marker : Language Char := {['e'], ['E']}

/-- A word that may be absent. -/
def optional (l : Language Char) : Language Char := 1 + l

/-- **An integer literal**, `[+-]?[0-9]+`. -/
def wholeLiteral : Language Char := optional sign * digits

/-- The digits of a decimal literal, `[0-9]+(\.[0-9]*)?|\.[0-9]+`. -/
def magnitude : Language Char := digits * optional ({['.']} * digit∗) + {['.']} * digits

/-- The scale of a literal, `[eE][+-]?[0-9]+`. -/
def scale : Language Char := marker * (optional sign * digits)

/-- **A decimal literal**, `[+-]?([0-9]+(\.[0-9]*)?|\.[0-9]+)([eE][+-]?[0-9]+)?`. -/
def decimalLiteral : Language Char := optional sign * (magnitude * optional scale)

/-- The integer literals if `whole` is set, and else the decimal ones. -/
def literals (whole : Bool) : Language Char := if whole then wholeLiteral else decimalLiteral

/-! ### Words and parts of literals -/

theorem mem_digit {w : List Char} : w ∈ digit ↔ ∃ c, c.isDigit ∧ w = [c] := by
  have h (c : Char) : ('0' ≤ c ∧ c ≤ '9') ↔ c.isDigit := by
    simp only [Char.isDigit, Bool.and_eq_true, decide_eq_true_eq, Char.le_def, ge_iff_le]
  unfold digit
  exact exists_congr fun c => by rw [← h, and_assoc]

theorem mem_digit_star {w : List Char} : w ∈ digit∗ ↔ AllDigits w := by
  rw [Language.mem_kstar]
  constructor
  · rintro ⟨words, rfl, hwords⟩ c hc
    obtain ⟨word, hword, hc⟩ := List.mem_flatten.mp hc
    obtain ⟨d, hd, rfl⟩ := mem_digit.mp (hwords word hword)
    rw [List.mem_singleton.mp hc]
    exact hd
  · intro h
    refine ⟨w.map fun c => [c], ?_, fun word hword => ?_⟩
    · rw [← List.flatMap_def, List.flatMap_singleton']
    · obtain ⟨c, hc, rfl⟩ := List.mem_map.mp hword
      exact mem_digit.mpr ⟨c, h c hc, rfl⟩

theorem mem_digits {w : List Char} : w ∈ digits ↔ AllDigits w ∧ w ≠ [] := by
  unfold digits
  rw [Language.mem_mul]
  constructor
  · rintro ⟨d, hd, ds, hds, rfl⟩
    obtain ⟨c, hc, rfl⟩ := mem_digit.mp hd
    exact ⟨List.forall_mem_cons.mpr ⟨hc, mem_digit_star.mp hds⟩, by simp⟩
  · rintro ⟨hall, hne⟩
    obtain ⟨c, ds, rfl⟩ := List.exists_cons_of_ne_nil hne
    obtain ⟨hc, hds⟩ := List.forall_mem_cons.mp hall
    exact ⟨[c], mem_digit.mpr ⟨c, hc, rfl⟩, ds, mem_digit_star.mpr hds, rfl⟩

theorem mem_optional {l : Language Char} {w : List Char} :
    w ∈ optional l ↔ w = [] ∨ w ∈ l := by
  unfold optional
  rw [Language.mem_add, Language.mem_one]

theorem mem_optional_sign {w : List Char} : w ∈ optional sign ↔ ∃ s, Sign.text s = w := by
  have hsign : w ∈ sign ↔ w = ['+'] ∨ w = ['-'] := Iff.rfl
  rw [mem_optional, hsign]
  constructor
  · rintro (rfl | rfl | rfl)
    · exact ⟨none, rfl⟩
    · exact ⟨some .plus, rfl⟩
    · exact ⟨some .minus, rfl⟩
  · rintro ⟨_ | (_ | _), rfl⟩
    · exact Or.inl rfl
    · exact Or.inr (Or.inl rfl)
    · exact Or.inr (Or.inr rfl)

theorem mem_wholeLiteral {w : List Char} :
    w ∈ wholeLiteral ↔ ∃ s ds, AllDigits ds ∧ ds ≠ [] ∧ Sign.text s ++ ds = w := by
  unfold wholeLiteral
  rw [Language.mem_mul]
  constructor
  · rintro ⟨_, hs, ds, hds, rfl⟩
    obtain ⟨s, rfl⟩ := mem_optional_sign.mp hs
    obtain ⟨hall, hne⟩ := mem_digits.mp hds
    exact ⟨s, ds, hall, hne, rfl⟩
  · rintro ⟨s, ds, hall, hne, rfl⟩
    exact ⟨_, mem_optional_sign.mpr ⟨s, rfl⟩, ds, mem_digits.mpr ⟨hall, hne⟩, rfl⟩

theorem mem_scale {w : List Char} : w ∈ scale ↔ ∃ s : Scale, s.Written ∧ s.text = w := by
  have hmarker (m : List Char) : m ∈ marker ↔ m = ['e'] ∨ m = ['E'] := Iff.rfl
  unfold scale
  rw [Language.mem_mul]
  constructor
  · rintro ⟨m, hm, _, hrest, rfl⟩
    obtain ⟨s, ds, hall, hne, rfl⟩ := mem_wholeLiteral.mp hrest
    rcases (hmarker m).mp hm with rfl | rfl
    · exact ⟨⟨'e', s, ds⟩, ⟨Or.inl rfl, hall, hne⟩, rfl⟩
    · exact ⟨⟨'E', s, ds⟩, ⟨Or.inr rfl, hall, hne⟩, rfl⟩
  · rintro ⟨⟨m, s, ds⟩, ⟨hm, hall, hne⟩, rfl⟩
    refine ⟨[m], (hmarker [m]).mpr ?_, _, mem_wholeLiteral.mpr ⟨s, ds, hall, hne, rfl⟩, rfl⟩
    exact hm.imp (congrArg fun c => [c]) (congrArg fun c => [c])

theorem mem_optional_scale {w : List Char} :
    w ∈ optional scale ↔
      ∃ s : Option Scale, (∀ e ∈ s, e.Written) ∧ s.elim [] Scale.text = w := by
  rw [mem_optional, mem_scale]
  constructor
  · rintro (rfl | ⟨s, hs, rfl⟩)
    · exact ⟨none, by simp, rfl⟩
    · exact ⟨some s, by simpa using hs, rfl⟩
  · rintro ⟨_ | s, hs, rfl⟩
    · exact Or.inl rfl
    · exact Or.inr ⟨s, hs s rfl, rfl⟩

theorem mem_magnitude {w : List Char} :
    w ∈ magnitude ↔ ∃ (ds : List Char) (fraction : Option (List Char)), AllDigits ds ∧
      AllDigits (fraction.getD []) ∧ (ds = [] → fraction.getD [] ≠ []) ∧
      ds ++ fraction.elim [] ('.' :: ·) = w := by
  have hpoint (l : Language Char) (w : List Char) :
      w ∈ ({['.']} : Language Char) * l ↔ ∃ after ∈ l, '.' :: after = w := by
    rw [Language.mem_mul]
    exact ⟨fun ⟨_, hp, after, ha, he⟩ => ⟨after, ha, by cases hp; exact he⟩,
      fun ⟨after, ha, he⟩ => ⟨_, rfl, after, ha, he⟩⟩
  unfold magnitude
  rw [Language.mem_add, Language.mem_mul, hpoint]
  constructor
  · rintro (⟨ds, hds, rest, hrest, rfl⟩ | ⟨after, ha, rfl⟩)
    · obtain ⟨hall, hne⟩ := mem_digits.mp hds
      rcases mem_optional.mp hrest with rfl | hrest
      · exact ⟨ds, none, hall, by simp [AllDigits], fun h => absurd h hne, rfl⟩
      · obtain ⟨after, ha, rfl⟩ := (hpoint _ _).mp hrest
        exact ⟨ds, some after, hall, mem_digit_star.mp ha, fun h => absurd h hne, rfl⟩
    · obtain ⟨hall, hne⟩ := mem_digits.mp ha
      exact ⟨[], some after, by simp [AllDigits], hall, fun _ => hne, rfl⟩
  · rintro ⟨ds, fraction, hall, hfraction, hne, rfl⟩
    by_cases hnil : ds = []
    · subst hnil
      cases fraction with
      | none => exact absurd rfl (hne rfl)
      | some after => exact Or.inr ⟨after, mem_digits.mpr ⟨hfraction, hne rfl⟩, rfl⟩
    · refine Or.inl ⟨ds, mem_digits.mpr ⟨hall, hnil⟩, _, mem_optional.mpr ?_, rfl⟩
      cases fraction with
      | none => exact Or.inl rfl
      | some after => exact Or.inr ((hpoint _ _).mpr ⟨after, mem_digit_star.mpr hfraction, rfl⟩)

/-- **The decimal literals are the texts of numerals whose parts are written.** -/
theorem mem_decimalLiteral {w : List Char} :
    w ∈ decimalLiteral ↔ ∃ n : Numeral, n.Written ∧ n.text = w := by
  unfold decimalLiteral
  rw [Language.mem_mul]
  constructor
  · rintro ⟨_, hsign, _, hrest, rfl⟩
    obtain ⟨_, hm, _, hscale, rfl⟩ := Language.mem_mul.mp hrest
    obtain ⟨s, rfl⟩ := mem_optional_sign.mp hsign
    obtain ⟨ds, fraction, hall, hfraction, hne, rfl⟩ := mem_magnitude.mp hm
    obtain ⟨e, he, rfl⟩ := mem_optional_scale.mp hscale
    exact ⟨⟨s, ds, fraction, e⟩, ⟨hall, hfraction, hne, he⟩, by simp [Numeral.text]⟩
  · rintro ⟨⟨s, ds, fraction, e⟩, ⟨hall, hfraction, hne, he⟩, rfl⟩
    refine ⟨Sign.text s, mem_optional_sign.mpr ⟨s, rfl⟩, _, Language.mem_mul.mpr
      ⟨_, mem_magnitude.mpr ⟨ds, fraction, hall, hfraction, hne, rfl⟩, _,
        mem_optional_scale.mpr ⟨e, he, rfl⟩, rfl⟩, by simp [Numeral.text]⟩

end Grammar

/-! ### Characters of literals -/

/-- All characters are ASCII. -/
def Ascii (cs : List Char) : Prop := ∀ c ∈ cs, c.toNat < 128

theorem Ascii.append {a b : List Char} (ha : Ascii a) (hb : Ascii b) : Ascii (a ++ b) :=
  List.forall_mem_append.mpr ⟨ha, hb⟩

theorem Ascii.cons {c : Char} {b : List Char} (hc : c.toNat < 128) (hb : Ascii b) :
    Ascii (c :: b) :=
  List.forall_mem_cons.mpr ⟨hc, hb⟩

theorem AllDigits.ascii {ds : List Char} (h : AllDigits ds) : Ascii ds := by
  intro c hc
  have hdigit : 48 ≤ c.toNat ∧ c.toNat ≤ 57 := Char.isDigit_iff_toNat.mp (h c hc)
  omega

theorem Sign.ascii_text (sign : Option Sign) : Ascii (Sign.text sign) := by
  intro c hc
  rcases sign with _ | (_ | _)
  · cases hc
  · rw [List.mem_singleton.mp hc]
    decide
  · rw [List.mem_singleton.mp hc]
    decide

namespace Grammar

theorem ascii_wholeLiteral {w : List Char} (h : w ∈ wholeLiteral) : Ascii w := by
  obtain ⟨s, ds, hall, -, rfl⟩ := mem_wholeLiteral.mp h
  exact (Sign.ascii_text s).append hall.ascii

theorem ascii_decimalLiteral {w : List Char} (h : w ∈ decimalLiteral) : Ascii w := by
  obtain ⟨⟨s, ds, fraction, e⟩, ⟨hall, hfraction, -, he⟩, rfl⟩ := mem_decimalLiteral.mp h
  have hf : Ascii (fraction.elim [] ('.' :: ·)) := by
    cases fraction with
    | none => simp [Ascii]
    | some after => exact Ascii.cons (by decide) hfraction.ascii
  have hs : Ascii (e.elim [] Scale.text) := by
    cases e with
    | none => simp [Ascii]
    | some e =>
      obtain ⟨hm, hd, -⟩ := he e rfl
      refine Ascii.cons ?_ ((Sign.ascii_text e.sign).append hd.ascii)
      rcases hm with hm | hm <;> rw [hm] <;> decide
  exact (((Sign.ascii_text s).append hall.ascii).append hf).append hs

theorem ascii_literals {whole : Bool} {w : List Char} (h : w ∈ literals whole) : Ascii w := by
  cases whole with
  | true => exact ascii_wholeLiteral h
  | false => exact ascii_decimalLiteral h

end Grammar

end ShorthandSchema
