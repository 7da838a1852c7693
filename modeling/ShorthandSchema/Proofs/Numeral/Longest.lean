import Mathlib.Data.List.TakeWhile
import ShorthandSchema.Proofs.Numeral.Grammar

/-! # Numerals: the longest literal is read

A scanner is held against a language: what it finds is a word at the start of a text, and whatever
word stands there, it finds one that is no shorter. Both scanners are greedy in every part and leave
out a scale without digits, so the longest literal is what they find.

* `scans_scanWhole`, `scans_scanDecimal`: the scanners and their languages.
* `starts_of_utf8_starts`: an ASCII text that comes first by bytes comes first by characters.
* `read?_longest`: the literal that is read is the longest one after the blanks at the start. -/

namespace ShorthandSchema

/-! ### Scanners -/

theorem head?_dropWhile_eq_false {α : Type} (p : α → Bool) (l : List α) :
    ∀ a ∈ (l.dropWhile p).head?, p a = false := by
  intro a ha
  have h := List.head?_dropWhile_not p l
  rwa [Option.mem_def.mp ha] at h

namespace Numeral

open Grammar

/-- **A scanner finds the longest word of a language**: what it finds is a word at the start, and
behind every word there it has found one that is no shorter. -/
structure Scans (scan : List Char → Option Numeral) (l : Language Char) : Prop where
  sound : ∀ {cs n}, scan cs = some n → n.text <+: cs ∧ n.text ∈ l
  complete : ∀ {w} (rest), w ∈ l → ∃ n, scan (w ++ rest) = some n ∧ w.length ≤ n.text.length

section Scans
variable {scan : List Char → Option Numeral} {l : Language Char} (h : Scans scan l) {cs : List Char}
include h

theorem Scans.longest {n : Numeral} (hn : scan cs = some n) : LongestPrefix l cs n.text := by
  obtain ⟨hstarts, hmem⟩ := h.sound hn
  refine ⟨hstarts, hmem, ?_⟩
  rintro w ⟨rest, rfl⟩ hw
  obtain ⟨m, hm, hlength⟩ := h.complete rest hw
  rw [Option.some.inj (hn.symm.trans hm)]
  exact hlength

theorem Scans.eq_none_iff : scan cs = none ↔ ∀ p, p <+: cs → p ∉ l := by
  constructor
  · rintro hn p ⟨rest, rfl⟩ hp
    obtain ⟨m, hm, -⟩ := h.complete rest hp
    cases hn.symm.trans hm
  · intro hp
    cases hn : scan cs with
    | none => rfl
    | some n => exact absurd (h.sound hn).2 (hp n.text (h.sound hn).1)

theorem Scans.map_text_eq_some_iff {p : List Char} :
    (scan cs).map text = some p ↔ LongestPrefix l cs p := by
  rw [Option.map_eq_some_iff]
  constructor
  · rintro ⟨n, hn, rfl⟩
    exact h.longest hn
  · intro hp
    cases hn : scan cs with
    | none => exact absurd hp.mem (h.eq_none_iff.mp hn p hp.starts)
    | some n => exact ⟨n, rfl, (h.longest hn).unique hp⟩

end Scans

theorem allDigits_takeDigits (cs : List Char) : AllDigits (takeDigits cs) :=
  fun _ hc => List.mem_takeWhile_imp hc

theorem scanWhole_eq (cs : List Char) :
    scanWhole cs = if takeDigits (takeSign cs).2 = [] then none
      else some (integer (takeSign cs).1 (takeDigits (takeSign cs).2)) := rfl

theorem text_integer (sign : Option Sign) (ds : List Char) :
    (integer sign ds).text = Sign.text sign ++ ds := by
  simp [integer, text]

/-- **`scanWhole` finds the longest integer literal.** -/
theorem scans_scanWhole : Scans scanWhole wholeLiteral where
  sound {cs n} h := by
    rw [scanWhole_eq] at h
    split at h
    · cases h
    · rename_i hne
      cases h
      rw [text_integer]
      refine ⟨⟨dropDigits (takeSign cs).2, ?_⟩,
        mem_wholeLiteral.mpr ⟨_, _, allDigits_takeDigits _, hne, rfl⟩⟩
      rw [List.append_assoc, takeDigits_append_dropDigits, text_takeSign]
  complete {w} rest hw := by
    obtain ⟨s, ds, hall, hne, rfl⟩ := mem_wholeLiteral.mp hw
    refine ⟨_, by rw [List.append_assoc, scanWhole_digits s hall hne], ?_⟩
    simp [text_integer]

theorem text_takeFraction (cs : List Char) :
    (takeFraction cs).1.elim [] ('.' :: ·) ++ (takeFraction cs).2 = cs := by
  unfold takeFraction
  split
  · exact congrArg _ (takeDigits_append_dropDigits _)
  · rfl

theorem allDigits_takeFraction (cs : List Char) : AllDigits ((takeFraction cs).1.getD []) := by
  unfold takeFraction
  split
  · exact allDigits_takeDigits _
  · simp [AllDigits]

theorem written_of_scanScale {cs : List Char} {s : Scale} (h : scanScale cs = some s) :
    s.Written ∧ s.text <+: cs := by
  cases cs with
  | nil => cases h
  | cons m after =>
    rw [scanScale_cons] at h
    split at h
    · rename_i hm
      cases h
      refine ⟨⟨hm.1, allDigits_takeDigits _, hm.2⟩, dropDigits (takeSign after).2, ?_⟩
      rw [Scale.text, List.cons_append, List.append_assoc, takeDigits_append_dropDigits,
        text_takeSign]
    · cases h

theorem scanDecimal_eq (cs : List Char) :
    scanDecimal cs =
      if takeDigits (takeSign cs).2 = [] ∧
          (takeFraction (dropDigits (takeSign cs).2)).1.getD [] = [] then none
      else some ⟨(takeSign cs).1, takeDigits (takeSign cs).2,
        (takeFraction (dropDigits (takeSign cs).2)).1,
        scanScale (takeFraction (dropDigits (takeSign cs).2)).2⟩ := rfl

theorem written_of_scanDecimal {cs : List Char} {n : Numeral} (h : scanDecimal cs = some n) :
    n.Written ∧ n.text <+: cs := by
  have hsign := text_takeSign cs
  rw [scanDecimal_eq] at h
  generalize takeSign cs = start at h hsign
  obtain ⟨sign, rest⟩ := start
  have hdigits := takeDigits_append_dropDigits rest
  have hfraction := text_takeFraction (dropDigits rest)
  have hall := allDigits_takeFraction (dropDigits rest)
  generalize takeFraction (dropDigits rest) = part at h hfraction hall
  obtain ⟨fraction, after⟩ := part
  dsimp only at h hsign hfraction hall
  -- the scale ends where the text after the fraction goes on
  have hscale : ∃ tail, (scanScale after).elim [] Scale.text ++ tail = after := by
    cases hs : scanScale after with
    | none => exact ⟨after, rfl⟩
    | some s => exact (written_of_scanScale hs).2
  obtain ⟨tail, htail⟩ := hscale
  split at h
  · cases h
  · rename_i hne
    cases h
    refine ⟨⟨allDigits_takeDigits rest, hall, fun hnil hf => hne ⟨hnil, hf⟩,
      fun s hs => (written_of_scanScale hs).1⟩, tail, ?_⟩
    rw [text, List.append_assoc, List.append_assoc, List.append_assoc, htail, hfraction, hdigits,
      hsign]

theorem noDigitNext_dropDigits (cs : List Char) : NoDigitNext (dropDigits cs) :=
  head?_dropWhile_eq_false Char.isDigit cs

section Longer
variable (sign : Option Sign) {whole : List Char} (hw : AllDigits whole) (rest : List Char)
include hw

theorem scanDecimal_scale {fraction : Option (List Char)} {s : Scale}
    (hf : AllDigits (fraction.getD [])) (hne : whole = [] → fraction.getD [] ≠ [])
    (hs : s.Written) :
    scanDecimal ((Numeral.mk sign whole fraction (some s)).text ++ rest) =
      some ⟨sign, whole, fraction, some { s with digits := s.digits ++ takeDigits rest }⟩ := by
  have hlonger : Scale.Written { s with digits := s.digits ++ takeDigits rest } :=
    ⟨hs.marker, hs.digits.append (allDigits_takeDigits rest),
      fun h => hs.ne_nil (List.append_eq_nil_iff.mp h).1⟩
  have hn : Numeral.Written ⟨sign, whole, fraction, some { s with
      digits := s.digits ++ takeDigits rest }⟩ := ⟨hw, hf, hne, by simpa using hlonger⟩
  rw [← scanDecimal_text_append hn (noDigitNext_dropDigits rest) (by simp [isWhole]) (by simp)]
  simp [text, Scale.text, takeDigits_append_dropDigits]

theorem scanDecimal_fraction {ds : List Char} (hds : AllDigits ds) (hne : whole = [] → ds ≠ []) :
    scanDecimal ((Numeral.mk sign whole (some ds) none).text ++ rest) =
      some ⟨sign, whole, some (ds ++ takeDigits rest), scanScale (dropDigits rest)⟩ := by
  have hfraction : whole = [] → (some ds).getD [] ≠ [] := hne
  have hsign : takeSign (Sign.text sign ++ (whole ++ ('.' :: (ds ++ rest)))) =
      (sign, whole ++ ('.' :: (ds ++ rest))) := takeSign_text_magnitude sign hw hfraction rest
  have htext : (Numeral.mk sign whole (some ds) none).text ++ rest =
      Sign.text sign ++ (whole ++ ('.' :: (ds ++ rest))) := by simp [text]
  have hpoint : NoDigitNext ('.' :: (ds ++ rest)) := by simp [NoDigitNext]
  rw [htext, scanDecimal_eq, hsign]
  simp only [takeDigits_append hw, dropDigits_append hw,
    takeDigits_eq_nil_iff.mpr hpoint, dropDigits_of_noDigitNext hpoint, takeFraction,
    takeDigits_append hds, dropDigits_append hds, List.append_nil, Option.getD_some]
  exact if_neg fun h => hne h.1 (List.append_eq_nil_iff.mp h.2).1

end Longer

/-- **`scanDecimal` finds the longest decimal literal.** -/
theorem scans_scanDecimal : Scans scanDecimal decimalLiteral where
  sound h := by
    obtain ⟨hn, hstarts⟩ := written_of_scanDecimal h
    exact ⟨hstarts, mem_decimalLiteral.mpr ⟨_, hn, rfl⟩⟩
  complete {w} rest hw := by
    obtain ⟨⟨sign, whole, fraction, scale⟩, ⟨hwhole, hf, hne, hs⟩, rfl⟩ :=
      mem_decimalLiteral.mp hw
    cases scale with
    | some s =>
      refine ⟨_, scanDecimal_scale sign hwhole rest hf hne (hs s rfl), ?_⟩
      simp [text, Scale.text]
    | none =>
      cases fraction with
      | some ds =>
        refine ⟨_, scanDecimal_fraction sign hwhole rest hf hne, ?_⟩
        simp [text]
      | none =>
        have htext : (Numeral.mk sign whole none none).text ++ rest =
            Sign.text sign ++ (whole ++ rest) := by simp [text]
        rw [htext]
        refine ⟨_, scanDecimal_digits sign hwhole (fun h => hne h rfl) rest, ?_⟩
        simp [text]

theorem scans_literals (whole : Bool) :
    Scans (fun cs => if whole then scanWhole cs else scanDecimal cs) (literals whole) := by
  cases whole with
  | true => exact scans_scanWhole
  | false => exact scans_scanDecimal

end Numeral

/-! ### Bytes -/

/-- The bytes of a text in UTF-8. -/
def utf8 (cs : List Char) : List UInt8 := cs.flatMap String.utf8EncodeChar

/-- The words of a language as bytes. -/
def bytes (l : Language Char) : Language UInt8 := {b | ∃ w ∈ l, utf8 w = b}

theorem utf8EncodeChar_of_ascii {c : Char} (h : c.toNat < 128) :
    String.utf8EncodeChar c = [UInt8.ofNat c.toNat] := by
  have h : c.val.toNat ≤ 127 := Nat.le_of_lt_succ h
  unfold String.utf8EncodeChar
  exact if_pos h

/-- No byte of a character beyond ASCII is one of an ASCII character. -/
theorem le_of_mem_utf8EncodeChar {c : Char} (h : 128 ≤ c.toNat) :
    ∀ b ∈ String.utf8EncodeChar c, 128 ≤ b.toNat := by
  have h : ¬ c.val.toNat ≤ 127 := Nat.not_le_of_lt h
  unfold String.utf8EncodeChar
  dsimp only
  rw [if_neg h]
  split_ifs <;> simp <;> omega

theorem length_utf8_of_ascii {cs : List Char} (h : Ascii cs) : (utf8 cs).length = cs.length := by
  induction cs with
  | nil => rfl
  | cons c rest ih =>
    obtain ⟨hc, hrest⟩ := List.forall_mem_cons.mp h
    rw [utf8, List.flatMap_cons, utf8EncodeChar_of_ascii hc, List.length_append,
      List.length_singleton, ← utf8, ih hrest, List.length_cons, Nat.add_comm]

/-- **An ASCII text that comes first by bytes comes first by characters.** -/
theorem starts_of_utf8_starts {w cs : List Char} (hw : Ascii w) (h : utf8 w <+: utf8 cs) :
    w <+: cs := by
  induction w generalizing cs with
  | nil => exact List.nil_prefix
  | cons c rest ih =>
    obtain ⟨hc, hrest⟩ := List.forall_mem_cons.mp hw
    rw [utf8, List.flatMap_cons, utf8EncodeChar_of_ascii hc, List.singleton_append] at h
    cases cs with
    | nil => exact absurd (List.prefix_nil.mp h) (List.cons_ne_nil _ _)
    | cons d after =>
      rw [utf8, List.flatMap_cons] at h
      by_cases hd : d.toNat < 128
      · rw [utf8EncodeChar_of_ascii hd, List.singleton_append, List.cons_prefix_cons] at h
        have hbyte : c.toNat = d.toNat := by
          have := congrArg UInt8.toNat h.1
          simp only [UInt8.toNat_ofNat'] at this
          omega
        rw [Char.toNat_inj.mp hbyte]
        exact List.prefix_cons_inj d |>.mpr (ih hrest h.2)
      · -- the first byte of `d` is none of an ASCII character
        obtain ⟨b, bs, hb⟩ := List.exists_cons_of_ne_nil (String.utf8EncodeChar_ne_nil (c := d))
        have hle := le_of_mem_utf8EncodeChar (Nat.le_of_not_lt hd) b (by rw [hb]; simp)
        rw [hb, List.cons_append, List.cons_prefix_cons] at h
        rw [← h.1, UInt8.toNat_ofNat'] at hle
        omega

theorem LongestPrefix.toBytes {l : Language Char} (hl : ∀ w ∈ l, Ascii w) {cs p : List Char}
    (h : LongestPrefix l cs p) :
    LongestPrefix (bytes l) (utf8 cs) (utf8 p) where
  starts := by
    obtain ⟨rest, rfl⟩ := h.starts
    exact ⟨utf8 rest, (List.flatMap_append ..).symm⟩
  mem := ⟨p, h.mem, rfl⟩
  longest := by
    rintro _ hq ⟨w, hw, rfl⟩
    rw [length_utf8_of_ascii (hl w hw), length_utf8_of_ascii (hl p h.mem)]
    exact h.longest w (starts_of_utf8_starts (hl w hw) hq) hw

namespace Numeral

open Grammar

/-- **The literal that is read is the longest one** right after the blanks at the start; there is
none exactly if no literal stands there. Counted by bytes it is the longest, too, and each of its
characters is one byte, so that it ends where a character ends. -/
theorem read?_longest (whole : Bool) (s : String) :
    ∃ blanks cs, s.toList = blanks ++ cs ∧ (∀ b ∈ blanks, isBlank b) ∧
      (∀ c ∈ cs.head?, isBlank c = false) ∧
      (∀ p, (read? whole s).map text = some p ↔ LongestPrefix (literals whole) cs p) ∧
      (read? whole s = none ↔ ∀ p, p <+: cs → p ∉ literals whole) ∧
      ∀ p, LongestPrefix (literals whole) cs p →
        (utf8 p).length = p.length ∧
          LongestPrefix (bytes (literals whole)) (utf8 cs) (utf8 p) := by
  have hscan := scans_literals whole
  refine ⟨s.toList.takeWhile isBlank, trimLeft s.toList, List.takeWhile_append_dropWhile.symm,
    fun b hb => List.mem_takeWhile_imp hb, ?_, fun p => hscan.map_text_eq_some_iff,
    hscan.eq_none_iff, fun p hp => ?_⟩
  · exact head?_dropWhile_eq_false isBlank s.toList
  · have hascii : ∀ w ∈ literals whole, Ascii w := fun w hw => ascii_literals hw
    exact ⟨length_utf8_of_ascii (hascii p hp.mem), hp.toBytes hascii⟩

-- a dangling exponent is left out, and so is a letter that is no ASCII digit
example : ((read? false " \u00a0-12.5e+x").map text, (read? true "7\u0663").map text) =
    (some "-12.5".toList, some "7".toList) := by decide

end Numeral

end ShorthandSchema
