import ShorthandSchema.Proofs.Binary64.Nearest
import ShorthandSchema.Proofs.PrintedNumbers

/-! # Bounds: the integers that a node accepts form an interval

A node for numbers compares its bounds with the number nearest to an integer, whether the integer is
given as a number or as a text. Nearest numbers are in the order of the integers, and so are the
outcomes: those that are too small come first, then those that are accepted, then those that are too
big. Bounds that are infinite, in the wrong order or no numbers at all make no difference to that.

* `TopNode.rejects_tooSmall_iff`, `TopNode.rejects_tooBig_iff`: which bound a number violates first.
* `TopNode.exists_nearest`: an integer has the outcome of the number nearest to it.
* `TopNode.accepts_between`: what is between accepted integers is accepted. -/

namespace ShorthandSchema

open Binary64 (Alike Finite)

/-! ### Bounds -/

theorem violated_eq_some_iff {α : Type} {bound : Option α} {bad : α → Bool}
    {complaint : α → Complaint} {q : Complaint} :
    violated bound bad complaint = some q ↔ ∃ b ∈ bound, bad b ∧ complaint b = q := by
  simp only [violated, Option.map_eq_some_iff, Option.filter_eq_some_iff, Option.mem_def, and_assoc]

theorem violated_eq_none_iff {α : Type} {bound : Option α} {bad : α → Bool}
    {complaint : α → Complaint} :
    violated bound bad complaint = none ↔ ¬ ∃ b ∈ bound, bad b := by
  simp [violated]

namespace Node

/-- A number is below the least value of a node. -/
def TooSmall (n : Node) (x : Binary64) : Prop := ∃ b ∈ n.minValue, x.less b

/-- A number is above the greatest value of a node. -/
def TooBig (n : Node) (x : Binary64) : Prop := ∃ b ∈ n.maxValue, b.less x

variable {n : Node}

theorem tooSmall_congr {x y : Binary64} (h : Alike x y) : n.TooSmall x ↔ n.TooSmall y :=
  exists_congr fun b => and_congr_right fun _ => by rw [h.less_left]

theorem tooBig_congr {x y : Binary64} (h : Alike x y) : n.TooBig x ↔ n.TooBig y :=
  exists_congr fun b => and_congr_right fun _ => by rw [h.less_right]

theorem TooSmall.of_le {x y : Finite} (h : n.TooSmall (.finite y)) (hle : x.scaled ≤ y.scaled) :
    n.TooSmall (.finite x) := by
  obtain ⟨b, hb, hless⟩ := h
  exact ⟨b, hb, Binary64.less_of_scaled_le hle hless⟩

theorem TooBig.of_le {x y : Finite} (h : n.TooBig (.finite x)) (hle : x.scaled ≤ y.scaled) :
    n.TooBig (.finite y) := by
  obtain ⟨b, hb, hless⟩ := h
  exact ⟨b, hb, Binary64.less_of_le_scaled hle hless⟩

theorem numberFits_iff (hv : n.value = none) {x : Binary64} :
    n.NumberFits x ↔ ¬ n.TooSmall x ∧ ¬ n.TooBig x := by
  constructor
  · rintro ⟨hleast, hmost, -⟩
    exact ⟨fun ⟨b, hb, hless⟩ => by simp [hleast b hb] at hless,
      fun ⟨b, hb, hless⟩ => by simp [hmost b hb] at hless⟩
  · rintro ⟨hsmall, hbig⟩
    refine ⟨fun b hb => ?_, fun b hb => ?_, fun e he => by simp [hv] at he⟩
    · exact Bool.eq_false_iff.mpr fun hless => hsmall ⟨b, hb, hless⟩
    · exact Bool.eq_false_iff.mpr fun hless => hbig ⟨b, hb, hless⟩

/-- The least value is checked first. -/
theorem head?_boundComplaints_eq_some_iff (hv : n.value = none) {x : Binary64} {q : Complaint} :
    (n.boundComplaints x).head? = some q ↔
      (∃ b ∈ n.minValue, x.less b ∧ .numberTooSmall b = q) ∨
        ¬ n.TooSmall x ∧ ∃ b ∈ n.maxValue, b.less x ∧ .numberTooBig b = q := by
  have hexpected : n.expectedNumber = none := by
    rw [expectedNumber, hv]
    rfl
  have hsame : violated n.expectedNumber (fun e => !x.same e) .numberNotSame = none := by
    rw [hexpected]
    rfl
  rw [boundComplaints, List.head?_append, List.head?_append, head?_failing, head?_failing,
    head?_failing, hsame, Option.or_none, Option.or_eq_some_iff, violated_eq_some_iff,
    violated_eq_some_iff, violated_eq_none_iff]
  rfl

end Node

/-! ### Outcomes -/

namespace Compiled

namespace TopNode

variable {c : Compiled} {n : Node} (h : c.TopNode n) (hk : n.IsNumber)
include h hk

section Number

variable {raw : Json} {x : Coerced} (hx : raw.asNumber? n.wholeNumbers = some x)
include hx

theorem rejects_iff {code : Code} :
    c.Rejects raw code ↔ ∃ q, (n.boundComplaints x.value).head? = some q ∧ q.code = code := by
  rw [Rejects, h.validate_number hk hx]
  cases (n.boundComplaints x.value).head? with
  | none => simp
  | some q => simp [Site.failure]

variable (hv : n.value = none)
include hv

theorem accepts_iff : c.Accepts raw ↔ ¬ n.TooSmall x.value ∧ ¬ n.TooBig x.value := by
  rw [← Node.numberFits_iff hv, Accepts]
  constructor
  · rintro ⟨out, hout⟩
    exact ((h.validate_number_eq_ok_iff hk hx).mp hout).1
  · intro hfits
    exact ⟨_, (h.validate_number_eq_ok_iff hk hx).mpr ⟨hfits, rfl⟩⟩

theorem rejects_tooSmall_iff : c.Rejects raw .numberTooSmall ↔ n.TooSmall x.value := by
  rw [h.rejects_iff hk hx]
  constructor
  · rintro ⟨q, hq, hcode⟩
    rcases (Node.head?_boundComplaints_eq_some_iff hv).mp hq with
      ⟨b, hb, hless, -⟩ | ⟨-, b, -, -, rfl⟩
    · exact ⟨b, hb, hless⟩
    · cases hcode
  · rintro ⟨b, hb, hless⟩
    exact ⟨_, (Node.head?_boundComplaints_eq_some_iff hv).mpr (Or.inl ⟨b, hb, hless, rfl⟩), rfl⟩

theorem rejects_tooBig_iff :
    c.Rejects raw .numberTooBig ↔ ¬ n.TooSmall x.value ∧ n.TooBig x.value := by
  rw [h.rejects_iff hk hx]
  constructor
  · rintro ⟨q, hq, hcode⟩
    rcases (Node.head?_boundComplaints_eq_some_iff hv).mp hq with
      ⟨b, -, -, rfl⟩ | ⟨hs, b, hb, hless, -⟩
    · cases hcode
    · exact ⟨hs, b, hb, hless⟩
  · rintro ⟨hs, b, hb, hless⟩
    exact ⟨_, (Node.head?_boundComplaints_eq_some_iff hv).mpr (Or.inr ⟨hs, b, hb, hless, rfl⟩), rfl⟩

end Number

variable (hv : n.value = none)
include hv

/-- **An integer has the outcome of the number nearest to it**, in whatever spelling it is given. -/
theorem exists_nearest {k : Int} (exact : Json.Exact k) {raw : Json}
    (hraw : raw.Spells n.wholeNumbers k) :
    ∃ x, Binary64.ofInt k = .finite x ∧
      (c.Accepts raw ↔ ¬ n.TooSmall (.finite x) ∧ ¬ n.TooBig (.finite x)) ∧
      (c.Rejects raw .numberTooSmall ↔ n.TooSmall (.finite x)) ∧
      (c.Rejects raw .numberTooBig ↔ ¬ n.TooSmall (.finite x) ∧ n.TooBig (.finite x)) := by
  obtain ⟨y, hy, hread⟩ := hraw.asNumber? exact
  obtain ⟨x, hx⟩ := exact.exists_ofInt
  rw [hx] at hy
  have hsmall : n.TooSmall y ↔ n.TooSmall (.finite x) := Node.tooSmall_congr hy
  have hbig : n.TooBig y ↔ n.TooBig (.finite x) := Node.tooBig_congr hy
  refine ⟨x, hx, ?_, ?_, ?_⟩
  · rw [h.accepts_iff hk hread hv, hsmall, hbig]
  · rw [h.rejects_tooSmall_iff hk hread hv, hsmall]
  · rw [h.rejects_tooBig_iff hk hread hv, hsmall, hbig]

/-- **The integers that bounds accept form an interval.** Of three integers of 64 bits in order,
each given as a number or as a text with it at its start, such as its decimal text: if the outer ones are
accepted, so is the one between them; if that is too small, so is the least; if it is too big, so is
the greatest. What the bounds are compared with is the number nearest to an integer, and of two that
are as near the one with an even significand. -/
theorem accepts_between {i j k : Int} (hfirst : Json.Exact i) (hlast : Json.Exact k) (hij : i ≤ j)
    (hjk : j ≤ k) {low mid high : Json} (hlow : low.Spells n.wholeNumbers i)
    (hmid : mid.Spells n.wholeNumbers j) (hhigh : high.Spells n.wholeNumbers k) :
    (c.Accepts low → c.Accepts high → c.Accepts mid) ∧
    (c.Rejects mid .numberTooSmall → c.Rejects low .numberTooSmall) ∧
    (c.Rejects mid .numberTooBig → c.Rejects high .numberTooBig) ∧
    ∃ x : Finite, x.NearestTo j ∧
      (c.Accepts mid ↔ ¬ n.TooSmall (.finite x) ∧ ¬ n.TooBig (.finite x)) ∧
      (c.Rejects mid .numberTooSmall ↔ n.TooSmall (.finite x)) ∧
      (c.Rejects mid .numberTooBig ↔ ¬ n.TooSmall (.finite x) ∧ n.TooBig (.finite x)) := by
  have hbetween : Json.Exact j := ⟨hfirst.1.trans hij, lt_of_le_of_lt hjk hlast.2⟩
  obtain ⟨x, hx, hxa, hxs, hxb⟩ := h.exists_nearest hk hv hfirst hlow
  obtain ⟨y, hy, hya, hys, hyb⟩ := h.exists_nearest hk hv hbetween hmid
  obtain ⟨z, hz, hza, hzs, hzb⟩ := h.exists_nearest hk hv hlast hhigh
  have hxy : x.scaled ≤ y.scaled := Binary64.scaled_mono_of_ofInt hx hy hij
  have hyz : y.scaled ≤ z.scaled := Binary64.scaled_mono_of_ofInt hy hz hjk
  refine ⟨?_, ?_, ?_, y, Binary64.nearestTo_of_ofInt hy, hya, hys, hyb⟩
  · rw [hxa, hya, hza]
    rintro ⟨hsmall, -⟩ ⟨-, hbig⟩
    exact ⟨fun hs => hsmall (hs.of_le hxy), fun hb => hbig (hb.of_le hyz)⟩
  · rw [hxs, hys]
    exact fun hs => hs.of_le hxy
  · rw [hyb, hzb]
    rintro ⟨hsmall, hbig⟩
    exact ⟨fun hs => hsmall (hs.of_le hyz), hbig.of_le hyz⟩

end TopNode

/-- A share whose bounds are integers that have a number of their own. -/
def shareNode : Node :=
  { kind := .number, path := "share", minValue := some (.ofInt 9007199254740992),
    maxValue := some (.ofInt 9007199254740996) }

theorem accepts_share {c : Compiled} (hc : c.TopNode shareNode) {k : Int} (exact : Json.Exact k)
    (hleast : (Binary64.ofInt k).less (.ofInt 9007199254740992) = false)
    (hmost : Binary64.less (.ofInt 9007199254740996) (.ofInt k) = false) :
    c.Accepts (.number (.integer k exact)) := by
  have hx : (Json.number (.integer k exact)).asNumber? shareNode.wholeNumbers =
      some ⟨.ofInt k, .integer k exact⟩ := rfl
  have hsmall : ¬ shareNode.TooSmall (.ofInt k) := by
    rintro ⟨b, hb, hless⟩
    have hb : Binary64.ofInt 9007199254740992 = b := Option.some.inj hb
    rw [← hb, hleast] at hless
    cases hless
  have hbig : ¬ shareNode.TooBig (.ofInt k) := by
    rintro ⟨b, hb, hless⟩
    have hb : Binary64.ofInt 9007199254740996 = b := Option.some.inj hb
    rw [← hb, hmost] at hless
    cases hless
  exact (hc.accepts_iff (Or.inr rfl) hx rfl).mpr ⟨hsmall, hbig⟩

/-- The greatest of the three is above the upper bound, but is rounded to it. The integer between
them, given as a text, has no number of its own. -/
theorem accepts_between_shares :
    ∃ c, TopNode c shareNode ∧ shareNode.IsNumber ∧ shareNode.value = none ∧
      c.Accepts (.number (.integer 9007199254740992 (by decide))) ∧
      c.Accepts (.number (.integer 9007199254740997 (by decide))) ∧
      c.Accepts (.string "9007199254740993") := by
  have hk : shareNode.IsNumber := Or.inr rfl
  obtain ⟨c, hc⟩ := hk.exists_topNode
  have hfirst : Json.Exact 9007199254740992 := by decide
  have hlast : Json.Exact 9007199254740997 := by decide
  have hlow := accepts_share hc hfirst (by decide +kernel) (by decide +kernel)
  have hhigh := accepts_share hc hlast (by decide +kernel) (by decide +kernel)
  have htext : (Json.Number.integer 9007199254740993 (by decide)).text = "9007199254740993" := by
    decide +kernel
  have hmid := Json.spells_text shareNode.wholeNumbers 9007199254740993 (by decide)
  rw [htext] at hmid
  have hall := hc.accepts_between hk rfl hfirst hlast (by decide) (by decide) (.number hfirst) hmid
    (.number hlast)
  exact ⟨c, hc, hk, rfl, hlow, hhigh, hall.1 hlow hhigh⟩

end Compiled

end ShorthandSchema
