import ShorthandSchema.Decimal.Layout
import ShorthandSchema.Proofs.Binary64.Order
import ShorthandSchema.Proofs.Numeral.Reading

/-! # Numerals: the literal of a printed float

The JSON text of a float is a literal with a point or with a scale. Its decimal is the one that was
laid out, except that a float without fraction is given one zero more; so it is rounded to the float
that was printed.

* `readsAs_shortest`: the decimal that is laid out is read as the magnitude it stands for.
* `exists_prints_magnitude`: the text of a magnitude is a literal of the same value.
* `exists_literal_finite`: the text of a float is a literal of that float. -/

namespace ShorthandSchema

open Binary64 (Finite one unitExponent)

/-! ### Decimals -/

namespace Binary64

theorem vanishes_eq_false {d : Decimal} (h : -1 ≤ d.exponent) : vanishes d = false := by
  unfold vanishes unitExponent
  simp only [decide_eq_false_iff_not]
  omega

theorem ofDecimal_of_neg (negative : Bool) {d : Decimal} (h0 : d.digits ≠ 0)
    (hv : vanishes d = false) {k : Nat} (hk : 0 < k) (he : d.exponent = -k) :
    ofDecimal negative d = ofRatio negative d.digits (Nat.pow 10 k) := by
  have hlarge : ¬ largestExponent < d.exponent := by
    unfold largestExponent
    omega
  have hto : (-d.exponent).toNat = k := by omega
  unfold ofDecimal
  rw [if_neg (by simp [h0, hv]), if_neg hlarge, if_neg (by omega), hto]

theorem ofDecimal_of_nonneg (negative : Bool) {d : Decimal} (h0 : d.digits ≠ 0) {k : Nat}
    (hk : k ≤ 400) (he : d.exponent = k) :
    ofDecimal negative d = ofRatio negative (d.digits * Nat.pow 10 k) 1 := by
  have hv : vanishes d = false := vanishes_eq_false (by omega)
  have hlarge : ¬ largestExponent < d.exponent := by
    unfold largestExponent
    omega
  have hto : d.exponent.toNat = k := by omega
  unfold ofDecimal
  rw [if_neg (by simp [h0, hv]), if_neg hlarge, if_pos (by omega), hto]

theorem ofDecimal_tenths (negative : Bool) {m : Nat} (h0 : m ≠ 0) {k : Nat} (hk : k ≤ 400) :
    ofDecimal negative ⟨m * Nat.pow 10 k * 10, -1⟩ = ofDecimal negative ⟨m, k⟩ := by
  have hten : 0 < Nat.pow 10 k := Nat.pow_pos (by decide)
  have hne : m * Nat.pow 10 k * 10 ≠ 0 :=
    Nat.mul_ne_zero (Nat.mul_ne_zero h0 (Nat.ne_of_gt hten)) (by decide)
  have htenths : ofDecimal negative ⟨m * Nat.pow 10 k * 10, -1⟩ =
      ofRatio negative (m * Nat.pow 10 k * 10) (Nat.pow 10 1) :=
    ofDecimal_of_neg negative hne (vanishes_eq_false (Int.le_refl (-1))) Nat.one_pos rfl
  have hwhole : ofDecimal negative ⟨m, k⟩ = ofRatio negative (m * Nat.pow 10 k) 1 :=
    ofDecimal_of_nonneg negative h0 hk rfl
  have hone : Nat.pow 10 1 = 1 * 10 := rfl
  rw [htenths, hwhole, hone, ofRatio_mul (by decide)]

end Binary64

namespace Decimal

theorem ten_pow_pos (k : Nat) : 0 < Nat.pow 10 k := Nat.pow_pos (by decide)

theorem five_pow_mul_two_pow (k : Nat) : Nat.pow 5 k * 1 <<< k = Nat.pow 10 k := by
  rw [Nat.one_shiftLeft]
  exact (Nat.mul_pow 5 2 k).symm

theorem two_pow_le_five_pow (k : Nat) : 2 ^ (2 * k) ≤ Nat.pow 5 k := by
  rw [Nat.pow_mul]
  exact Nat.pow_le_pow_left (by decide) k

theorem exactDigits_mul_one (x : Finite) :
    exactDigits x * one = x.units * Nat.pow 10 unitExponent := by
  rw [exactDigits, one, Nat.mul_assoc, five_pow_mul_two_pow]

variable {x : Finite} (h : x.units ≠ 0)
include h

theorem two_pow_le_exactDigits : 2 ^ (2 * unitExponent) ≤ exactDigits x :=
  Nat.le_trans (two_pow_le_five_pow _) (Nat.le_mul_of_pos_left _ (Nat.pos_of_ne_zero h))

theorem vanishes_exact : Binary64.vanishes (exact x) = false := by
  have hle := two_pow_le_exactDigits h
  have h0 : exactDigits x ≠ 0 := Nat.ne_of_gt (Nat.lt_of_lt_of_le (Nat.two_pow_pos _) hle)
  have hlog : 2 * unitExponent ≤ (exactDigits x).log2 := (Nat.le_log2 h0).mpr hle
  unfold Binary64.vanishes exact
  simp only [decide_eq_false_iff_not]
  omega

/-- **The exact decimal of a magnitude reads back.** -/
theorem readsAs_exact : readsAs x (exact x) := by
  have h0 : (exact x).digits ≠ 0 :=
    Nat.ne_of_gt (Nat.lt_of_lt_of_le (Nat.two_pow_pos _) (two_pow_le_exactDigits h))
  have hread : Binary64.ofDecimal x.negative (exact x) = .finite x := by
    rw [Binary64.ofDecimal_of_neg _ h0 (vanishes_exact h) (by decide : 0 < unitExponent) rfl]
    calc Binary64.ofUnits x.negative (exactDigits x * one) (Nat.pow 10 unitExponent)
        = .ofUnits x.negative (x.units * Nat.pow 10 unitExponent)
            (1 * Nat.pow 10 unitExponent) := by
          rw [exactDigits_mul_one, Nat.one_mul]
      _ = .ofUnits x.negative x.units 1 := Binary64.ofUnits_mul (ten_pow_pos _) _ _ _
      _ = .finite x := Binary64.ofUnits_units x
  simp [readsAs, hread]

/-- **The shortest decimal of a magnitude reads back.** -/
theorem readsAs_shortest (tie : Tie) : readsAs x (shortest tie x) := by
  unfold shortest
  cases hd : shortestFrom tie x (Nat.toDigits 10 (exactDigits x)).length mostDigits 1 with
  | some d => exact readsAs_of_shortestFrom hd
  | none => exact readsAs_exact h

theorem digits_ne_zero_of_readsAs {d : Decimal} (hd : readsAs x d) : d.digits ≠ 0 := by
  intro h0
  have hd : Binary64.ofDecimal x.negative d = .finite x := by simpa [readsAs] using hd
  rw [Binary64.ofDecimal, if_pos (Or.inl h0), Binary64.finite.injEq] at hd
  rw [← hd] at h
  exact h rfl

end Decimal

/-! ### Laid out digits -/

/-- **A literal that prints a decimal**: it has a point or a scale, its text is a sign before `cs`,
and it is rounded as the decimal is. -/
structure Numeral.Prints (n : Numeral) (sign : Option Sign) (cs : List Char) (d : Decimal) :
    Prop where
  text : n.text = Sign.text sign ++ cs
  sign : n.sign = sign
  written : n.Written
  not_whole : n.isWhole = false
  value (negative : Bool) : Binary64.ofDecimal negative n.decimal = .ofDecimal negative d

namespace Layout

open Decimal (zeros ofDigits)

/-- The literal with one digit before the point, the others behind it, and a scale. -/
def scientificNumeral (sign : Option Sign) (ds : List Char) (place : Int) : Numeral :=
  ⟨sign, ds.take 1, if ds.length ≤ 1 then none else some (ds.drop 1),
    some ⟨'e', some (if place < 0 then .minus else .plus), Nat.toDigits 10 place.natAbs⟩⟩

theorem exponent_scientific (place : Int) :
    Scale.exponent ⟨'e', some (if place < 0 then .minus else .plus), Nat.toDigits 10 place.natAbs⟩ =
      place := by
  simp only [Scale.exponent, Decimal.ofDigits_toDigits, Option.some.injEq]
  by_cases h : place < 0
  · rw [if_pos h, if_pos rfl]
    omega
  · rw [if_neg h, if_neg (by decide)]
    omega

variable (sign : Option Sign) {ds : List Char} (hd : AllDigits ds)
include hd

/-- Digits behind the point, with zeros before them. -/
theorem prints_zeros_before (k : Nat) :
    Numeral.Prints ⟨sign, ['0'], some (zeros k ++ ds), none⟩ sign ('0' :: '.' :: (zeros k ++ ds))
      ⟨ofDigits ds, -(k + ds.length : Nat)⟩ where
  text := by simp [Numeral.text]
  sign := rfl
  written := ⟨allDigits_zeros 1, (allDigits_zeros k).append hd, by simp, by simp⟩
  not_whole := rfl
  value negative := by
    have hdigits : ofDigits (['0'] ++ (zeros k ++ ds)) = ofDigits ds := by
      have h : ['0'] = zeros 1 := rfl
      rw [h, Decimal.ofDigits_zeros_append, Decimal.ofDigits_zeros_append]
    have hlength : (zeros k ++ ds).length = k + ds.length := by
      rw [List.length_append, zeros, List.length_replicate]
    simp only [Numeral.decimal, Option.getD_some, Option.elim_none, hdigits, hlength, Int.zero_sub]

/-- The point between the digits. -/
theorem prints_point_inside {k : Nat} (h0 : 0 < k) (hk : k < ds.length) :
    Numeral.Prints ⟨sign, ds.take k, some (ds.drop k), none⟩ sign (ds.take k ++ '.' :: ds.drop k)
      ⟨ofDigits ds, -(ds.length - k : Nat)⟩ where
  text := by simp [Numeral.text]
  sign := rfl
  written := by
    refine ⟨fun c hc => hd c (List.mem_of_mem_take hc), fun c hc => hd c (List.mem_of_mem_drop hc),
      fun hnil => ?_, by simp⟩
    rw [List.take_eq_nil_iff] at hnil
    rcases hnil with rfl | rfl
    · exact absurd h0 (Nat.lt_irrefl 0)
    · exact absurd hk (Nat.not_lt_zero k)
  not_whole := rfl
  value negative := by
    simp only [Numeral.decimal, Option.getD_some, Option.elim_none, List.take_append_drop,
      List.length_drop, Int.zero_sub]

/-- Digits with zeros behind them, and one more behind the point. -/
theorem prints_zeros_after (h0 : ofDigits ds ≠ 0) {k : Nat} (hk : k ≤ 400) :
    Numeral.Prints ⟨sign, ds ++ zeros k, some ['0'], none⟩ sign (ds ++ zeros k ++ ['.', '0'])
      ⟨ofDigits ds, k⟩ where
  text := by simp [Numeral.text]
  sign := rfl
  written := by
    refine ⟨hd.append (allDigits_zeros k), allDigits_zeros 1, fun _ => ?_, by simp⟩
    exact List.cons_ne_nil _ _
  not_whole := rfl
  value negative := by
    have hdigits : ofDigits (ds ++ zeros k ++ ['0']) = ofDigits ds * 10 ^ k * 10 := by
      have h : ['0'] = zeros 1 := rfl
      rw [h, Decimal.ofDigits_append_zeros, Decimal.ofDigits_append_zeros, Nat.pow_one]
    rw [Numeral.decimal, ← Binary64.ofDecimal_tenths negative h0 hk]
    simp only [Option.getD_some, Option.elim_none, hdigits]
    rfl

theorem prints_scientific (hne : ds ≠ []) (place : Int) :
    (scientificNumeral sign ds place).Prints sign (scientific ds place)
      ⟨ofDigits ds, place - (ds.length - 1 : Nat)⟩ := by
  have hfraction : (scientificNumeral sign ds place).fraction.getD [] = ds.drop 1 := by
    unfold scientificNumeral
    by_cases h : ds.length ≤ 1
    · rw [if_pos h, List.drop_eq_nil_of_le h, Option.getD_none]
    · rw [if_neg h, Option.getD_some]
  have hdecimal : (scientificNumeral sign ds place).decimal =
      ⟨ofDigits ds, place - (ds.length - 1 : Nat)⟩ := by
    rw [Numeral.decimal, hfraction]
    simp only [scientificNumeral, List.take_append_drop, Option.elim_some, exponent_scientific,
      List.length_drop]
  refine ⟨?_, rfl, ⟨?_, ?_, ?_, ?_⟩, ?_, fun negative => by rw [hdecimal]⟩
  · have hpoint : (if ds.length ≤ 1 then none else some (ds.drop 1)).elim [] ('.' :: ·) =
        if ds.length ≤ 1 then [] else '.' :: ds.drop 1 := by
      split <;> rfl
    have hscale : Sign.text (some (if place < 0 then .minus else .plus)) =
        [if place < 0 then '-' else '+'] := by
      split <;> rfl
    simp only [Numeral.text, scientificNumeral, scientific, hpoint, Option.elim_some, Scale.text,
      hscale, List.append_assoc, List.singleton_append]
  · exact fun c hc => hd c (List.mem_of_mem_take hc)
  · rw [hfraction]
    exact fun c hc => hd c (List.mem_of_mem_drop hc)
  · intro hnil
    have h : ds.take 1 = [] := hnil
    simp [hne] at h
  · rintro s ⟨⟩
    exact ⟨Or.inl rfl, allDigits_toDigits _, Nat.toDigits_ne_nil⟩
  · simp [Numeral.isWhole, scientificNumeral]

end Layout

/-! ### Printed floats -/

namespace Layout

/-- **The text of a magnitude is a literal of the same value.** -/
theorem exists_prints_magnitude (sign : Option Sign) {d : Decimal} (h0 : d.digits ≠ 0) :
    ∃ n : Numeral, n.Prints sign (json.magnitude d) d := by
  have hd := allDigits_toDigits d.digits
  have hdigits := Decimal.ofDigits_toDigits d.digits
  have hne : Nat.toDigits 10 d.digits ≠ [] := Nat.toDigits_ne_nil
  unfold magnitude
  dsimp only
  generalize Nat.toDigits 10 d.digits = ds at hd hdigits hne
  have hlength := List.length_pos_iff.mpr hne
  generalize hplace : (ds.length : Int) - 1 + d.exponent = place
  -- the digits are those of `d`, so a layout is right if its place is
  have hprints {n : Numeral} {cs : List Char} {e : Int}
      (hn : n.Prints sign cs ⟨Decimal.ofDigits ds, e⟩) (he : e = d.exponent) :
      ∃ n : Numeral, n.Prints sign cs d := by
    rw [hdigits, he] at hn
    exact ⟨n, hn⟩
  split
  · rename_i hpositional
    have hsmall : place < 16 := (of_decide_eq_true hpositional).2
    unfold around
    dsimp only
    split
    · exact hprints (prints_zeros_before sign hd (-place - 1).toNat) (by omega)
    · split
      · have h400 : place.toNat + 1 - ds.length ≤ 400 := by omega
        exact hprints (prints_zeros_after sign hd (by rwa [hdigits]) h400) (by omega)
      · have hpos : 0 < place.toNat + 1 := Nat.succ_pos _
        exact hprints (prints_point_inside sign hd hpos (by omega)) (by omega)
  · exact hprints (prints_scientific sign hd hne place) (by omega)

/-- **The text of a float that is not zero is a literal of that float.** -/
theorem exists_literal_finite {x : Finite} (h : x.units ≠ 0) :
    ∃ n : Numeral, n.text = json.finite x ∧ n.Written ∧ n.isWhole = false ∧
      n.toBinary64 = .finite x := by
  have hread := Decimal.readsAs_shortest h json.tie
  have h0 := Decimal.digits_ne_zero_of_readsAs h hread
  obtain ⟨n, hn⟩ := exists_prints_magnitude (if x.negative then some .minus else none) h0
  have hnegative : n.negative = x.negative := by
    rw [Numeral.negative, hn.sign]
    cases x.negative <;> rfl
  refine ⟨n, ?_, hn.written, hn.not_whole, ?_⟩
  · rw [hn.text, Sign.text_ite, finite, if_neg h]
  · rw [Numeral.toBinary64, hn.value, hnegative]
    simpa [Decimal.readsAs] using hread

end Layout

end ShorthandSchema
