import ShorthandSchema.Compile

/-! # Complaints: all checks of a node that fail

A rule ends with the first check that fails. Here a node lists every check that fails on a value, in
the order of its kind and with no regard to the others, and `coerced` says what it makes of the
value, checked or not.

* `Node.complaints`: the checks that fail, `Node.coerced`: the coerced value.
* `Node.check_eq`: the rule of a node complains first about what comes first in the list. -/

namespace ShorthandSchema

/-- The complaint about a bound, if there is one and the value is `bad` for it. -/
def failing {α : Type} (bound : Option α) (bad : α → Bool) (complaint : α → Complaint) :
    List Complaint :=
  (bound.toList.filter bad).map complaint

theorem head?_failing {α : Type} (bound : Option α) (bad : α → Bool)
    (complaint : α → Complaint) :
    (failing bound bad complaint).head? = violated bound bad complaint := by
  cases bound with
  | none => rfl
  | some b => cases h : bad b <;> simp [failing, violated, Option.filter, h]

theorem failing_eq_nil_iff {α : Type} {bound : Option α} {bad : α → Bool}
    {complaint : α → Complaint} :
    failing bound bad complaint = [] ↔ ∀ b ∈ bound, bad b = false := by
  cases bound <;> simp [failing]

namespace Node

/-! ### The checks of each kind -/

/-- The checks of a boolean node that fail. -/
def booleanComplaints (n : Node) (raw : Json) : List Complaint :=
  match n.value with
  | some (.bool e) => if raw.truthy = e then [] else [.booleanNotSame e]
  | _ => []

/-- The number that a number node asks for; a value that does not count as a number is one that no
number equals. -/
def expectedNumber (n : Node) : Option Binary64 :=
  n.value.map fun e => (e.asNumber? n.wholeNumbers).elim .nan (·.value)

/-- The bounds of a number node that a number violates. -/
def boundComplaints (n : Node) (x : Binary64) : List Complaint :=
  failing n.minValue (fun b => x.less b) .numberTooSmall ++
    (failing n.maxValue (fun b => b.less x) .numberTooBig ++
      failing n.expectedNumber (fun e => !x.same e) .numberNotSame)

/-- The checks of a number node that fail; a value that is no number has no bounds to violate. -/
def numberComplaints (n : Node) (raw : Json) : List Complaint :=
  match raw.asNumber? n.wholeNumbers with
  | none => [.notNumber n.wholeNumbers raw]
  | some c => n.boundComplaints c.value

/-- The checks of a string node that a text fails. -/
def textComplaints (n : Node) (s : String) : List Complaint :=
  failing n.minLength (fun b => s.length < b) .stringTooShort ++
    (failing n.maxLength (fun b => b < s.length) .stringTooLong ++
      (failing (n.value.map Json.asText) (fun e => s != e) .stringNotSame ++
        failing n.pattern (fun p => !p.occursIn s) fun _ => .patternMissed))

/-- The checks of an array node that fail. -/
def arrayComplaints (n : Node) (raw : Json) : List Complaint :=
  match raw with
  | .array items =>
    failing n.minItems (fun b => items.length < b) .tooFewItems ++
      failing n.maxItems (fun b => b < items.length) .tooManyItems
  | _ => [.notArray raw]

/-- The check of an object node, if it fails. -/
def objectComplaints (raw : Json) : List Complaint :=
  match raw with
  | .object _ => []
  | _ => [.notObject raw]

/-- **The own checks of a node that fail on a value**, in the order of its kind. Null fails only
where a value is required. -/
def complaints (n : Node) (raw : Json) : List Complaint :=
  if raw.isNull then if n.required then [.missing] else []
  else match n.kind with
    | .boolean => n.booleanComplaints raw
    | .integer | .number => n.numberComplaints raw
    | .string => n.textComplaints raw.asText
    | .array => n.arrayComplaints raw
    | .object => objectComplaints raw
    | .any => []

/-- **The value that a node without nodes below it makes of a value.** -/
def coerced (n : Node) (raw : Json) : Json :=
  if raw.isNull then .null
  else match n.kind with
    | .boolean => .bool raw.truthy
    | .integer | .number => (raw.asNumber? n.wholeNumbers).elim .null (.number ·.number)
    | .string => .string raw.asText
    | _ => raw

/-- A boolean node asks for no value, or for a boolean. -/
def Fits (n : Node) : Prop := n.kind = .boolean → ∀ e ∈ n.value, ∃ b, e = .bool b

/-! ### Null -/

theorem complaints_null (n : Node) :
    n.complaints .null = if n.required then [.missing] else [] := rfl

/-! ### Rules and complaints -/

theorem complaint?_numberRule (n : Node) (x : Binary64) :
    n.numberRule.complaint? x = (n.boundComplaints x).head? := by
  simp only [boundComplaints, List.head?_append, head?_failing]
  rfl

theorem check_numberRule (n : Node) (raw : Json) :
    n.numberRule.check raw = (n.numberComplaints raw).head?.elim
      (.ok ((raw.asNumber? n.wholeNumbers).elim .null (.number ·.number))) .error := by
  have hwhole : n.numberRule.whole = n.wholeNumbers := rfl
  unfold NumberRule.check numberComplaints
  rw [hwhole]
  cases raw.asNumber? n.wholeNumbers with
  | none => rfl
  | some c =>
    simp only [complaint?_numberRule]
    cases (n.boundComplaints c.value).head? <;> rfl

theorem complaint?_stringRule (n : Node) (s : String) :
    n.stringRule.complaint? s = (n.textComplaints s).head? := by
  simp only [textComplaints, List.head?_append, head?_failing]
  rfl

theorem complaint?_countRule (n : Node) (items : List Json) :
    n.countRule.complaint? items.length = (n.arrayComplaints (.array items)).head? := by
  simp only [arrayComplaints, List.head?_append, head?_failing]
  rfl

theorem booleanRule?_of_fits {n : Node} (h : n.Fits) (hk : n.kind = .boolean) :
    ∃ expected, n.booleanRule? = .ok expected ∧
      ∀ raw, violated expected (fun e => raw.truthy != e) .booleanNotSame =
        (n.booleanComplaints raw).head? := by
  unfold booleanRule? booleanComplaints
  cases hv : n.value with
  | none => exact ⟨none, rfl, fun raw => rfl⟩
  | some e =>
    obtain ⟨b, rfl⟩ := h hk e hv
    refine ⟨some b, rfl, fun raw => ?_⟩
    by_cases hb : raw.truthy = b <;> simp [violated, hb]

theorem fits_of_scalarRule? {n : Node} {rule : ScalarRule} (h : n.scalarRule? = .ok rule) :
    n.Fits := by
  intro hk e he
  rw [scalarRule?, hk] at h
  have he' : n.value = some e := he
  cases e with
  | bool b => exact ⟨b, rfl⟩
  | _ =>
    rw [booleanRule?, he'] at h
    cases h

/-- **The rule of a node complains first about what comes first** among its complaints. -/
theorem check_eq {n : Node} (h : n.Fits) (ha : n.kind ≠ .array) (ho : n.kind ≠ .object) :
    ∃ rule, n.scalarRule? = .ok rule ∧ ∀ raw, raw.isNull = false →
      rule.check raw = (n.complaints raw).head?.elim (.ok (n.coerced raw)) .error := by
  unfold scalarRule? complaints coerced
  cases hk : n.kind with
  | boolean =>
    obtain ⟨expected, he, hc⟩ := booleanRule?_of_fits h hk
    refine ⟨.boolean expected, by rw [he]; rfl, fun raw hr => ?_⟩
    simp only [hr, Bool.false_eq_true, if_false, ScalarRule.check, checkBoolean, hc]
    cases (n.booleanComplaints raw).head? <;> rfl
  | integer | number =>
    refine ⟨.number n.numberRule, rfl, fun raw hr => ?_⟩
    simp only [hr, Bool.false_eq_true, if_false, ScalarRule.check, check_numberRule]
  | string =>
    refine ⟨.string n.stringRule, rfl, fun raw hr => ?_⟩
    simp only [hr, Bool.false_eq_true, if_false, ScalarRule.check, StringRule.check,
      complaint?_stringRule]
    cases (n.textComplaints raw.asText).head? <;> rfl
  | array => exact absurd hk ha
  | object => exact absurd hk ho
  | any => exact ⟨.any, rfl, fun raw hr => by simp [hr, ScalarRule.check]⟩

end Node

end ShorthandSchema
