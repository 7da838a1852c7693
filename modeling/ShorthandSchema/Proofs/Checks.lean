import Mathlib.Logic.Basic
import ShorthandSchema.Proofs.Complaints

/-! # Checks: what a node checks, with codes and texts

The checks of a node on a value are listed in the order of its kind, with those that the value
passes. Each says when it fails, and which code and default text it then has.

* `Node.checks`: the checks of a node, `Visit.failure?`: the failure by the first that fails.
* `Node.filter_fails_checks`: those that fail are what the node complains about. -/

namespace ShorthandSchema

/-- **A check**: whether a value fails it, and the code and the default text that it then has. -/
structure Check where
  fails : Bool
  code : Code
  text : String

namespace Node

/-- A boolean is checked for the value that the node asks for. -/
def booleanChecks (n : Node) (raw : Json) : List Check :=
  match n.value with
  | some (.bool e) =>
    [⟨raw.truthy != e, .booleanNotSame,
      if e then "Boolean must be true" else "Boolean must be false"⟩]
  | _ => []

/-- The text about a value that is no number. -/
def notNumberText (n : Node) (raw : Json) : String :=
  match raw with
  | .string s =>
    "Cannot coerce \"" ++ s ++ "\" to " ++ if n.wholeNumbers then "integer" else "number"
  | _ =>
    (if n.wholeNumbers then "Expected integer, received " else "Expected number, received ") ++
      raw.typeName

/-- A number is checked for its bounds, and then for the number that the node asks for. -/
def numberChecks (n : Node) (raw : Json) : List Check :=
  match raw.asNumber? n.wholeNumbers with
  | none => [⟨true, .notNumber, n.notNumberText raw⟩]
  | some x =>
    n.minValue.toList.map (fun b =>
      ⟨x.value.less b, .numberTooSmall, "Number must be at least " ++ b.plainText⟩) ++
    n.maxValue.toList.map (fun b =>
      ⟨b.less x.value, .numberTooBig, "Number must be at most " ++ b.plainText⟩) ++
    n.expectedNumber.toList.map fun e =>
      ⟨!x.value.same e, .numberNotSame, "Number must equal " ++ e.plainText⟩

/-- A text is checked for its length, then for the text that the node asks for, then for the
pattern. -/
def textChecks (n : Node) (s : String) : List Check :=
  n.minLength.toList.map (fun b => ⟨decide (s.length < b), .stringTooShort,
    "String must be at least " ++ toString b ++ " characters"⟩) ++
  n.maxLength.toList.map (fun b => ⟨decide (b < s.length), .stringTooLong,
    "String must be at most " ++ toString b ++ " characters"⟩) ++
  n.value.toList.map (fun e => ⟨s != e.asText, .stringNotSame,
    "String must equal \"" ++ e.asText ++ "\""⟩) ++
  n.pattern.toList.map fun p => ⟨!p.occursIn s, .regexMismatch, "String does not match pattern"⟩

/-- An array is checked for the number of its items. -/
def arrayChecks (n : Node) (raw : Json) : List Check :=
  match raw with
  | .array items =>
    n.minItems.toList.map (fun b => ⟨decide (items.length < b), .arrayTooFewItems,
      "Array must have at least " ++ toString b ++ " elements"⟩) ++
    n.maxItems.toList.map fun b => ⟨decide (b < items.length), .arrayTooManyItems,
      "Array must have at most " ++ toString b ++ " elements"⟩
  | _ => [⟨true, .notArray, "Expected array, received " ++ raw.typeName⟩]

/-- An object has no check but that it is one. -/
def objectChecks (raw : Json) : List Check :=
  match raw with
  | .object _ => []
  | _ => [⟨true, .notObject, "Expected object, received " ++ raw.typeName⟩]

/-- **The checks of a node**, in the order of its kind. Null is checked for presence alone. -/
def checks (n : Node) (raw : Json) : List Check :=
  if raw.isNull then [⟨n.required, .requireField, "Required field is missing or null"⟩]
  else match n.kind with
    | .boolean => n.booleanChecks raw
    | .integer | .number => n.numberChecks raw
    | .string => n.textChecks raw.asText
    | .array => n.arrayChecks raw
    | .object => objectChecks raw
    | .any => []

end Node

/-! ### Checks and complaints -/

/-- The check behind a complaint. -/
def Complaint.check (c : Complaint) : Check := ⟨true, c.code, c.text⟩

theorem filter_fails_bound {α : Type} (bound : Option α) {check : α → Check} {bad : α → Bool}
    {complaint : α → Complaint}
    (h : ∀ b, check b = ⟨bad b, (complaint b).code, (complaint b).text⟩) :
    (bound.toList.map check).filter Check.fails =
      (failing bound bad complaint).map Complaint.check := by
  cases bound with
  | none => rfl
  | some b => cases hb : bad b <;> simp [failing, Complaint.check, h, hb]

theorem failing_map {α β : Type} (bound : Option α) (f : α → β) (bad : β → Bool)
    (complaint : β → Complaint) :
    failing (bound.map f) bad complaint =
      failing bound (fun a => bad (f a)) fun a => complaint (f a) := by
  rw [failing, Option.toList_map, List.filter_map, List.map_map]
  rfl

theorem filter_fails_append {checks others : List Check} {complaints more : List Complaint}
    (h : checks.filter Check.fails = complaints.map Complaint.check)
    (ho : others.filter Check.fails = more.map Complaint.check) :
    (checks ++ others).filter Check.fails = (complaints ++ more).map Complaint.check := by
  rw [List.filter_append, List.map_append, h, ho]

namespace Node

variable (n : Node) (raw : Json)

theorem filter_fails_booleanChecks :
    (n.booleanChecks raw).filter Check.fails = (n.booleanComplaints raw).map Complaint.check := by
  unfold booleanChecks booleanComplaints
  cases n.value with
  | none => rfl
  | some e =>
    cases e with
    | bool e => cases e <;> cases raw.truthy <;> rfl
    | _ => rfl

theorem notNumberText_eq : n.notNumberText raw = (Complaint.notNumber n.wholeNumbers raw).text := by
  unfold notNumberText Complaint.text
  cases n.wholeNumbers <;> cases raw <;> rfl

theorem filter_fails_numberChecks :
    (n.numberChecks raw).filter Check.fails = (n.numberComplaints raw).map Complaint.check := by
  unfold numberChecks numberComplaints
  cases raw.asNumber? n.wholeNumbers with
  | none => simp [notNumberText_eq, Complaint.check, Complaint.code]
  | some x =>
    simp only [boundComplaints, List.append_assoc]
    refine filter_fails_append ?_ (filter_fails_append ?_ ?_)
    · exact filter_fails_bound n.minValue fun _ => rfl
    · exact filter_fails_bound n.maxValue fun _ => rfl
    · exact filter_fails_bound n.expectedNumber fun _ => rfl

theorem filter_fails_textChecks (s : String) :
    (n.textChecks s).filter Check.fails = (n.textComplaints s).map Complaint.check := by
  simp only [textChecks, textComplaints, List.append_assoc]
  refine filter_fails_append ?_ (filter_fails_append ?_ (filter_fails_append ?_ ?_))
  · exact filter_fails_bound n.minLength fun _ => rfl
  · exact filter_fails_bound n.maxLength fun _ => rfl
  · rw [failing_map]
    exact filter_fails_bound n.value fun _ => rfl
  · exact filter_fails_bound n.pattern fun _ => rfl

theorem filter_fails_arrayChecks :
    (n.arrayChecks raw).filter Check.fails = (n.arrayComplaints raw).map Complaint.check := by
  cases raw with
  | array items =>
    refine filter_fails_append ?_ ?_
    · exact filter_fails_bound n.minItems fun _ => rfl
    · exact filter_fails_bound n.maxItems fun _ => rfl
  | _ => rfl

theorem filter_fails_objectChecks :
    (objectChecks raw).filter Check.fails = (objectComplaints raw).map Complaint.check := by
  cases raw <;> rfl

/-- **The checks that fail are those that a node complains about**, in the same order. -/
theorem filter_fails_checks :
    (n.checks raw).filter Check.fails = (n.complaints raw).map Complaint.check := by
  unfold checks complaints
  by_cases hr : raw.isNull = true
  · rw [if_pos hr, if_pos hr]
    cases hreq : n.required with
    | true => rfl
    | false => rfl
  · rw [if_neg hr, if_neg hr]
    cases n.kind with
    | boolean => exact n.filter_fails_booleanChecks raw
    | integer | number => exact n.filter_fails_numberChecks raw
    | string => exact n.filter_fails_textChecks raw.asText
    | array => exact n.filter_fails_arrayChecks raw
    | object => exact filter_fails_objectChecks raw
    | any => rfl

/-- Whether a value fails a check of the node. -/
def fails : Bool := (n.checks raw).any Check.fails

theorem find?_fails_checks :
    (n.checks raw).find? Check.fails = (n.complaints raw).head?.map Complaint.check := by
  rw [← List.head?_filter, filter_fails_checks, List.head?_map]

theorem fails_eq_false_iff : n.fails raw = false ↔ n.complaints raw = [] := by
  rw [fails, ← List.map_eq_nil_iff (f := Complaint.check), ← filter_fails_checks,
    List.filter_eq_nil_iff, List.any_eq_false]

end Node

/-! ### Visits -/

/-- **A node with the value that it is given.** -/
structure Visit where
  node : Node
  received : Json

/-- **The failure of a visit**: the code of the first check that fails, the path of the node, and
its message, which is fixed or computed from the value as it was given, or else the default text. -/
def Visit.failure? (x : Visit) : Option Failure :=
  ((x.node.checks x.received).find? Check.fails).map fun check =>
    ⟨check.code, x.node.path, match x.node.message with
      | none => check.text
      | some (.fixed text) => text
      | some (.computed text) => text x.received⟩

end ShorthandSchema
