import ShorthandSchema.Coercion
import ShorthandSchema.Complaint
import ShorthandSchema.Schema.Basic
import ShorthandSchema.Schema.Fault

/-! # Rules: the checks of a single node

A rule coerces a value that is not null and checks the result. The checks of a rule have an order,
and the first that fails is the complaint.

* `ScalarRule.check`: coerces and checks a scalar, `CountRule.complaint?`: checks the length of an
  array.
* `Node.scalarRule?`: the rule of a node that has nothing below it. -/

namespace ShorthandSchema

/-- A complaint about a bound that is given and violated. -/
def violated {α : Type} (bound : Option α) (bad : α → Bool) (complaint : α → Complaint) :
    Option Complaint :=
  (bound.filter bad).map complaint

/-! ### Numbers -/

/-- Coercion to a number within bounds. -/
structure NumberRule where
  whole : Bool
  least : Option Binary64
  most : Option Binary64
  expected : Option Binary64

namespace NumberRule

/-- The first check that a number fails. -/
def complaint? (r : NumberRule) (n : Binary64) : Option Complaint :=
  (violated r.least (fun b => n.less b) .numberTooSmall).or <|
    (violated r.most (fun b => b.less n) .numberTooBig).or <|
      violated r.expected (fun b => !n.same b) .numberNotSame

/-- A value as a number, checked. -/
def check (r : NumberRule) (raw : Json) : Except Complaint Json :=
  match raw.asNumber? r.whole with
  | none => .error (.notNumber r.whole raw)
  | some c =>
    match r.complaint? c.value with
    | some complaint => .error complaint
    | none => .ok (.number c.number)

end NumberRule

/-! ### Strings -/

/-- Coercion to a string within bounds; lengths count characters. -/
structure StringRule where
  least : Option Nat
  most : Option Nat
  expected : Option String
  pattern : Option Pattern

namespace StringRule

/-- The first check that a string fails. -/
def complaint? (r : StringRule) (s : String) : Option Complaint :=
  (violated r.least (fun n => s.length < n) .stringTooShort).or <|
    (violated r.most (fun n => n < s.length) .stringTooLong).or <|
      (violated r.expected (fun e => s != e) .stringNotSame).or <|
        violated r.pattern (fun p => !p.occursIn s) fun _ => .patternMissed

/-- A value as a string, checked. -/
def check (r : StringRule) (raw : Json) : Except Complaint Json :=
  match r.complaint? raw.asText with
  | some complaint => .error complaint
  | none => .ok (.string raw.asText)

end StringRule

/-! ### Booleans -/

/-- A value as a boolean, checked. -/
def checkBoolean (expected : Option Bool) (raw : Json) : Except Complaint Json :=
  match violated expected (fun e => raw.truthy != e) .booleanNotSame with
  | some complaint => .error complaint
  | none => .ok (.bool raw.truthy)

/-! ### Arrays -/

/-- Bounds on the number of items. -/
structure CountRule where
  least : Option Nat
  most : Option Nat

/-- The first check that the number of items fails. -/
def CountRule.complaint? (r : CountRule) (count : Nat) : Option Complaint :=
  (violated r.least (fun n => count < n) .tooFewItems).or <|
    violated r.most (fun n => n < count) .tooManyItems

/-! ### The rules of a node -/

/-- **The rule of a scalar node.** -/
inductive ScalarRule where
  | any
  | boolean (expected : Option Bool)
  | number (r : NumberRule)
  | string (r : StringRule)

/-- **Coerces and checks a value.** -/
def ScalarRule.check : ScalarRule → Json → Except Complaint Json
  | any, raw => .ok raw
  | boolean expected, raw => checkBoolean expected raw
  | number r, raw => r.check raw
  | string r, raw => r.check raw

namespace Node

/-- Whether numbers lose their fraction. -/
def wholeNumbers (n : Node) : Bool := n.whole || n.kind = .integer

/-- The checks on a number. A value that does not count as a number is one that no number
equals. -/
def numberRule (n : Node) : NumberRule :=
  ⟨n.wholeNumbers, n.minValue, n.maxValue,
    n.value.map fun v => (v.asNumber? n.wholeNumbers).elim .nan (·.value)⟩

/-- The checks on a string. -/
def stringRule (n : Node) : StringRule :=
  ⟨n.minLength, n.maxLength, n.value.map Json.asText, n.pattern⟩

/-- The checks on the number of items. -/
def countRule (n : Node) : CountRule := ⟨n.minItems, n.maxItems⟩

/-- The fault of a boolean node that is given a value of another type to equal. -/
def notABoolean (n : Node) (v : Json) : Fault :=
  .invalidConstraint n.path ("boolean value must be true or false, got " ++ v.text)

/-- The checks on a boolean. -/
def booleanRule? (n : Node) : Except Fault (Option Bool) :=
  match n.value with
  | none => .ok none
  | some (.bool b) => .ok (some b)
  | some v => .error (n.notABoolean v)

/-- **The rule of a node that has nothing below it.** -/
def scalarRule? (n : Node) : Except Fault ScalarRule :=
  match n.kind with
  | .boolean => n.booleanRule?.map .boolean
  | .integer | .number => .ok (.number n.numberRule)
  | .string => .ok (.string n.stringRule)
  | .array | .object | .any => .ok .any

end Node

end ShorthandSchema
