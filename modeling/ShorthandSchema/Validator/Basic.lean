import ShorthandSchema.Validator.Rule

/-! # Validators: coercing and checking a value

A validator is a tree of rules. It returns the coerced value or the first failure, in the order of
items and of declared fields. Null passes every rule; only a required node rejects it. -/

namespace ShorthandSchema

/-- **A validator.** -/
inductive Validator where
  | scalar (site : Site) (rule : ScalarRule)
  | array (site : Site) (counts : CountRule) (item : Validator)
  | object (site : Site) (fields : List (String × Validator))
  | required (site : Site) (inner : Validator)

/-! ### One node -/

namespace Site

/-- A value that is null, or coerced and checked by a rule. -/
def checkScalar (site : Site) (rule : ScalarRule) (raw : Json) : Except Failure Json :=
  if raw.isNull then .ok .null else (rule.check raw).mapError (site.failure raw)

/-- A value that is null, or an array of an accepted length whose items are checked in order. -/
def checkArray (site : Site) (counts : CountRule) (item : Json → Except Failure Json) :
    Json → Except Failure Json
  | .null => .ok .null
  | .array items =>
    match counts.complaint? items.length with
    | some complaint => .error (site.failure (.array items) complaint)
    | none => (items.mapM item).map .array
  | raw => .error (site.failure raw (.notArray raw))

/-- A value that is null, or an object that is rebuilt from its checked members. -/
def checkObject (site : Site)
    (members : List (String × Json) → Except Failure (List (String × Json))) :
    Json → Except Failure Json
  | .null => .ok .null
  | .object given => (members given).map .ofMembers
  | raw => .error (site.failure raw (.notObject raw))

/-- A value that is not null, checked further. -/
def checkPresent (site : Site) (inner : Json → Except Failure Json) (raw : Json) :
    Except Failure Json :=
  if raw.isNull then .error (site.failure raw .missing) else inner raw

end Site

/-! ### The whole tree -/

namespace Validator

/-- The validator that accepts every value as it is. -/
def any : Validator := scalar ⟨"", none⟩ .any

mutual

/-- **Coerces and checks a value.** -/
def run : Validator → Json → Except Failure Json
  | scalar site rule, raw => site.checkScalar rule raw
  | array site counts item, raw => site.checkArray counts (run item) raw
  | object site fields, raw => site.checkObject (runFields fields) raw
  | required site inner, raw => site.checkPresent (run inner) raw

/-- The checked members of an object under the declared names; a missing one counts as null. -/
def runFields :
    List (String × Validator) → List (String × Json) → Except Failure (List (String × Json))
  | [], _ => .ok []
  | (name, inner) :: rest, given => do
    let out ← run inner (Json.member name given)
    let outs ← runFields rest given
    return (name, out) :: outs

end

theorem run_any (raw : Json) : any.run raw = .ok raw := by
  cases raw <;> rfl

end Validator

end ShorthandSchema
