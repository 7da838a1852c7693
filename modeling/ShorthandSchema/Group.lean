import ShorthandSchema.Compile

/-! # Groups: candidates with several named parts

A candidate is an object whose groups each have a map of fields; a group is a required object.
Groups are validated in order, and each is replaced by its coerced value before the next one.

* `GroupedValidator.commit`: validates in place; the groups before a failure stay replaced.
* `GroupedValidator.validate`: the whole candidate, or the failure. -/

namespace ShorthandSchema

/-- The fields of each group, in order. -/
abbrev GroupedSchema := OrderedMap (OrderedMap Schema)

/-- The schema of a group: the full descriptor of a required object with the given fields. -/
def groupSchema (name : String) (m : OrderedMap Schema) : Schema :=
  .described { kind := .object, path := name, required := true, fields := some m }

/-- **The validators of the groups**, in order. -/
structure GroupedValidator where
  groups : List (String × Compiled)

/-- The validators of groups, up to the first that has a fault. -/
def compileGroups (v : Vocabulary) :
    List (String × OrderedMap Schema) → Traced Fault (List (String × Compiled))
  | [] => return []
  | (name, m) :: rest => do
    let c ← (groupSchema name m).compile v name
    let others ← compileGroups v rest
    return (name, c) :: others

/-- **The validator of a grouped schema.** -/
def GroupedSchema.compile (v : Vocabulary) (S : GroupedSchema) : Traced Fault GroupedValidator := do
  let groups ← compileGroups v S.entries
  return ⟨groups⟩

/-- What is left of a candidate after validation in place: its members, the failure that ended it,
and the events. -/
structure Commit where
  members : List (String × Json)
  failure : Option Failure
  events : List Event

/-- The same with earlier events in front. -/
def Commit.after (c : Commit) (earlier : List Event) : Commit :=
  { c with events := earlier ++ c.events }

/-- Validates groups in place, one after the other. -/
def commitGroups : List (String × Compiled) → List (String × Json) → Commit
  | [], members => ⟨members, none, []⟩
  | (name, c) :: rest, members =>
    match c.validate (Json.member name members) with
    | .ok out =>
      (commitGroups rest (Json.insertMember name out members)).after [.validatingGroup name]
    | .error f => ⟨members, some f, [.validatingGroup name, .groupFailed f]⟩

namespace GroupedValidator

/-- The names of the groups. -/
def names (g : GroupedValidator) : List String := g.groups.map (·.1)

/-- **Validates the members of a candidate in place.** -/
def commit (g : GroupedValidator) (members : List (String × Json)) : Commit :=
  commitGroups g.groups members

/-- **Validates a candidate**: all its members with every group replaced by its coerced value. -/
def validate (g : GroupedValidator) : Json → Traced Failure Json
  | .object members =>
    let c := g.commit members
    ⟨c.events, match c.failure with
      | none => .ok (.object c.members)
      | some f => .error f⟩
  | other => .fail (Site.failure ⟨"", none⟩ other (.notObject other))

/-- A summary on one line. -/
def summary (g : GroupedValidator) : String :=
  "RootValidator \x7b groups: [" ++
    String.intercalate ", "
      (g.groups.map fun e => "(" ++ Text.quoted e.1 ++ ", " ++ e.2.summary ++ ")") ++
    "] \x7d"

end GroupedValidator

end ShorthandSchema
