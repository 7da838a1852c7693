import ShorthandSchema.Entries
import ShorthandSchema.Kind
import ShorthandSchema.Text.Blank

/-! # Vocabulary: the names of kinds

A vocabulary gives type names a kind. Names are compared without the blanks at their ends and
without regard to the case of ASCII letters.

* `lookup_register`: a registration binds its name and changes no other. -/

namespace ShorthandSchema

/-- Type names with their kinds, the latest registration first. -/
structure Vocabulary where
  entries : List (String × Kind)

namespace Vocabulary

/-- What is compared of a name. -/
def key (name : String) : String := String.ofList ((trim name.toList).map Char.toLower)

/-- **The kind of a name**, if the vocabulary has it. -/
def lookup (v : Vocabulary) (name : String) : Option Kind := v.entries.lookup (key name)

/-- The vocabulary with one more name; an earlier meaning of it is replaced. -/
def register (v : Vocabulary) (name : String) (kind : Kind) : Vocabulary :=
  ⟨(key name, kind) :: v.entries⟩

/-- The vocabulary with several more names, registered in order. -/
def registerAll (v : Vocabulary) (names : List (String × Kind)) : Vocabulary :=
  names.foldl (fun v n => v.register n.1 n.2) v

/-- **The names that every vocabulary starts with.** -/
def builtin : Vocabulary :=
  ⟨[("boolean", .boolean), ("bool", .boolean),
    ("int", .integer), ("integer", .integer),
    ("number", .number), ("float", .number), ("double", .number),
    ("string", .string), ("str", .string), ("text", .string),
    ("array", .array), ("list", .array),
    ("object", .object), ("map", .object), ("dict", .object),
    ("any", .any), ("mixed", .any), ("*", .any)]⟩

theorem lookup_register (v : Vocabulary) (name other : String) (kind : Kind) :
    (v.register name kind).lookup other =
      if key other = key name then some kind else v.lookup other :=
  lookup_cons_ite _ _ _ _

end Vocabulary

end ShorthandSchema
