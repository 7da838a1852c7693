/-! # Paths: where a node stands in a schema

A path is the names on the way to a node, joined by dots. -/

namespace ShorthandSchema.Path

/-- The name that stands for the items of an array. -/
def item : String := "<item>"

/-- **The path of a child**; below the empty path it is the child's name. -/
def child (parent name : String) : String :=
  if parent = "" then name else parent ++ "." ++ name

theorem child_empty (name : String) : child "" name = name := if_pos rfl

theorem child_of_ne {parent : String} (h : parent ≠ "") (name : String) :
    child parent name = parent ++ "." ++ name := if_neg h

end ShorthandSchema.Path
