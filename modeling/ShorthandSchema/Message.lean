import ShorthandSchema.Json.Text
import ShorthandSchema.Text.Quoted

/-! # Messages: texts that replace the default ones -/

namespace ShorthandSchema

/-- **A message for every failure of a node**: a fixed text, or one computed from the value as it
was given. -/
inductive Message where
  | fixed (text : String)
  | computed (text : Json → String)

namespace Message

/-- The text for a value. -/
def resolve : Message → Json → String
  | fixed text, _ => text
  | computed text, raw => text raw

/-- A summary on one line; the function of a computed message is not shown. -/
def summary : Message → String
  | fixed text => "Fixed(" ++ Text.quoted text ++ ")"
  | computed _ => "Computed(..)"

end Message

end ShorthandSchema
