/-! # Text: blanks

The characters with the Unicode property `White_Space`, and texts without blanks at their ends. -/

namespace ShorthandSchema

/-- The code points with the property `White_Space`, as ranges. -/
def blankRanges : List (Nat × Nat) :=
  [(0x9, 0xD), (0x20, 0x20), (0x85, 0x85), (0xA0, 0xA0), (0x1680, 0x1680), (0x2000, 0x200A),
    (0x2028, 0x2029), (0x202F, 0x202F), (0x205F, 0x205F), (0x3000, 0x3000)]

/-- Whether a character is a blank. -/
def isBlank (c : Char) : Bool :=
  blankRanges.any fun r => decide (r.1 ≤ c.toNat ∧ c.toNat ≤ r.2)

/-- A text without the blanks before it. -/
def trimLeft (cs : List Char) : List Char := cs.dropWhile isBlank

/-- **A text without the blanks at its ends.** -/
def trim (cs : List Char) : List Char := (trimLeft (trimLeft cs).reverse).reverse

theorem trimLeft_append_of_blank {bs : List Char} (h : ∀ b ∈ bs, isBlank b) (cs : List Char) :
    trimLeft (bs ++ cs) = trimLeft cs :=
  List.dropWhile_append_of_pos h

end ShorthandSchema
