import ShorthandSchema.Json.Basic
import ShorthandSchema.Numeral.Scan

/-! # JSON: reading text

A number literal without point and scale that fits into 64 bits is an integer; every other one is
the nearest binary64 number. Of two members with the same key the later one counts.

* `ofText?`: the value that a text writes. -/

namespace ShorthandSchema.Json

/-- Whether a character may stand between the parts of a value. -/
def isSpace (c : Char) : Bool := c == ' ' || c == '\n' || c == '\r' || c == '\t'

/-- A text without the spaces before it. -/
def skipSpace (cs : List Char) : List Char := cs.dropWhile isSpace

/-! ### Numbers -/

/-- Whether a literal is written as JSON wants it: no plus sign, digits on both sides of a point,
no zero in front of other digits. -/
def isNumberLiteral (n : Numeral) : Bool :=
  n.sign != some .plus && n.whole != [] && n.fraction != some [] &&
    (n.whole.length == 1 || n.whole.head? != some '0')

/-- The number of a literal. A zero with a minus sign keeps it, and so is no integer. -/
def numberOf? (n : Numeral) : Option Number :=
  if h : n.isWhole ∧ Exact n.toInt ∧ ¬(n.negative ∧ n.toInt = 0) then
    some (.integer n.toInt h.2.1)
  else
    match n.toBinary64 with
    | .finite x => some (.float x)
    | _ => none

/-- The number at the start of a text, and the rest. -/
def readNumber? (cs : List Char) : Option (Json × List Char) := do
  let n ← Numeral.scanDecimal cs
  guard (isNumberLiteral n)
  let number ← numberOf? n
  return (.number number, cs.drop n.text.length)

/-! ### Strings -/

/-- The value of a hexadecimal digit. -/
def hexValue? (c : Char) : Option Nat :=
  if c.isDigit then some (c.toNat - '0'.toNat)
  else if 'a' ≤ c ∧ c ≤ 'f' then some (c.toNat - 'a'.toNat + 10)
  else if 'A' ≤ c ∧ c ≤ 'F' then some (c.toNat - 'A'.toNat + 10)
  else none

/-- The value of hexadecimal digits. -/
def hexNumber? (cs : List Char) : Option Nat :=
  cs.foldlM (fun n c => (hexValue? c).map (16 * n + ·)) 0

/-- The character of a code point. -/
def charOf? (n : Nat) : Option Char := if n.isValidChar then some (Char.ofNat n) else none

/-- The code point of a pair of surrogates. -/
def pairOf? (high low : Nat) : Option Char :=
  if 0xD800 ≤ high ∧ high < 0xDC00 ∧ 0xDC00 ≤ low ∧ low < 0xE000 then
    charOf? (0x10000 + (high - 0xD800) * 0x400 + (low - 0xDC00))
  else none

/-- The character of a letter after a backslash. -/
def escaped? (c : Char) : Option Char :=
  if c = '"' ∨ c = '\\' ∨ c = '/' then some c
  else if c = 'n' then some '\n'
  else if c = 'r' then some '\r'
  else if c = 't' then some '\t'
  else if c = 'b' then some '\x08'
  else if c = 'f' then some '\x0c'
  else none

/-- The character that four hexadecimal digits give, or that they give together with a second
escape, and the rest. -/
def readUnicode? (cs : List Char) : Option (Char × List Char) := do
  guard (4 ≤ cs.length)
  let unit ← hexNumber? (cs.take 4)
  let rest := cs.drop 4
  match charOf? unit with
  | some c => return (c, rest)
  | none =>
    guard (rest.take 2 = ['\\', 'u'] ∧ 6 ≤ rest.length)
    let second ← hexNumber? ((rest.drop 2).take 4)
    let c ← pairOf? unit second
    return (c, rest.drop 6)

/-- The characters up to the closing quote, and the rest; `fuel` bounds their number. -/
def readChars? : (fuel : Nat) → List Char → Option (List Char × List Char)
  | 0, _ => none
  | _ + 1, [] => none
  | fuel + 1, c :: rest => do
    if c = '"' then return ([], rest)
    let (read, after) ←
      if c ≠ '\\' then some (c, rest)
      else match rest with
        | 'u' :: digits => readUnicode? digits
        | e :: others => (escaped? e).map fun r => (r, others)
        | [] => none
    let (chars, others) ← readChars? fuel after
    return (read :: chars, others)

/-- The string after an opening quote, and the rest. -/
def readString? (cs : List Char) : Option (String × List Char) :=
  (readChars? (cs.length + 1) cs).map fun r => (String.ofList r.1, r.2)

/-! ### Values -/

/-- A word at the start of a text, as a value. -/
def readWord? (word : String) (v : Json) (cs : List Char) : Option (Json × List Char) :=
  if word.toList.isPrefixOf cs then some (v, cs.drop word.toList.length) else none

mutual

/-- The value at the start of a text, and the rest; `fuel` bounds the number of its parts. -/
def readValue? : (fuel : Nat) → List Char → Option (Json × List Char)
  | 0, _ => none
  | fuel + 1, cs =>
    match skipSpace cs with
    | [] => none
    | '"' :: rest => (readString? rest).map fun r => (.string r.1, r.2)
    | '[' :: rest =>
      match skipSpace rest with
      | ']' :: after => some (.array [], after)
      | rest => (readItems? fuel rest).map fun r => (.array r.1, r.2)
    | '\x7b' :: rest =>
      match skipSpace rest with
      | '\x7d' :: after => some (.object [], after)
      | rest => (readMembers? fuel rest).map fun r => (.ofMembers r.1, r.2)
    | 'n' :: rest => readWord? "ull" .null rest
    | 't' :: rest => readWord? "rue" (.bool true) rest
    | 'f' :: rest => readWord? "alse" (.bool false) rest
    | cs => readNumber? cs

/-- The items up to the closing bracket, and the rest. -/
def readItems? : (fuel : Nat) → List Char → Option (List Json × List Char)
  | 0, _ => none
  | fuel + 1, cs => do
    let (v, rest) ← readValue? fuel cs
    match skipSpace rest with
    | ']' :: after => return ([v], after)
    | ',' :: after =>
      let (items, others) ← readItems? fuel after
      return (v :: items, others)
    | _ => none

/-- The members up to the closing brace, and the rest. -/
def readMembers? : (fuel : Nat) → List Char → Option (List (String × Json) × List Char)
  | 0, _ => none
  | fuel + 1, cs =>
    match skipSpace cs with
    | '"' :: keyText => do
      let (key, rest) ← readString? keyText
      match skipSpace rest with
      | ':' :: valueText =>
        let (v, rest) ← readValue? fuel valueText
        match skipSpace rest with
        | '\x7d' :: after => return ([(key, v)], after)
        | ',' :: after =>
          let (members, others) ← readMembers? fuel after
          return ((key, v) :: members, others)
        | _ => none
      | _ => none
    | _ => none

end

/-- **The value that a text writes**, if it writes one. -/
def ofText? (s : String) : Option Json := do
  let cs := s.toList
  let (v, rest) ← readValue? (cs.length + 1) cs
  if skipSpace rest = [] then some v else none

end ShorthandSchema.Json
