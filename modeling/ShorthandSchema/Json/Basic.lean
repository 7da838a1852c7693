import ShorthandSchema.Binary64.Round
import ShorthandSchema.Entries

/-! # JSON: values

A number is either an integer of the 64-bit ranges, which keeps all its digits, or a finite
binary64 number. The members of an object are listed by key, in the order of code points.

* `lookup_insertMember`: what an insertion does to the members under each key. -/

namespace ShorthandSchema

namespace Json

/-- The integers that a JSON number keeps exactly: of 64 bits, with a sign or without, from
`-2 ^ 63` to below `2 ^ 64`. -/
def Exact (k : Int) : Prop := -9223372036854775808 ≤ k ∧ k < 18446744073709551616

instance (k : Int) : Decidable (Exact k) := inferInstanceAs (Decidable (_ ∧ _))

/-- A JSON number. -/
inductive Number where
  | integer (k : Int) (exact : Exact k)
  | float (x : Binary64.Finite)
deriving DecidableEq

namespace Number

/-- The value rounded to binary64. -/
def toBinary64 : Number → Binary64
  | integer k _ => .ofInt k
  | float x => .finite x

/-- Whether the value is zero. -/
def isZero : Number → Bool
  | integer k _ => k == 0
  | float x => x.isZero

end Number

end Json

/-- **A JSON value.** -/
inductive Json where
  | null
  | bool (b : Bool)
  | number (n : Json.Number)
  | string (s : String)
  | array (items : List Json)
  | object (members : List (String × Json))
deriving Inhabited

namespace Json

/-- The name of a value's type. -/
def typeName : Json → String
  | null => "null"
  | bool _ => "boolean"
  | number _ => "number"
  | string _ => "string"
  | array _ => "array"
  | object _ => "object"

/-- Whether the value is null. -/
def isNull : Json → Bool
  | null => true
  | _ => false

/-! ### Members of an object -/

/-- The members with `key` bound to `value`, in the order of keys. -/
def insertMember (key : String) (value : Json) : List (String × Json) → List (String × Json)
  | [] => [(key, value)]
  | (k, v) :: rest =>
    if key = k then (key, value) :: rest
    else if key < k then (key, value) :: (k, v) :: rest
    else (k, v) :: insertMember key value rest

/-- The value under a key, null if there is none. -/
def member (key : String) (members : List (String × Json)) : Json :=
  (members.lookup key).getD null

/-- The object whose members are inserted one by one. -/
def ofMembers (members : List (String × Json)) : Json :=
  object (members.foldl (fun sorted m => insertMember m.1 m.2 sorted) [])

/-- **An insertion binds its key and changes no other.** -/
theorem lookup_insertMember (key j : String) (value : Json) (members : List (String × Json)) :
    (insertMember key value members).lookup j =
      if j = key then some value else members.lookup j := by
  induction members with
  | nil => rw [insertMember, lookup_cons_ite]
  | cons m rest ih =>
    obtain ⟨k, v⟩ := m
    unfold insertMember
    split
    · subst k
      simp only [lookup_cons_ite]
      split <;> rfl
    · split
      · simp only [lookup_cons_ite]
      · rename_i hne _
        simp only [lookup_cons_ite, ih]
        by_cases h : j = k
        · simp [h, Ne.symm hne]
        · simp [h]

end Json

end ShorthandSchema
