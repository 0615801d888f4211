/-!
JSON values. Objects keep their fields in the order they were written. A whole number that fits a
64-bit word is kept as such; every other number is kept as a decimal with a sign of its own, so that
zero has two forms.
-/
namespace ApiPages

/-- A number: a whole one, or `digits · 10 ^ exponent` with a sign before it. -/
inductive Number where
  | whole (value : Int)
  | decimal (negative : Bool) (digits : Nat) (exponent : Int)
  deriving DecidableEq, Repr

namespace Number

def wordSize : Int := 18446744073709551616

def fitsSigned (value : Int) : Bool := -wordSize ≤ 2 * value && 2 * value < wordSize

def fitsUnsigned (value : Int) : Bool := 0 ≤ value && value < wordSize

def fitsWord (value : Int) : Bool := fitsSigned value || fitsUnsigned value

def reduce (negative : Bool) : Nat → Nat → Int → Number
  | 0, digits, exponent => .decimal negative digits exponent
  | n + 1, digits, exponent =>
    if digits ≠ 0 ∧ digits % 10 = 0 then reduce negative n (digits / 10) (exponent + 1)
    else .decimal negative digits (if digits = 0 then 0 else exponent)

def isNonzero : Number → Bool
  | .whole value => value != 0
  | .decimal _ digits _ => digits != 0

end Number

inductive Json where
  | null
  | bool (value : Bool)
  | number (value : Number)
  | string (value : String)
  | array (items : List Json)
  | object (fields : List (String × Json))

namespace Json

instance : Inhabited Json := ⟨.null⟩

def whole (n : Nat) : Json := .number (.whole n)

def get? (name : String) : Json → Option Json
  | .object fields => (fields.find? fun field => field.1 == name).map (·.2)
  | _ => none

mutual

/-- Equality of values; the order of fields counts. -/
def same : Json → Json → Bool
  | .null, .null => true
  | .bool a, .bool b => a == b
  | .number a, .number b => a == b
  | .string a, .string b => a == b
  | .array a, .array b => sameItems a b
  | .object a, .object b => sameFields a b
  | _, _ => false

def sameItems : List Json → List Json → Bool
  | [], [] => true
  | a :: as, b :: bs => same a b && sameItems as bs
  | _, _ => false

def sameFields : List (String × Json) → List (String × Json) → Bool
  | [], [] => true
  | (m, a) :: as, (n, b) :: bs => m == n && same a b && sameFields as bs
  | _, _ => false

end

mutual

def sorted : Json → Json
  | .array items => .array (sortedItems items)
  | .object fields => .object ((sortedFields fields).mergeSort fun a b => decide (a.1 ≤ b.1))
  | value => value

def sortedItems : List Json → List Json
  | [] => []
  | item :: items => sorted item :: sortedItems items

def sortedFields : List (String × Json) → List (String × Json)
  | [] => []
  | (name, value) :: fields => (name, sorted value) :: sortedFields fields

end

end Json

end ApiPages
