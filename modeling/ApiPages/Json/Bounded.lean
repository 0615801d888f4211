import ApiPages.Json.Double
import ApiPages.Json.Reader

/-!
Values that do not nest too deeply and whose numbers are not too large. Text from outside that is kept
as a value has to hold one; what is passed over may hold any.
-/
namespace ApiPages.Json

mutual

/-- Whether lists and objects stand at most that deep inside each other, and every number has a
double. -/
def isBounded : Nat → Json → Bool
  | _, .number n => n.size?.isSome
  | 0, .array _ | 0, .object _ => false
  | depth + 1, .array items => areBounded depth items
  | depth + 1, .object fields => haveBounded depth fields
  | _, _ => true

def areBounded (depth : Nat) : List Json → Bool
  | [] => true
  | item :: items => isBounded depth item && areBounded depth items

def haveBounded (depth : Nat) : List (String × Json) → Bool
  | [] => true
  | (_, value) :: fields => isBounded depth value && haveBounded depth fields

end

def depthLimit : Nat := 127

def parseBounded? (text : String) : Option Json := (parse? text).filter (isBounded depthLimit)

end ApiPages.Json
