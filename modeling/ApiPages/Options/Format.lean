import ApiPages.Failure
import ApiPages.Json.Shape
import ApiPages.Text.Distance
import ApiPages.Text.Line

/-!
The layouts a page can ask for, each with its spellings. A spelling that fits none is answered with
the closest one, or with all of them.
-/
namespace ApiPages

structure Choice (α : Type) where
  subject : String
  options : List (String × α)

namespace Choice

def names (c : Choice α) : List String := c.options.map (·.1)

/-- The name at the least distance, the first of equals. -/
def closest (wanted : List Char) : List String → Option (String × Nat)
  | [] => none
  | name :: names =>
    let here := Text.distance wanted name.toList
    match closest wanted names with
    | some (other, d) => if d < here then some (other, d) else some (name, here)
    | none => some (name, here)

/-- The text for a spelling that fits no value: a name is suggested if no more than half of it
differs. -/
def refusal (c : Choice α) (value : String) (wanted : List Char) : String :=
  let unknown := "Unknown " ++ c.subject ++ " '" ++ value ++ "', "
  match closest wanted c.names with
  | some (name, d) =>
    if d ≤ name.length / 2 then unknown ++ "did you mean '" ++ name ++ "'?"
    else unknown ++ "expected one of: " ++ ", ".intercalate c.names
  | none => unknown ++ "expected one of: "

def read (c : Choice α) (value : String) : Except Problem α :=
  let wanted := Text.lower (Text.trim value.toList)
  match c.options.find? fun p => p.1.toList == wanted with
  | some p => .ok p.2
  | none => .error (.other (c.refusal value wanted))

end Choice

inductive IndexFormat where
  | off | grouped | table | definitions
  deriving DecidableEq, Repr

namespace IndexFormat

def name : IndexFormat → String
  | off => "none"
  | grouped => "grouped"
  | table => "table"
  | definitions => "dl"

def choice : Choice IndexFormat :=
  ⟨"index format", [off, grouped, table, definitions].map fun f => (f.name, f)⟩

def codec : Codec IndexFormat := .choice name choice.options

end IndexFormat

inductive MemberIndexFormat where
  | grouped | list
  deriving DecidableEq, Repr

namespace MemberIndexFormat

def name : MemberIndexFormat → String
  | grouped => "grouped"
  | list => "list"

def choice : Choice MemberIndexFormat :=
  ⟨"member index format", [grouped, list].map fun f => (f.name, f)⟩

def codec : Codec MemberIndexFormat := .choice name choice.options

end MemberIndexFormat

inductive ListFormat where
  | table | list
  deriving DecidableEq, Repr

namespace ListFormat

def name : ListFormat → String
  | table => "table"
  | list => "list"

def choice : Choice ListFormat := ⟨"list format", [table, list].map fun f => (f.name, f)⟩

def codec : Codec ListFormat := .choice name choice.options

end ListFormat

inductive NameFormat where
  | plain | backticks
  deriving DecidableEq, Repr

namespace NameFormat

def name : NameFormat → String
  | plain => "plain"
  | backticks => "backticks"

def choice : Choice NameFormat :=
  ⟨"name format", [("plain", plain), ("backticks", backticks), ("code", backticks)]⟩

def codec : Codec NameFormat := .choice name choice.options

end NameFormat

end ApiPages
