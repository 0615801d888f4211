import ApiPages.Json.Printer
import ApiPages.Page.Links

/-!
The filters of templates. Each takes a value and named arguments; one that is given a value of the
wrong kind says what it expected and what it got. The language of the templates brings filters and
functions of its own along, which are looked up by name.
-/
namespace ApiPages.Template

inductive Fault where
  | missingVariable (name template : String)
  | missingTemplate (name : String)
  | missingFilter (name : String)
  | badValue (filter reason : String)
  | badArgument (filter : String) (cause : Fault)
  | missingLibrary (library template : String)
  | missingMacro (library macroName template : String)
  | missingArgument (macroName param : String)
  | missingFunction (name : String)
  | badAnswer (function reason : String)
  | badFunctionArgument (function : String) (cause : Fault)
  | undecided (function : String)
  | missingKey (variableName : String)
  | notIterable (variableName : String)
  | notNamed (written : String)
  | tooDeep
  deriving DecidableEq, Repr

namespace Fault

def messages : Fault → List String
  | missingVariable name template =>
    ["Variable \x60" ++ name ++ "\x60 not found in context while rendering '" ++ template ++ "'"]
  | missingTemplate name => ["Template '[" ++ name ++ "]' not found"]
  | missingFilter name => ["Filter '" ++ name ++ "' not found"]
  | badValue filter reason => ["Filter call '" ++ filter ++ "' failed", reason]
  | badArgument filter cause => ("Filter call '" ++ filter ++ "' failed") :: cause.messages
  | missingLibrary library template =>
    ["Macro namespace \x60" ++ library ++ "\x60 was not found in template \x60" ++ template ++
      "\x60. Have you maybe forgotten to import it, or misspelled it?"]
  | missingMacro library macroName template =>
    ["Macro \x60" ++ library ++ "::" ++ macroName ++ "\x60 not found in template \x60" ++ template ++
      "\x60"]
  | missingArgument macroName param =>
    ["Macro \x60" ++ macroName ++ "\x60 is missing the argument \x60" ++ param ++ "\x60"]
  | missingFunction name => ["Function '" ++ name ++ "' not found"]
  | badAnswer function reason => ["Function call '" ++ function ++ "' failed", reason]
  | badFunctionArgument function cause => ("Function call '" ++ function ++ "' failed") :: cause.messages
  | undecided function =>
    ["Function \x60" ++ function ++ "\x60 was used in a logic expression but is not returning a bool"]
  | missingKey variableName =>
    ["Tried to iterate using key value on variable \x60" ++ variableName ++
      "\x60, but it is missing a key"]
  | notIterable variableName =>
    ["Tried to iterate on a container (\x60" ++ variableName ++ "\x60) that has a unsupported type"]
  | notNamed written =>
    ["Forloop containers have to be an ident or a function call (tried to iterate on '" ++ written ++
      "')"]
  | tooDeep => ["Templates include each other without end"]

end Fault

abbrev Args := List (String × Json)

/-- What the language brings along: functions and filters that are no part of this library. A reason
for failing is a text. -/
structure Builtins where
  function? : String → Option (Args → Except String Json) := fun _ => none
  filter? : String → Option (Args → Json → Except String Json) := fun _ => none

namespace Filter

def arg? (args : Args) (name : String) : Option Json := (args.find? fun a => a.1 == name).map (·.2)

def shown (value : Json) : String := Json.compact value.sorted

def wrong (filter expected : String) (value : Json) : Fault :=
  .badValue filter ("Filter \x60" ++ filter ++ "\x60 expects a " ++ expected ++ ", got " ++ shown value)

def numberArg (filter : String) (value : Json) : Except Fault Nat :=
  match value with
  | .number (.whole n) => if 0 ≤ n then .ok n.toNat else .error (wrong filter "number" value)
  | _ => .error (wrong filter "number" value)

def textArg (filter : String) (value : Json) : Except Fault String :=
  match value with
  | .string s => .ok s
  | _ => .error (wrong filter "string" value)

def heading (level : Nat) : String := String.ofList (List.replicate (min (max level 1) 6) '#')

def nest (depth : Nat) : String := String.ofList (List.replicate (4 * depth) ' ')

def fence : List Char := ['\x60', '\x60', '\x60']

def indentLine (line : List Char) : List Char :=
  if Text.isBlankLine line then [] else ' ' :: ' ' :: ' ' :: ' ' :: line

def codeBlock (gfm : Bool) (lang code : String) : String :=
  String.ofList <|
    if gfm then fence ++ lang.toList ++ '\n' :: code.toList ++ '\n' :: fence
    else '\n' :: Text.join ['\n'] ((Text.lines code.toList).map indentLine)

def length (value : Json) : Except Fault Nat :=
  match value with
  | .array items => .ok items.length
  | .object fields => .ok fields.length
  | .string s => .ok s.length
  | _ =>
    .error (.badValue "length"
      "Filter \x60length\x60 was used on a value that isn't an array, an object, or a string.")

def names : List String := ["heading", "nest", "anchor", "linkify", "length", "code_block"]

def check (builtins : Builtins) (filter : String) : Except Fault Unit :=
  if names.contains filter ∨ (builtins.filter? filter).isSome then .ok ()
  else .error (.missingFilter filter)

def apply (builtins : Builtins) (known : List Entry) (filter : String) (args : Args) (value : Json) :
    Except Fault Json :=
  match filter with
  | "heading" => (numberArg filter value).map fun n => .string (heading n)
  | "nest" => (numberArg filter value).map fun n => .string (nest n)
  | "anchor" => (textArg filter value).map fun s => .string (sanitize s)
  | "linkify" => (textArg filter value).map fun s => .string (linkify known s)
  | "length" => (length value).map Json.whole
  | "code_block" =>
    (textArg filter value).map fun code =>
      let gfm := match arg? args "gfm" with
        | some (.bool b) => b
        | _ => true
      let lang := match arg? args "lang" with
        | some (.string s) => s
        | _ => ""
      .string (codeBlock gfm lang code)
  | _ =>
    match builtins.filter? filter with
    | some own => (own args value).mapError (.badValue filter)
    | none => .error (.missingFilter filter)

end Filter

end ApiPages.Template
