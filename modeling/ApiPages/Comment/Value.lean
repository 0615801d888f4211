import ApiPages.Record.Tags

/-!
The values of tags: types in braces, parameters, results and named types.
-/
namespace ApiPages

structure TypeText where
  expr : TypeExpr := {}
  optional : Bool := false
  nullable : Bool := false
  repeated : Bool := false
  deriving DecidableEq, Repr

namespace TypeText

def depthChange (c : Char) : Int :=
  if ['(', '<', '{', '['].contains c then 1
  else if [')', '>', '}', ']'].contains c then -1
  else 0

def alternatives (depth : Int) : List Char → List (List Char)
  | [] => [[]]
  | c :: cs =>
    if c = '|' ∧ depth = 0 then [] :: alternatives depth cs
    else match alternatives (depth + depthChange c) cs with
      | [] => [[c]]
      | part :: parts => (c :: part) :: parts

def unwrapped (cs : List Char) : List Char :=
  match cs with
  | '(' :: rest => (Text.before? [')'] rest).getD cs
  | _ => cs

def names (cs : List Char) : List String :=
  ((alternatives 0 cs).filterMap Text.nonEmpty?).map String.ofList

/-- An annotation: dots that repeat it, a mark of null or not null, the alternatives, and a sign
that makes it optional. -/
def ofText (raw : List Char) : TypeText :=
  let text := Text.trim raw
  let (repeated, text) := match Text.after? ['.', '.', '.'] text with
    | some rest => (true, rest)
    | none => (false, text)
  let (optional, text) := match Text.before? ['='] text with
    | some rest => (true, rest)
    | none => (false, text)
  let (nullable, text) := match text with
    | '?' :: rest => (true, rest)
    | '!' :: rest => (false, rest)
    | _ => (false, text)
  { expr := ⟨names (unwrapped text)⟩, optional := optional, nullable := nullable
    repeated := repeated }

def expr? (t : TypeText) : Option TypeExpr := if t.expr.names = [] then none else some t.expr

end TypeText

namespace TagValue

def closingBrace? : Nat → List Char → Option (List Char × List Char)
  | _, [] => none
  | depth, c :: cs =>
    if c = '}' ∧ depth = 0 then some ([], cs)
    else
      let depth := if c = '{' then depth + 1 else if c = '}' then depth - 1 else depth
      (closingBrace? depth cs).map fun (inside, rest) => (c :: inside, rest)

def splitType (value : List Char) : Option (List Char) × List Char :=
  let value := Text.trimStart value
  match value with
  | '{' :: rest =>
    match closingBrace? 0 rest with
    | some (inside, rest) => (some (Text.trim inside), Text.trimStart rest)
    | none => (none, value)
  | _ => (none, value)

def text? (cs : List Char) : Option String := (Text.nonEmpty? cs).map String.ofList

def description? (rest : List Char) : Option String :=
  match Text.trimStart rest with
  | '-' :: rest => text? rest
  | rest => text? rest

def firstWord (cs : List Char) : List Char × List Char := cs.span fun c => !Text.isBlank c

def bracketed (inner : List Char) : List Char × Option String × List Char :=
  let (part, rest) := (Text.splitFirst? ']' inner).getD (inner, [])
  match Text.splitFirst? '=' part with
  | some (name, default) => (Text.trim name, text? default, rest)
  | none => (Text.trim part, none, rest)

def param (value : List Char) : Param :=
  let (type, rest) := splitType value
  let type := (type.map TypeText.ofText).getD {}
  let (optional, name, default, rest) := match rest with
    | '[' :: inner => (true, bracketed inner)
    | _ =>
      let (word, rest) := firstWord rest
      (false, Text.trim word, none, rest)
  { type := type.expr?, name := String.ofList name, description := description? rest
    optional := optional || type.optional, default := default, nullable := type.nullable
    repeated := type.repeated }

def typed (value : List Char) : Option TypeExpr × List Char :=
  let (type, rest) := splitType value
  (type.bind fun text => (TypeText.ofText text).expr?, rest)

def returned (value : List Char) : Returned :=
  let (type, rest) := typed value
  { type := type, description := text? rest }

def namedType (value : List Char) : Option TypeExpr × Option (List Char) × Option String :=
  let (type, rest) := typed value
  let (word, rest) := firstWord (Text.trim rest)
  (type, Text.nonEmpty? word, text? rest)

def plainType (value : List Char) : Option TypeExpr :=
  (TypeText.ofText ((splitType value).1.getD value)).expr?

end TagValue

end ApiPages
