import ApiPages.Kind
import ApiPages.Source.Block

/-!
What a line of code declares. The forms are tried in a fixed order: members of a class body,
assignments to `this`, functions, classes, variables, exported names, prototype members, members of
an object and plain assignments.
-/
namespace ApiPages.Source

structure Declaration where
  kind : Option Kind := none
  name : List Char := []
  parent : Option (List Char) := none
  scope : Option Scope := none
  exported : Bool := false
  async : Bool := false
  generator : Bool := false
  augments : Option (List Char) := none
  literal : Option (List Char) := none
  isConstructor : Bool := false
  deriving DecidableEq, Repr

def isNameStart (c : Char) : Bool := c.isAlpha || c == '_' || c == '$'

def isNamePart (c : Char) : Bool := Text.isWordChar c || c == '$'

def name? : List Char → Option (List Char × List Char)
  | [] => none
  | c :: cs =>
    if isNameStart c then
      let (part, rest) := cs.span isNamePart
      some (c :: part, rest)
    else none

def isName (cs : List Char) : Bool :=
  match cs with
  | [] => false
  | c :: cs => isNameStart c && cs.all isNamePart

def afterWord? (word cs : List Char) : Option (List Char) :=
  match Text.after? word cs with
  | some (c :: rest) => if Text.isBlank c then some (Text.trimStart rest) else none
  | _ => none

def mayLead (word cs : List Char) : List (Bool × List Char) :=
  (afterWord? word cs).toList.map (fun rest => (true, rest)) ++ [(false, cs)]

def assigned? (cs : List Char) : Option (List Char) :=
  match Text.trimStart cs with
  | '=' :: rest => some (Text.trimStart rest)
  | _ => none

def mayStar (cs : List Char) : Bool × List Char :=
  match Text.trimStart cs with
  | '*' :: rest => (true, Text.trimStart rest)
  | rest => (false, rest)

def functionValue? (rhs : List Char) : Option (Bool × Bool) :=
  let (async, rest) := match afterWord? "async".toList rhs with
    | some rest => (true, rest)
    | none => (false, rhs)
  match Text.after? "function".toList rest with
  | some rest =>
    if rest.head?.any Text.isWordChar then none else some (async, (mayStar rest).1)
  | none => none

def isArrow (cs : List Char) : Bool :=
  let rest : Option (List Char) := match cs with
    | '(' :: inner => (Text.splitFirst? ')' inner).map (·.2)
    | _ => (name? cs).map (·.2)
  rest.any fun rest => Text.startsWith ['=', '>'] (Text.trimStart rest)

def arrowValue? (rhs : List Char) : Option Bool :=
  ((mayLead "async".toList rhs).find? fun p => isArrow p.2).map (·.1)

def isClassValue (rhs : List Char) : Bool :=
  match Text.after? "class".toList rhs with
  | some rest => !rest.head?.any Text.isLetterOrNumber
  | none => false

def isNumberPart (c : Char) : Bool := Text.isDecimalDigit c || ['_', '.', 'e', 'E', '+', '-'].contains c

def isNumberText (cs : List Char) : Bool :=
  match cs with
  | '-' :: c :: cs => Text.isDecimalDigit c && cs.all isNumberPart
  | c :: cs => Text.isDecimalDigit c && cs.all isNumberPart
  | [] => false

def isQuotedText (quote : Char) (cs : List Char) : Bool :=
  match cs with
  | c :: rest =>
    match Text.splitFirst? quote rest with
    | some (_, rest) => c == quote && rest == []
    | none => false
  | [] => false

def isLiteral (cs : List Char) : Bool :=
  isNumberText cs || isQuotedText '\'' cs || isQuotedText '"' cs ||
    ["true".toList, "false".toList, "null".toList].contains cs

def plainValue (rhs : List Char) : List Char :=
  Text.trim (Text.dropEndWhile (fun c => c == ';' || c == ',') (Text.trim rhs))

namespace Declaration

def withValue (d : Declaration) (rhs : List Char) (fallback : Kind) : Declaration :=
  let rhs := plainValue rhs
  match functionValue? rhs with
  | some (async, generator) =>
    { d with kind := some .function, async := async, generator := generator }
  | none =>
    match arrowValue? rhs with
    | some async => { d with kind := some .function, async := async }
    | none =>
      if isClassValue rhs then { d with kind := some .classKind }
      else { d with kind := some fallback, literal := if isLiteral rhs then some rhs else none }

def memberName? (cs : List Char) : Option (List Char × List Char) :=
  match cs with
  | '#' :: rest => (name? rest).map fun (name, rest) => ('#' :: name, rest)
  | _ => name? cs

def memberScope (static : Bool) : Scope := if static then .staticScope else .instanceScope

def starWays (cs : List Char) : List (Bool × List Char) :=
  match cs with
  | '*' :: rest => [(true, Text.trimStart rest), (false, cs)]
  | _ => [(false, cs)]

def accessorWays (cs : List Char) : List (Bool × List Char) :=
  ((afterWord? "get".toList cs).or (afterWord? "set".toList cs)).toList.map (fun rest => (true, rest)) ++
    [(false, cs)]

/-- A method of a class body: its name before an opening parenthesis, with the words that may lead
it. Each of them is a name itself when nothing else can be. -/
def method? (owner code : List Char) : Option Declaration :=
  ((mayLead "static".toList code).flatMap fun (static, cs) =>
    (mayLead "async".toList cs).flatMap fun (async, cs) =>
    (starWays cs).flatMap fun (generator, cs) =>
    (accessorWays cs).flatMap fun (accessor, cs) =>
    (memberName? cs).toList.flatMap fun (name, cs) =>
      if (Text.trimStart cs).head? ≠ some '(' then []
      else if name = "constructor".toList then [{ parent := some owner, isConstructor := true }]
      else
        [{ kind := some (if accessor then .member else .function), name := name
           parent := some owner, scope := some (memberScope static), async := async
           generator := generator }]).head?

def field? (owner code : List Char) : Option Declaration :=
  ((mayLead "static".toList (Text.dropEndWhile (· = ';') code)).flatMap fun (static, cs) =>
    (memberName? cs).toList.flatMap fun (name, cs) =>
      let d : Declaration := { name := name, parent := some owner, scope := some (memberScope static) }
      match assigned? cs with
      | some rhs => [d.withValue rhs .member]
      | none => if Text.trimStart cs = [] then [{ d with kind := some .member }] else []).head?

def thisMember? (owner code : List Char) : Option Declaration := do
  let rest ← Text.after? "this.".toList code
  let (name, rest) ← name? rest
  let rhs ← assigned? rest
  let d : Declaration := { name := name, parent := some owner, scope := some .instanceScope }
  pure (d.withValue rhs .member)

def ofClassLine? (enclosing : Enclosing) (code : List Char) : Option Declaration :=
  if enclosing.direct then (method? enclosing.name code).or (field? enclosing.name code)
  else thisMember? enclosing.name code

def function? (code : List Char) : Option Declaration := do
  let (async, rest) := match afterWord? "async".toList code with
    | some rest => (true, rest)
    | none => (false, code)
  let rest ← Text.after? "function".toList rest
  let (generator, rest) := mayStar rest
  let (name, _) ← name? rest
  pure { kind := some .function, name := name, async := async, generator := generator }

def base? (rest : List Char) : Option (List Char) :=
  match rest with
  | c :: _ =>
    if Text.isBlank c then
      match afterWord? "extends".toList (Text.trimStart rest) with
      | some rest =>
        let base := rest.takeWhile fun c => isNamePart c || c == '.'
        if base = [] then none else some base
      | none => none
    else none
  | [] => none

def class? (code : List Char) : Option Declaration := do
  let rest ← afterWord? "class".toList code
  let (name, rest) ← name? rest
  pure { kind := some .classKind, name := name, augments := base? rest }

def binding? (code : List Char) : Option Declaration := do
  let (fallback, rest) ← match afterWord? "const".toList code with
    | some rest => some (Kind.constant, rest)
    | none =>
      ((afterWord? "let".toList code).or (afterWord? "var".toList code)).map fun rest =>
        (Kind.member, rest)
  let (name, rest) ← name? rest
  match assigned? rest with
  | some rhs => pure ({ name := name : Declaration }.withValue rhs fallback)
  | none => if Text.trimStart rest = [] then pure { kind := some fallback, name := name } else none

def exportsMember? (code : List Char) : Option Declaration := do
  let rest ← Text.after? "exports.".toList ((Text.after? "module.".toList code).getD code)
  let (name, rest) ← name? rest
  let rhs ← assigned? rest
  pure ({ name := name, exported := true : Declaration }.withValue rhs .member)

def target? (code : List Char) : Option (List (List Char) × List Char) :=
  let (target, rest) := code.span fun c => isNamePart c || c == '.'
  (assigned? rest).map fun rhs => (Text.split '.' target, rhs)

def prototypeMember? (code : List Char) : Option Declaration := do
  let (parts, rhs) ← target? code
  match parts.reverse with
  | name :: prototype :: owner =>
    let owner := Text.join ['.'] owner.reverse
    if prototype = "prototype".toList ∧ isName name ∧ owner ≠ [] then
      let d : Declaration := { name := name, parent := some owner, scope := some .instanceScope }
      some (d.withValue rhs .member)
    else none
  | _ => none

/-- An assignment to a member of an object, or to a plain name. What is assigned to the module
itself declares nothing. -/
def assignment? (code : List Char) : Option Declaration := do
  let (parts, rhs) ← target? code
  if parts.all isName then
    match parts.reverse with
    | [] => none
    | [name] => some ({ name := name : Declaration }.withValue rhs .member)
    | name :: owner =>
      let owner := Text.join ['.'] owner.reverse
      if owner = "module".toList then some {}
      else
        let d : Declaration := { name := name, parent := some owner, scope := some .staticScope }
        some (d.withValue rhs .member)
  else none

def withoutExport (code : List Char) : Bool × List Char :=
  match afterWord? "export".toList code with
  | some rest => (true, (afterWord? "default".toList rest).getD rest)
  | none => (false, code)

def ofPlainLine (code : List Char) : Declaration :=
  let (exported, code) := withoutExport code
  let d := ((function? code).or <| (class? code).or <| (binding? code).or <|
    (exportsMember? code).or <| (prototypeMember? code).or (assignment? code)).getD {}
  { d with exported := exported || d.exported }

def ofLine (enclosing : Option Enclosing) (code : List Char) : Declaration :=
  (enclosing.bind fun e => ofClassLine? e code).getD (ofPlainLine code)

end Declaration

end ApiPages.Source
