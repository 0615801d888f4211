import ApiPages.Json.Double
import ApiPages.Json.Reader
import ApiPages.Template.Tree
import ApiPages.Text.Line

/-!
Reading the expressions of templates. Every reader takes the text that is left and returns what it
read with the text behind it. `or` binds weakest, then `and`, then `not`, then a comparison; filters
bind to the value before them. Where a text can be read in two ways the first one counts, and it is
not taken back when what follows does not fit. A count bounds the nesting.
-/
namespace ApiPages.Template

def skipSpace (cs : List Char) : List Char := cs.dropWhile Json.isSpace

def spaced? : List Char → Option (List Char)
  | c :: cs => if Json.isSpace c then some (skipSpace cs) else none
  | [] => none

def word? (word : String) (cs : List Char) : Option (List Char) :=
  (Text.after? word.toList cs).bind spaced?

def isIdentStart (c : Char) : Bool := c.isAlpha || c == '_'

def isIdentPart (c : Char) : Bool := c.isAlphanum || c == '_'

def ident? : List Char → Option (String × List Char)
  | c :: cs =>
    if isIdentStart c then
      let (part, rest) := cs.span isIdentPart
      some (String.ofList (c :: part), rest)
    else none
  | [] => none

def steps : Nat → List Char → List Char × List Char
  | n + 1, '.' :: c :: cs =>
    if isIdentPart c then
      let (part, rest) := cs.span isIdentPart
      let (more, rest) := steps n rest
      ('.' :: c :: part ++ more, rest)
    else ([], '.' :: c :: cs)
  | _, cs => ([], cs)

def quoted? : List Char → Option (String × List Char)
  | q :: cs =>
    if q = '"' ∨ q = '\'' ∨ q = '\x60' then
      (Text.splitFirst? q cs).map fun (inside, rest) => (String.ofList inside, rest)
    else none
  | [] => none

def wholePart? : List Char → Option (List Char × List Char)
  | '0' :: rest => some (['0'], rest)
  | c :: cs => if c.isDigit then some ((c :: cs).span Char.isDigit) else none
  | [] => none

/-- A number. With a point it is a double; without one it is whole and of any size. -/
def number? (cs : List Char) : Option (Number × List Char) := do
  let (negative, cs) := match cs with
    | '-' :: rest => (true, rest)
    | _ => (false, cs)
  let (whole, rest) ← wholePart? cs
  let plain : Number × List Char :=
    (.whole ((if negative then -1 else 1) * (Json.natOf whole : Int)), rest)
  match rest with
  | '.' :: c :: more =>
    if c.isDigit then
      let (part, rest) := more.span Char.isDigit
      let ds := whole ++ c :: part
      some ((Number.decimal negative (Json.natOf ds) (-(part.length + 1 : Int))).rounded, rest)
    else some plain
  | _ => some plain

/-- A truth value. Nothing has to set it off from what follows. -/
def truth? (cs : List Char) : Option (Bool × List Char) :=
  [("true", true), ("false", false), ("True", true), ("False", false)].findSome? fun (word, value) =>
    (Text.after? word.toList cs).map fun rest => (value, rest)

def literal? (cs : List Char) : Option (Json × List Char) :=
  match truth? cs with
  | some (b, rest) => some (.bool b, rest)
  | none =>
    match quoted? cs with
    | some (s, rest) => some (.string s, rest)
    | none => (number? cs).map fun (x, rest) => (.number x, rest)

def comparison? : List Char → Option (Operator × List Char)
  | '=' :: '=' :: rest => some (.equal, rest)
  | '!' :: '=' :: rest => some (.differs, rest)
  | _ => none

mutual

def expr? : Nat → List Char → Option (Expr × List Char)
  | 0, _ => none
  | n + 1, cs => do
    let (first, rest) ← conjunction? n cs
    alternatives n first rest

def alternatives : Nat → Expr → List Char → Option (Expr × List Char)
  | 0, _, _ => none
  | n + 1, left, cs =>
    match (word? "or" (skipSpace cs)).bind (conjunction? n) with
    | some (right, rest) => alternatives n (.operation .or left right) rest
    | none => some (left, cs)

def conjunction? : Nat → List Char → Option (Expr × List Char)
  | 0, _ => none
  | n + 1, cs => do
    let (first, rest) ← condition? n cs
    conditions n first rest

def conditions : Nat → Expr → List Char → Option (Expr × List Char)
  | 0, _, _ => none
  | n + 1, left, cs =>
    match (word? "and" (skipSpace cs)).bind (condition? n) with
    | some (right, rest) => conditions n (.operation .and left right) rest
    | none => some (left, cs)

def condition? : Nat → List Char → Option (Expr × List Char)
  | 0, _ => none
  | n + 1, cs =>
    let cs := skipSpace cs
    let plain := match word? "not" cs with
      | some rest => (compared? n rest).map fun (e, rest) => (.negated e, rest)
      | none => compared? n cs
    match plain, cs with
    | some found, _ => some found
    | none, '(' :: rest => do
      let (inner, rest) ← expr? n rest
      match skipSpace rest with
      | ')' :: rest => some (inner, rest)
      | _ => none
    | none, _ => none

def compared? : Nat → List Char → Option (Expr × List Char)
  | 0, _ => none
  | n + 1, cs => do
    let (left, rest) ← side? n cs
    match comparison? (skipSpace rest) with
    | some (op, rest) =>
      let (right, rest) ← side? n rest
      some (.operation op left right, rest)
    | none => some (left, rest)

def side? : Nat → List Char → Option (Expr × List Char)
  | 0, _ => none
  | n + 1, cs =>
    match quoted? (skipSpace cs) with
    | some (s, rest) => filters? n (.literal (.string s)) rest
    | none => operand? n cs

def operand? : Nat → List Char → Option (Expr × List Char)
  | 0, _ => none
  | n + 1, cs => do
    let (value, rest) ← basic? n cs
    filters? n value rest

def filters? : Nat → Expr → List Char → Option (Expr × List Char)
  | 0, _, _ => none
  | n + 1, value, cs =>
    match skipSpace cs with
    | '|' :: rest => do
      let (name, rest) ← ident? (skipSpace rest)
      match skipSpace rest with
      | '(' :: inner =>
        let (args, rest) ← args? n inner
        filters? n (.filtered value name args) rest
      | _ => filters? n (.filtered value name []) rest
    | _ => some (value, cs)

def basic? : Nat → List Char → Option (Expr × List Char)
  | 0, _ => none
  | n + 1, cs =>
    match skipSpace cs with
    | '(' :: rest => do
      let (inner, rest) ← basic? n rest
      match skipSpace rest with
      | ')' :: rest => some (inner, rest)
      | _ => none
    | cs =>
      match truth? cs with
      | some (b, rest) => some (.literal (.bool b), rest)
      | none =>
        match ident? cs with
        | none => (number? cs).map fun (x, rest) => (.literal (.number x), rest)
        | some (name, rest) =>
          match skipSpace rest with
          | ':' :: ':' :: more => do
            let (macroName, more) ← ident? (skipSpace more)
            match skipSpace more with
            | '(' :: inner =>
              let (args, rest) ← args? n inner
              some (.call name macroName args, rest)
            | _ => none
          | '(' :: inner => (args? n inner).map fun (args, rest) => (.function name args, rest)
          | _ =>
            let (more, rest) := steps rest.length rest
            some (.path (name ++ String.ofList more), rest)

def args? : Nat → List Char → Option (List (String × Expr) × List Char)
  | 0, _ => none
  | n + 1, cs =>
    match skipSpace cs with
    | ')' :: rest => some ([], rest)
    | cs => do
      let (name, rest) ← ident? cs
      match skipSpace rest with
      | '=' :: rest =>
        let (value, rest) ← expr? n rest
        match skipSpace rest with
        | ',' :: rest =>
          let (args, rest) ← args? n rest
          some ((name, value) :: args, rest)
        | ')' :: rest => some ([(name, value)], rest)
        | _ => none
      | _ => none

end

def readExpr? (cs : List Char) : Option (Expr × List Char) := expr? (8 * cs.length + 8) cs

def readSource? (cs : List Char) : Option (Expr × List Char) := operand? (8 * cs.length + 8) cs

end ApiPages.Template
