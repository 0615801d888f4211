import ApiPages.Text.Line

/-!
Regular expressions. `Regular.read?` reads the usual notation: characters, `.`, classes in brackets,
`\d`, `\s` and `\w`, the edges `^`, `$` and `\b`, groups, alternatives and repetition. An expression
moves a set of positions in a text to the positions where its matches end.
-/
namespace ApiPages

namespace Regular

inductive Named where
  | digit | space | word
  deriving DecidableEq, Repr

def Named.has (c : Char) : Named → Bool
  | digit => Text.isDecimalDigit c
  | space => Text.isBlank c
  | word => Text.isWordChar c

inductive Member where
  | range (first last : Char)
  | named (kind : Named) (negated : Bool)
  deriving DecidableEq, Repr

def Member.has (c : Char) : Member → Bool
  | range first last => decide (first ≤ c) && decide (c ≤ last)
  | named kind negated => kind.has c != negated

end Regular

inductive Regular where
  | empty
  | one (negated : Bool) (members : List Regular.Member)
  | atStart
  | atEnd
  | edge (negated : Bool)
  | both (first second : Regular)
  | either (left right : Regular)
  | times (body : Regular) (least : Nat) (most : Option Nat)
  deriving Repr

namespace Regular

def char (c : Char) : Regular := .one false [.range c c]

def any : Regular := .one true [.range '\n' '\n']

def union (ps qs : List Nat) : List Nat := ps.filter (!qs.contains ·) ++ qs

def steps (f : List Nat → List Nat) : Nat → List Nat → List Nat
  | 0, ps => ps
  | n + 1, ps => steps f n (f ps)

def upTo (f : List Nat → List Nat) : Nat → List Nat → List Nat
  | 0, ps => ps
  | n + 1, ps => union ps (upTo f n (f ps))

def isEdge (t : Array Char) (i : Nat) : Bool :=
  let word (c : Option Char) := c.any Text.isWordChar
  word (if i = 0 then none else t[i - 1]?) != word t[i]?

/-- Where matches end that start at one of some positions. Without a bound, as many steps as the
text has characters reach everything. -/
def after (t : Array Char) : Regular → List Nat → List Nat
  | empty, ps => ps
  | one negated members, ps =>
    ps.filterMap fun i =>
      if t[i]?.any fun c => members.any (Member.has c) != negated then some (i + 1) else none
  | atStart, ps => ps.filter (· == 0)
  | atEnd, ps => ps.filter (· == t.size)
  | edge negated, ps => ps.filter fun i => isEdge t i != negated
  | both a b, ps => after t b (after t a ps)
  | either a b, ps => union (after t a ps) (after t b ps)
  | times r least most, ps =>
    let step := fun ps => after t r ps
    upTo step ((most.map (· - least)).getD t.size) (steps step least ps)

def isMatch (r : Regular) (text : String) : Bool :=
  let t := text.toList.toArray
  !(after t r (List.range (t.size + 1))).isEmpty

def named? (c : Char) : Option Member :=
  match c with
  | 'd' => some (.named .digit false)
  | 'D' => some (.named .digit true)
  | 's' => some (.named .space false)
  | 'S' => some (.named .space true)
  | 'w' => some (.named .word false)
  | 'W' => some (.named .word true)
  | _ => none

def escaped? (c : Char) : Option Char :=
  match c with
  | 'n' => some '\n'
  | 't' => some '\t'
  | 'r' => some '\r'
  | 'f' => some '\x0c'
  | 'v' => some '\x0b'
  | 'a' => some '\x07'
  | '<' | '>' => none
  | c => if c.toNat < 0x80 ∧ ¬ c.isAlphanum then some c else none

def member? (cs : List Char) : Option (Member × List Char) :=
  let single : List Char → Option (Member × List Char)
    | '\\' :: c :: rest =>
      ((named? c).or ((escaped? c).map fun c => .range c c)).map fun m => (m, rest)
    | '[' :: _ | '\\' :: _ | [] => none
    | c :: rest => some (.range c c, rest)
  match single cs with
  | some (.range first _, '-' :: c :: rest) =>
    if c = ']' then some (.range first first, '-' :: c :: rest)
    else match single (c :: rest) with
      | some (.range last _, rest) =>
        if first ≤ last then some (.range first last, rest) else none
      | _ => none
  | found => found

def members? : Nat → List Char → Option (List Member × List Char)
  | 0, _ => none
  | _ + 1, ']' :: rest => some ([], rest)
  | n + 1, cs =>
    (member? cs).bind fun (m, rest) => (members? n rest).map fun (ms, rest) => (m :: ms, rest)

/-- A class after its opening bracket; a closing bracket that comes first is a member. -/
def class? (cs : List Char) : Option (Regular × List Char) :=
  let (negated, cs) : Bool × List Char := match cs with
    | '^' :: rest => (true, rest)
    | cs => (false, cs)
  let found : Option (List Member × List Char) := match cs with
    | ']' :: rest => (members? (cs.length + 1) rest).map fun (ms, rest) => (.range ']' ']' :: ms, rest)
    | cs => members? (cs.length + 1) cs
  found.map fun (ms, rest) => (.one negated ms, rest)

def groupBody? : List Char → Option (List Char)
  | '?' :: ':' :: rest => some rest
  | '?' :: 'P' :: '<' :: rest | '?' :: '<' :: rest =>
    match Text.splitFirst? '>' rest with
    | some (c :: name, rest) =>
      if (c.isAlpha ∨ c = '_') ∧ name.all fun c => c.isAlphanum || c == '_' then some rest else none
    | _ => none
  | '?' :: _ => none
  | rest => some rest

def number? (cs : List Char) : Option (Nat × List Char) :=
  match cs.span Char.isDigit with
  | ([], _) => none
  | (ds, rest) => some (Nat.ofDigitChars 10 ds 0, rest)

def bounds? (cs : List Char) : Option ((Nat × Option Nat) × List Char) := do
  let (least, rest) ← number? cs
  match rest with
  | '}' :: rest => some ((least, some least), rest)
  | ',' :: '}' :: rest => some ((least, none), rest)
  | ',' :: rest =>
    let (most, rest) ← number? rest
    match rest with
    | '}' :: rest => if least ≤ most then some ((least, some most), rest) else none
    | _ => none
  | _ => none

/-- A repetition with what follows it; preference does not matter to whether there is a match. -/
def repetition? (cs : List Char) : Option ((Nat × Option Nat) × List Char) :=
  let found : Option ((Nat × Option Nat) × List Char) := match cs with
    | '*' :: rest => some ((0, none), rest)
    | '+' :: rest => some ((1, none), rest)
    | '?' :: rest => some ((0, some 1), rest)
    | '{' :: rest => bounds? rest
    | _ => none
  found.map fun (bounds, rest) => match rest with
    | '?' :: rest => (bounds, rest)
    | rest => (bounds, rest)

def repeated : Nat → Regular → List Char → Regular × List Char
  | 0, r, cs => (r, cs)
  | n + 1, r, cs =>
    match repetition? cs with
    | some ((least, most), rest) => repeated n (.times r least most) rest
    | none => (r, cs)

def atom? (inside : List Char → Option (Regular × List Char)) :
    List Char → Option (Regular × List Char)
  | '(' :: rest => do
    let (r, rest) ← inside (← groupBody? rest)
    match rest with
    | ')' :: rest => some (r, rest)
    | _ => none
  | '[' :: rest => class? rest
  | '.' :: rest => some (any, rest)
  | '^' :: rest => some (.atStart, rest)
  | '$' :: rest => some (.atEnd, rest)
  | '\\' :: c :: rest =>
    match c with
    | 'b' => some (.edge false, rest)
    | 'B' => some (.edge true, rest)
    | 'A' => some (.atStart, rest)
    | 'z' => some (.atEnd, rest)
    | c => ((named? c).map fun m => (.one false [m], rest)).or
        ((escaped? c).map fun c => (char c, rest))
  | '*' :: _ | '+' :: _ | '?' :: _ | '{' :: _ | '\\' :: _ => none
  | c :: rest => some (char c, rest)
  | [] => none

/-- Alternatives up to a closing parenthesis or the end. `sofar` holds what the current alternative
starts with; the count bounds the characters left. -/
def alternatives? : Nat → Regular → List Char → Option (Regular × List Char)
  | 0, _, _ => none
  | _ + 1, sofar, [] => some (sofar, [])
  | _ + 1, sofar, ')' :: rest => some (sofar, ')' :: rest)
  | n + 1, sofar, '|' :: rest =>
    (alternatives? n .empty rest).map fun (r, rest) => (.either sofar r, rest)
  | n + 1, sofar, cs => do
    let (r, rest) ← atom? (alternatives? n .empty) cs
    let (r, rest) := repeated rest.length r rest
    alternatives? n (.both sofar r) rest

def read? (pattern : String) : Option Regular :=
  let cs := pattern.toList
  match alternatives? (cs.length + 1) .empty cs with
  | some (r, []) => some r
  | _ => none

end Regular

end ApiPages
