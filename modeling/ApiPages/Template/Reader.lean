import ApiPages.Template.Expression

/-!
Reading templates. A template begins with comments and with the macros that it loads, which leave no
trace in its text. Then come the pieces, text and tags, and then their nesting. A dash inside a tag
takes the blanks off the text on its side.
-/
namespace ApiPages.Template

inductive Tag where
  | print (value : Expr)
  | comment
  | ifHead (condition : Expr)
  | elifHead (condition : Expr)
  | elseHead
  | ifEnd
  | forHead (variableName : String) (source : Expr)
  | forEnd
  | use (template : String)
  | macroHead (macroName : String) (params : List Param)
  | macroEnd

def Tag.isEnd : Tag → Bool
  | .elifHead _ | .elseHead | .ifEnd | .forEnd | .macroEnd => true
  | _ => false

inductive Piece where
  | text (cs : List Char)
  | tag (before behind : Bool) (what : Tag)

def mayDash : List Char → Bool × List Char
  | '-' :: rest => (true, rest)
  | cs => (false, cs)

def tagEnd? (delimiter cs : List Char) : Option (Bool × List Char) :=
  let (dash, rest) := mayDash (skipSpace cs)
  (Text.after? delimiter rest).map fun rest => (dash, rest)

def commentEnd? : List Char → Option (Bool × List Char)
  | '-' :: '#' :: '\x7d' :: rest => some (true, rest)
  | '#' :: '\x7d' :: rest => some (false, rest)
  | _ => none

def commentBody? : List Char → Option (Bool × List Char)
  | [] => none
  | c :: rest => (commentEnd? (c :: rest)).or (commentBody? rest)

def comment? : List Char → Option (Piece × List Char)
  | '\x7b' :: '#' :: rest =>
    let (before, rest) := mayDash rest
    match commentEnd? rest with
    | some _ => none
    | none => (commentBody? rest).map fun (behind, rest) => (.tag before behind .comment, rest)
  | _ => none

def param? (cs : List Char) : Option (Param × List Char) := do
  let (name, rest) ← ident? (skipSpace cs)
  match skipSpace rest with
  | '=' :: value =>
    let (value, rest) ← literal? (skipSpace value)
    some (⟨name, some value⟩, rest)
  | _ => some (⟨name, none⟩, rest)

def moreParams? : Nat → List Char → Option (List Param × List Char)
  | 0, _ => none
  | n + 1, cs =>
    match skipSpace cs with
    | ')' :: rest => some ([], rest)
    | ',' :: rest => do
      let (param, rest) ← param? rest
      let (params, rest) ← moreParams? n rest
      some (param :: params, rest)
    | _ => none

def params? (cs : List Char) : Option (List Param × List Char) :=
  match skipSpace cs with
  | ')' :: rest => some ([], rest)
  | cs => do
    let (param, rest) ← param? cs
    let (params, rest) ← moreParams? (rest.length + 1) rest
    some (param :: params, rest)

def useTag? (cs : List Char) : Option (Tag × List Char) := do
  let rest ← word? "include" cs
  let (name, rest) ← quoted? rest
  some (.use name, rest)

def macroTag? (cs : List Char) : Option (Tag × List Char) := do
  let rest ← word? "macro" cs
  let (name, rest) ← ident? rest
  match skipSpace rest with
  | '(' :: inner =>
    let (params, rest) ← params? inner
    some (.macroHead name params, rest)
  | _ => none

def forTag? (cs : List Char) : Option (Tag × List Char) := do
  let rest ← word? "for" cs
  let (name, rest) ← ident? rest
  let rest ← spaced? rest
  let rest ← word? "in" rest
  let (source, rest) ← readSource? rest
  some (.forHead name source, rest)

def choiceTag? (cs : List Char) : Option (Tag × List Char) :=
  match word? "if" cs with
  | some rest => (readExpr? rest).map fun (e, rest) => (.ifHead e, rest)
  | none => do
    let rest ← word? "elif" cs
    let (e, rest) ← readExpr? rest
    some (.elifHead e, rest)

/-- A tag of one word. The end of a macro may give a name, which need not be that of the macro. -/
def bareTag? (cs : List Char) : Option (Tag × List Char) :=
  match Text.after? "endmacro".toList cs with
  | some rest => some (.macroEnd, ((ident? (skipSpace rest)).map (·.2)).getD rest)
  | none =>
    [("else", Tag.elseHead), ("endif", .ifEnd), ("endfor", .forEnd)].findSome? fun (word, tag) =>
      (Text.after? word.toList cs).map fun rest => (tag, rest)

def statement? (cs : List Char) : Option (Tag × List Char) :=
  useTag? cs <|> macroTag? cs <|> choiceTag? cs <|> forTag? cs <|> bareTag? cs

def tagAt? (cs : List Char) : Option (Option (Piece × List Char)) :=
  match cs with
  | '\x7b' :: '\x7b' :: rest =>
    let (before, rest) := mayDash rest
    some do
      let (e, rest) ← readExpr? rest
      let (behind, rest) ← tagEnd? ['\x7d', '\x7d'] rest
      some (.tag before behind (.print e), rest)
  | '\x7b' :: '%' :: rest =>
    let (before, rest) := mayDash rest
    some do
      let (t, rest) ← statement? (skipSpace rest)
      let (behind, rest) ← tagEnd? ['%', '\x7d'] rest
      some (.tag before behind t, rest)
  | '\x7b' :: '#' :: _ => some (comment? cs)
  | _ => none

def pieces? : Nat → List Char → Option (List Piece)
  | 0, _ => some []
  | _ + 1, [] => some []
  | n + 1, c :: cs =>
    match tagAt? (c :: cs) with
    | some (some (piece, rest)) => (pieces? n rest).map (piece :: ·)
    | some none => none
    | none =>
      (pieces? n cs).map fun
        | .text more :: pieces => .text (c :: more) :: pieces
        | pieces => .text [c] :: pieces

structure Place where
  mayDefine : Bool
  trims : Bool
  deriving DecidableEq, Repr

def Place.inner (p : Place) : Place := { p with mayDefine := false }

def trimLast : List Node → List Node
  | [] => []
  | [.text s] => [.text (String.ofList (Text.trimEnd s.toList))]
  | node :: nodes => node :: trimLast nodes

def Place.close (p : Place) (before : Bool) (nodes : List Node) : List Node :=
  if p.trims ∧ before then trimLast nodes else nodes

/-- A text as the tags around it leave it. The tag that ends the nodes is left to whoever reads
it. -/
def Place.trim (p : Place) (after : Bool) (cs : List Char) (next : List Piece) : List Char :=
  if p.trims then
    let cs := if after then Text.trimStart cs else cs
    match next with
    | .tag true _ what :: _ => if what.isEnd then cs else Text.trimEnd cs
    | _ => cs
  else cs

mutual

def nodes? : Nat → Place → Bool → List Piece → Option (List Node × List Piece)
  | 0, _, _, _ => none
  | _ + 1, _, _, [] => some ([], [])
  | n + 1, p, after, .text cs :: pieces =>
    (nodes? n p false pieces).map fun (nodes, rest) =>
      (.text (String.ofList (p.trim after cs pieces)) :: nodes, rest)
  | n + 1, p, _, .tag before behind what :: pieces =>
    let more (node : Node) (behind : Bool) (pieces : List Piece) : Option (List Node × List Piece) :=
      (nodes? n p behind pieces).map fun (nodes, rest) => (node :: nodes, rest)
    match what with
    | .print e => more (.print e) behind pieces
    | .comment => more (.text "") behind pieces
    | .use name => more (.use name) behind pieces
    | .forHead name source => do
      let (body, rest) ← nodes? n p.inner behind pieces
      let (otherwise, rest) ← otherwise? n [] rest
      match rest with
      | .tag before behind .forEnd :: rest =>
        more (.loop name source (p.close before body) otherwise) behind rest
      | _ => none
    | .macroHead name params =>
      if p.mayDefine then do
        match ← nodes? n p.inner behind pieces with
        | (body, .tag before behind .macroEnd :: rest) =>
          more (.define name params (p.close before body)) behind rest
        | _ => none
      else none
    | .ifHead condition => do
      let (node, behind, rest) ← branch? n p condition behind pieces
      more node behind rest
    | _ => some ([], .tag before behind what :: pieces)

/-- What a loop without items shows instead of its body; no blanks are taken off there, and of
several such parts the last one counts. -/
def otherwise? : Nat → List Node → List Piece → Option (List Node × List Piece)
  | 0, _, _ => none
  | n + 1, _, .tag _ _ .elseHead :: pieces => do
    let (nodes, rest) ← nodes? n { mayDefine := false, trims := false } false pieces
    otherwise? n nodes rest
  | _ + 1, nodes, pieces => some (nodes, pieces)

def branch? : Nat → Place → Expr → Bool → List Piece → Option (Node × Bool × List Piece)
  | 0, _, _, _, _ => none
  | n + 1, p, condition, after, pieces => do
    let (body, rest) ← nodes? n p after pieces
    match rest with
    | .tag before behind .ifEnd :: rest =>
      some (.branch condition (p.close before body) [], behind, rest)
    | .tag before behind .elseHead :: rest =>
      match ← nodes? n p behind rest with
      | (otherwise, .tag beforeEnd behind .ifEnd :: rest) =>
        some (.branch condition (p.close before body) (p.close beforeEnd otherwise), behind, rest)
      | _ => none
    | .tag before behind (.elifHead next) :: rest =>
      let (node, behind, rest) ← branch? n p next behind rest
      some (.branch condition (p.close before body) [node], behind, rest)
    | _ => none

end

def skipComments : Nat → List Char → List Char
  | 0, cs => cs
  | n + 1, cs =>
    match comment? cs with
    | some (_, rest) => skipComments n rest
    | none => cs

def load? (cs : List Char) : Option (Node × Bool × List Char) :=
  match cs with
  | '\x7b' :: '%' :: rest => do
    let rest ← word? "import" (skipSpace (mayDash rest).2)
    let (template, rest) ← quoted? rest
    let rest ← spaced? rest
    let rest ← word? "as" rest
    let (library, rest) ← ident? rest
    let (behind, rest) ← tagEnd? ['%', '\x7d'] rest
    some (.load template library, behind, rest)
  | _ => none

/-- The macros that are loaded at the head of a text, the text after them, and whether blanks are
taken off its head; the spaces around the tags go with them. The count bounds their number. -/
def loads (after : Bool) : Nat → List Char → List Node × Bool × List Char
  | 0, cs => ([], after, cs)
  | n + 1, cs =>
    match load? (skipSpace cs) with
    | some (node, behind, rest) =>
      let (nodes, after, rest) := loads behind n (skipSpace rest)
      (node :: nodes, after, rest)
    | none => ([], after, cs)

def nodesOf? (text : String) : Option (List Node) := do
  let cs := skipComments text.length text.toList
  let (loaded, after, cs) := loads false cs.length cs
  let pieces ← pieces? cs.length cs
  match ← nodes? (3 * pieces.length + 3) { mayDefine := true, trims := true } after pieces with
  | (nodes, []) => some (loaded ++ nodes)
  | _ => none

inductive Refusal where
  | unreadable
  | outOfBounds (value : Int)
  | twice (macroName : String)
  deriving DecidableEq, Repr

def outOfBounds? (nodes : List Node) : Option Int :=
  (allNumbers nodes).findSome? fun
    | .whole value => if Number.fitsSigned value then none else some value
    | .decimal _ _ _ => none

def repeated? : List String → List String → Option String
  | _, [] => none
  | seen, name :: names => if seen.contains name then some name else repeated? (name :: seen) names

def Named.read (name text : String) : Except Refusal Named :=
  match nodesOf? text with
  | none => .error .unreadable
  | some nodes =>
    let t : Named := ⟨name, nodes⟩
    match outOfBounds? nodes, repeated? [] (t.macros.map (·.name)) with
    | some value, _ => .error (.outOfBounds value)
    | none, some macroName => .error (.twice macroName)
    | none, none => .ok t

end ApiPages.Template
