import ApiPages.Source.Token
import ApiPages.Failure

/-!
Doc comments with the code they document. A doc comment opens with two stars and belongs to the
first line of code after it; a `Nesting` knows which class body it stands in.
-/
namespace ApiPages.Source

structure Enclosing where
  name : List Char
  direct : Bool
  deriving DecidableEq, Repr

structure Nesting where
  depth : Nat := 0
  /-- The classes whose bodies are open, the innermost first, with the depth of each body. -/
  classes : List (List Char × Nat) := []
  announced : Option (List Char) := none
  lastWord : List Char := []
  deriving DecidableEq, Repr

namespace Nesting

def step (n : Nesting) : Token → Nesting
  | .word text =>
    { n with
      announced := if n.lastWord = "class".toList then some text else n.announced
      lastWord := text }
  | .leftBrace =>
    { depth := n.depth + 1
      classes := (n.announced.toList.map fun name => (name, n.depth + 1)) ++ n.classes }
  | .rightBrace =>
    { n with
      depth := n.depth - 1
      classes := match n.classes with
        | (name, depth) :: outer => if depth = n.depth then outer else (name, depth) :: outer
        | [] => []
      lastWord := [] }
  | .semicolon => { n with announced := none, lastWord := [] }
  | .comment _ _ _ _ => n

def run (n : Nesting) (ts : List Token) : Nesting := ts.foldl step n

def enclosing (n : Nesting) : Option Enclosing :=
  n.classes.head?.map fun (name, depth) => { name := name, direct := depth == n.depth }

end Nesting

structure Block where
  comment : List Char
  line : Nat
  code : Option (List Char) := none
  /-- The line of the code, or of the end of the comment when there is none. -/
  codeLine : Nat
  enclosing : Option Enclosing := none
  deriving DecidableEq, Repr

/-- Whether a block comment is a doc comment: it opens with exactly two stars and is not empty. -/
def isDoc : List Char → Bool
  | _ :: _ :: '*' :: c :: _ => c != '*' && c != '/'
  | _ => false

/-- The first line that holds code, with its number; blank lines and line comments are passed over,
and a block comment at the head of a line means that there is none. -/
def codeFrom (line : Nat) : List (List Char) → Option (List Char × Nat)
  | [] => none
  | text :: more =>
    let text := Text.trim text
    if text = [] ∨ Text.startsWith ['/', '/'] text then codeFrom (line + 1) more
    else if Text.startsWith ['/', '*'] text then none
    else some (text, line)

def Block.of (n : Nesting) (comment : List Char) (first last : Nat) (rest : List Char) : Block :=
  let code := codeFrom last (Text.split '\n' rest)
  { comment := comment, line := first, code := code.map (·.1)
    codeLine := (code.map (·.2)).getD last, enclosing := n.enclosing }

def Nesting.block (n : Nesting) : Token → List Block
  | .comment text first last rest => if isDoc text then [.of n text first last rest] else []
  | _ => []

def Nesting.blocks (n : Nesting) : List Token → List Block
  | [] => []
  | t :: ts => n.block t ++ (n.step t).blocks ts

theorem Nesting.blocks_append (n : Nesting) (ts us : List Token) :
    n.blocks (ts ++ us) = n.blocks ts ++ (n.run ts).blocks us := by
  induction ts generalizing n with
  | nil => rfl
  | cons t ts ih => simp [blocks, run, ih]

/-- The doc comments of a text in order. A comment or a template literal that is never closed makes
the whole text unreadable. -/
def scan (file : String) (text : List Char) : Except Problem (List Block) :=
  match (Lexer.run {} text).unclosed? with
  | some (line, reason) => .error (.badSource file line reason)
  | none => .ok (Nesting.blocks {} (Lexer.tokens {} text))

end ApiPages.Source
