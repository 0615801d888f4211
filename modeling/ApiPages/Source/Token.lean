import ApiPages.Text.Line

/-!
The tokens of program text that matter for its comments: words, braces, semicolons and block
comments. A `Lexer` reads one character at a time; strings, template literals, regular expression
literals and line comments pass by without a token. A slash opens a regular expression where an
expression may start, and divides elsewhere.
-/
namespace ApiPages.Source

inductive Token where
  | word (text : List Char)
  | leftBrace
  | rightBrace
  | semicolon
  | comment (text : List Char) (first last : Nat) (rest : List Char)
  deriving DecidableEq, Repr

inductive Mode where
  | code
  | word (letters : List Char)
  | slash
  | lineComment
  /-- A block comment: the line it opened on, its text with the last character first, and whether a
  star has just been read that may close it. -/
  | comment (first : Nat) (text : List Char) (star : Bool)
  | quoted (quote : Char) (first : Nat) (escaped : Bool)
  | pattern (inClass escaped : Bool)
  deriving DecidableEq, Repr

structure Lexer where
  mode : Mode := .code
  line : Nat := 1
  fresh : Bool := true
  deriving DecidableEq, Repr

/-- What a word is made of; every character beyond ASCII counts. -/
def isWordPart (c : Char) : Bool :=
  c.isAlphanum || c == '_' || c == '$' || 0x80 ≤ c.toNat

def isQuote (c : Char) : Bool := c == '\'' || c == '"' || c == '\x60'

def leadWords : List (List Char) :=
  ["return", "typeof", "instanceof", "in", "of", "new", "delete", "void", "throw", "case", "do",
    "else", "yield", "await"].map String.toList

namespace Lexer

def advance (l : Lexer) (c : Char) (mode : Mode) : Lexer :=
  { l with mode := mode, line := if c = '\n' then l.line + 1 else l.line }

def code (l : Lexer) (c : Char) : Lexer :=
  if c = '/' then { l with mode := .slash }
  else if isQuote c then { l with mode := .quoted c l.line false }
  else if isWordPart c then { l with mode := .word [c] }
  else if [' ', '\t', '\r', '\n'].contains c then l.advance c .code
  else { l with mode := .code, fresh := !(c == ')' || c == ']') }

def pattern (l : Lexer) (c : Char) (inClass escaped : Bool) : Lexer :=
  if c = '\n' then { l.advance c .code with fresh := false }
  else if escaped then { l with mode := .pattern inClass false }
  else if c = '\\' then { l with mode := .pattern inClass true }
  else if c = '[' then { l with mode := .pattern true false }
  else if c = ']' then { l with mode := .pattern false false }
  else if c = '/' ∧ ¬ inClass then { l with mode := .code, fresh := false }
  else { l with mode := .pattern inClass false }

/-- A character of a string or a template literal. A newline ends a string. -/
def quoted (l : Lexer) (c quote : Char) (first : Nat) (escaped : Bool) : Lexer :=
  if escaped then l.advance c (.quoted quote first false)
  else if c = '\\' then { l with mode := .quoted quote first true }
  else if c = quote ∨ (c = '\n' ∧ quote ≠ '\x60') then { l.advance c .code with fresh := false }
  else l.advance c (.quoted quote first false)

def wordDone (l : Lexer) (letters : List Char) : Lexer :=
  { l with mode := .code, fresh := leadWords.contains letters.reverse }

def step (l : Lexer) (c : Char) : Lexer :=
  match l.mode with
  | .code => l.code c
  | .word letters =>
    if isWordPart c then { l with mode := .word (c :: letters) } else (l.wordDone letters).code c
  | .slash =>
    if c = '/' then { l with mode := .lineComment }
    else if c = '*' then { l with mode := .comment l.line ['*', '/'] false }
    else if l.fresh then l.pattern c false false
    else { l with mode := .code, fresh := true }.code c
  | .lineComment => l.advance c (if c = '\n' then .code else .lineComment)
  | .comment first text star =>
    if star ∧ c = '/' then { l with mode := .code }
    else l.advance c (.comment first (c :: text) (c == '*'))
  | .quoted quote first escaped => l.quoted c quote first escaped
  | .pattern inClass escaped => l.pattern c inClass escaped

def markOf (c : Char) : List Token :=
  if c = '{' then [.leftBrace]
  else if c = '}' then [.rightBrace]
  else if c = ';' then [.semicolon]
  else []

theorem mem_markOf {c : Char} {t : Token} (h : t ∈ markOf c) :
    t = .leftBrace ∨ t = .rightBrace ∨ t = .semicolon := by
  simp only [markOf] at h
  repeat' split at h
  all_goals simp_all

theorem map_markOf {f : Token → Token} (hleft : f .leftBrace = .leftBrace)
    (hright : f .rightBrace = .rightBrace) (hsemicolon : f .semicolon = .semicolon) (c : Char) :
    (markOf c).map f = markOf c := by
  have hfixed : ∀ t ∈ markOf c, f t = t := by
    intro t ht
    rcases mem_markOf ht with rfl | rfl | rfl <;> assumption
  exact (List.map_congr_left hfixed).trans (List.map_id' _)

def emit (l : Lexer) (c : Char) (rest : List Char) : List Token :=
  match l.mode with
  | .code => markOf c
  | .word letters => if isWordPart c then [] else .word letters.reverse :: markOf c
  | .slash => if c = '/' ∨ c = '*' ∨ l.fresh then [] else markOf c
  | .comment first text star =>
    if star ∧ c = '/' then [.comment (c :: text).reverse first l.line rest] else []
  | _ => []

def close (l : Lexer) : List Token :=
  match l.mode with
  | .word letters => [.word letters.reverse]
  | _ => []

def run (l : Lexer) (cs : List Char) : Lexer := cs.foldl step l

theorem run_append (l : Lexer) (s t : List Char) : l.run (s ++ t) = (l.run s).run t := by
  simp [run]

def tokens (l : Lexer) : List Char → List Token
  | [] => l.close
  | c :: cs => l.emit c cs ++ (l.step c).tokens cs

def unclosed? (l : Lexer) : Option (Nat × String) :=
  match l.mode with
  | .comment first _ _ => some (first, "unterminated comment")
  | .quoted '\x60' first _ => some (first, "unterminated template literal")
  | _ => none

end Lexer

end ApiPages.Source
