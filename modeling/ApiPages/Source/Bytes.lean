import ApiPages.Source.Block

/-!
Doc comments found by bytes. A `Cursor` stands at a byte of the text, and what it passes over it
passes byte by byte: an escape takes one byte with it, which may be the first of a character of
several or lie behind the end of the text. Text is cut out between two bytes, and that fails where
one of them is inside a character.
-/
namespace ApiPages.Source

def bytesOf (text : List Char) : List UInt8 := text.flatMap String.utf8EncodeChar

def byte (c : Char) : UInt8 := c.toUInt8

def isQuoteByte (b : UInt8) : Bool := b == byte '\'' || b == byte '"' || b == byte '\x60'

def isIdentByte (b : UInt8) : Bool :=
  (byte 'A' ≤ b && b ≤ byte 'Z') || (byte 'a' ≤ b && b ≤ byte 'z') ||
    (byte '0' ≤ b && b ≤ byte '9') || b == byte '_' || b == byte '$' || 0x80 ≤ b

structure Cut where
  start : Nat
  stop : Nat
  deriving DecidableEq, Repr

def cutAt? : Nat → List Char → Option (List Char × List Char)
  | 0, cs => some ([], cs)
  | _ + 1, [] => none
  | n + 1, c :: cs =>
    if n + 1 < c.utf8Size then none
    else (cutAt? (n + 1 - c.utf8Size) cs).map fun (front, behind) => (c :: front, behind)

def Cut.text? (text : List Char) (cut : Cut) : Option (List Char) :=
  if cut.start ≤ cut.stop then
    (cutAt? cut.stop text).bind fun (front, _) => (cutAt? cut.start front).map (·.2)
  else none

section Loops

variable (bytes : List UInt8)

theorem length_sub_lt {bytes : List UInt8} {i j : Nat} {b : UInt8} (h : bytes[i]? = some b)
    (hj : i < j) : bytes.length - j < bytes.length - i := by
  have hi := (List.getElem?_eq_some_iff.mp h).1
  omega

def passWhile (p : UInt8 → Bool) (i : Nat) : Nat :=
  match h : bytes[i]? with
  | none => i
  | some b => if p b then passWhile p (i + 1) else i
termination_by bytes.length - i
decreasing_by exact length_sub_lt h (Nat.lt_succ_self i)

/-- Where a regular expression ends: behind its closing slash, or in front of the newline when there
is none. -/
def patternEnd (inClass : Bool) (i : Nat) : Nat :=
  match h : bytes[i]? with
  | none => i
  | some b =>
    if b = byte '\\' ∧ (bytes[i + 1]?).any (· != byte '\n') then patternEnd inClass (i + 2)
    else if b = byte '\n' then i
    else if b = byte '[' then patternEnd true (i + 1)
    else if b = byte ']' then patternEnd false (i + 1)
    else if b = byte '/' ∧ ¬ inClass then i + 1
    else patternEnd inClass (i + 1)
termination_by bytes.length - i
decreasing_by all_goals exact length_sub_lt h (by omega)

def commentEnd? (line i : Nat) : Option (Nat × Nat) :=
  match h : bytes[i]? with
  | none => none
  | some b =>
    if b = byte '\n' then commentEnd? (line + 1) (i + 1)
    else if b = byte '*' ∧ bytes[i + 1]? = some (byte '/') then some (i + 2, line)
    else commentEnd? line (i + 1)
termination_by bytes.length - i
decreasing_by all_goals exact length_sub_lt h (Nat.lt_succ_self i)

/-- Where a string or a template literal ends, with the line there and whether it is closed. A
string is closed by a newline as well. -/
def quotedEnd (quote : UInt8) (line i : Nat) : Bool × Nat × Nat :=
  match h : bytes[i]? with
  | none => (false, line, i)
  | some b =>
    if b = byte '\\' then
      quotedEnd quote (if bytes[i + 1]? = some (byte '\n') then line + 1 else line) (i + 2)
    else if b = byte '\n' then
      if quote = byte '\x60' then quotedEnd quote (line + 1) (i + 1) else (true, line + 1, i + 1)
    else if b = quote then (true, line, i + 1)
    else quotedEnd quote line (i + 1)
termination_by bytes.length - i
decreasing_by all_goals exact length_sub_lt h (by omega)

def isDocAt (i : Nat) : Bool :=
  bytes[i + 2]? == some (byte '*') && bytes[i + 3]? != some (byte '*') &&
    bytes[i + 3]? != some (byte '/')

end Loops

structure Cursor where
  index : Nat := 0
  line : Nat := 1
  fresh : Bool := true
  nesting : Nesting := {}
  deriving DecidableEq, Repr

/-- What a cursor does at one byte: it moves on with what it cut out and found, or it stops where
something is never closed, or where a cut fails. -/
inductive Move where
  | next (cuts : List Cut) (found : List Block) (c : Cursor)
  | unclosed (line : Nat) (reason : String)
  | torn (cuts : List Cut)
  deriving DecidableEq, Repr

namespace Cursor

variable (text : List Char) (c : Cursor)

def comment : Move :=
  match commentEnd? (bytesOf text) c.line (c.index + 2) with
  | none => .unclosed c.line "unterminated comment"
  | some (stop, last) =>
    let c' := { c with index := stop, line := last }
    if isDocAt (bytesOf text) c.index then
      let behind : Cut := { start := stop, stop := (bytesOf text).length }
      let whole : Cut := { start := c.index, stop := stop }
      match behind.text? text with
      | none => .torn [behind]
      | some rest =>
        match whole.text? text with
        | none => .torn [behind, whole]
        | some raw => .next [behind, whole] [.of c.nesting raw c.line last rest] c'
    else .next [] [] c'

def quoted (quote : UInt8) : Move :=
  let (closed, line, stop) := quotedEnd (bytesOf text) quote c.line (c.index + 1)
  if !closed && quote == byte '\x60' then .unclosed c.line "unterminated template literal"
  else .next [] [] { c with index := stop, line := line, fresh := false }

def word : Move :=
  let stop := passWhile (bytesOf text) isIdentByte c.index
  let cut : Cut := { start := c.index, stop := stop }
  match cut.text? text with
  | none => .torn [cut]
  | some word =>
    .next [cut] [] { c with
      index := stop
      fresh := leadWords.contains word
      nesting := c.nesting.step (.word word) }

def mark (token : Token) : Move :=
  .next [] [] { c with index := c.index + 1, fresh := true, nesting := c.nesting.step token }

def move (b : UInt8) : Move :=
  let bytes := bytesOf text
  if b = byte '\n' then .next [] [] { c with index := c.index + 1, line := c.line + 1 }
  else if b = byte '/' ∧ bytes[c.index + 1]? = some (byte '/') then
    .next [] [] { c with index := passWhile bytes (· != byte '\n') c.index }
  else if b = byte '/' ∧ bytes[c.index + 1]? = some (byte '*') then c.comment text
  else if b = byte '/' ∧ c.fresh then
    .next [] [] { c with index := patternEnd bytes false (c.index + 1), fresh := false }
  else if isQuoteByte b then c.quoted text b
  else if b = byte '\x7b' then c.mark .leftBrace
  else if b = byte '\x7d' then c.mark .rightBrace
  else if isIdentByte b then c.word text
  else if b = byte ';' then c.mark .semicolon
  else if b = byte ' ' ∨ b = byte '\t' ∨ b = byte '\r' then
    .next [] [] { c with index := c.index + 1 }
  else .next [] [] { c with index := c.index + 1, fresh := !(b == byte ')' || b == byte ']') }

end Cursor

structure Outcome where
  cuts : List Cut
  result : Option (Except Problem (List Block))

def Cursor.scan (file : String) (text : List Char) : Nat → Cursor → Outcome
  | 0, _ => { cuts := [], result := some (.ok []) }
  | n + 1, c =>
    match (bytesOf text)[c.index]? with
    | none => { cuts := [], result := some (.ok []) }
    | some b =>
      match c.move text b with
      | .next cuts found c =>
        let behind := Cursor.scan file text n c
        { cuts := cuts ++ behind.cuts
          result := behind.result.map fun blocks => blocks.map (found ++ ·) }
      | .unclosed line reason =>
        { cuts := [], result := some (.error (.badSource file line reason)) }
      | .torn cuts => { cuts := cuts, result := none }

def scanBytes (file : String) (text : List Char) : Outcome :=
  Cursor.scan file text (bytesOf text).length {}

end ApiPages.Source
