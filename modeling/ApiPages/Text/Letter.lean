import ApiPages.Text.LetterTable

/-!
Character classes and the lower-case mapping. ASCII is decided by rule; beyond it the tables of
`LetterTable` decide. Blank is the Unicode property White_Space, a word character is a letter,
mark, decimal digit, connector or joiner.
-/
namespace ApiPages.Text

def covered (ranges : List (Nat × Nat)) (n : Nat) : Bool :=
  ranges.any fun r => r.1 ≤ n && n ≤ r.2

def isBlank (c : Char) : Bool :=
  let n := c.toNat
  covered [(0x9, 0xd), (0x20, 0x20), (0x85, 0x85), (0xa0, 0xa0), (0x1680, 0x1680),
    (0x2000, 0x200a), (0x2028, 0x2029), (0x202f, 0x202f), (0x205f, 0x205f), (0x3000, 0x3000)] n

def isLetter (c : Char) : Bool :=
  if c.toNat < 0x80 then c.isAlpha else covered LetterTable.alphabetic c.toNat

def isDecimalDigit (c : Char) : Bool :=
  if c.toNat < 0x80 then c.isDigit else covered LetterTable.decimalDigit c.toNat

def isLetterOrNumber (c : Char) : Bool :=
  isLetter c || isDecimalDigit c || covered LetterTable.otherNumber c.toNat

def isWordChar (c : Char) : Bool :=
  if c.toNat < 0x80 then c.isAlphanum || c == '_'
  else isLetter c || isDecimalDigit c || covered LetterTable.mark c.toNat ||
    covered LetterTable.connector c.toNat || c.toNat == 0x200c || c.toNat == 0x200d

def isCased (c : Char) : Bool :=
  if c.toNat < 0x80 then c.isAlpha else covered LetterTable.cased c.toNat

def isCaseIgnorable (c : Char) : Bool :=
  if c.toNat < 0x80 then ['\'', '.', ':', '^', '\x60'].contains c
  else covered LetterTable.caseIgnorable c.toNat

def LetterTable.CaseRun.lower? (r : LetterTable.CaseRun) (n : Nat) : Option Nat :=
  if r.first ≤ n ∧ n ≤ r.last ∧ (n - r.first) % r.stride = 0 then some (r.target + (n - r.first))
  else none

/-- The lower-case form of one character; only the dotted capital I has two characters. -/
def lowerChar (c : Char) : List Char :=
  if c.toNat < 0x80 then [c.toLower]
  else if c.toNat = 0x130 then ['i', '\u0307']
  else match LetterTable.lowerCase.findSome? (·.lower? c.toNat) with
    | some n => [Char.ofNat n]
    | none => [c]

def casedAhead (cs : List Char) : Bool :=
  match cs.dropWhile isCaseIgnorable with
  | [] => false
  | c :: _ => isCased c

/-- Lower case with the characters already passed, nearest first: a capital sigma that ends a word
becomes the final sigma. -/
def lowerFrom (passed : List Char) : List Char → List Char
  | [] => []
  | c :: cs =>
    (if c = 'Σ' then [if casedAhead passed && !casedAhead cs then 'ς' else 'σ'] else lowerChar c) ++
      lowerFrom (c :: passed) cs

def lower (cs : List Char) : List Char := lowerFrom [] cs

end ApiPages.Text
