import ApiPages.Text.Line

/-!
The scripts of a page. Everything outside the bodies of script elements gives way to the newlines
it holds, so that every line of a script keeps its number.
-/
namespace ApiPages.Source

inductive Piece where
  | outside (text : List Char)
  | script (body : List Char)
  deriving DecidableEq, Repr

/-- Whether a character stands for a lower-case letter in a search that ignores case; the long s
stands for an s. -/
def standsFor (letter c : Char) : Bool := c.toLower == letter || (letter == 's' && c == 'ſ')

def afterCaseless? (head cs : List Char) : Option (List Char) :=
  match head, cs with
  | [], cs => some cs
  | _ :: _, [] => none
  | h :: head, c :: cs => if standsFor h c then afterCaseless? head cs else none

def openTag? (cs : List Char) : Option (List Char × List Char) :=
  match afterCaseless? "<script".toList cs with
  | some (c :: rest) =>
    if Text.isWordChar c then none
    else match (c :: rest).span (· ≠ '>') with
      | (attributes, '>' :: rest) => some (cs.take 7 ++ attributes ++ ['>'], rest)
      | _ => none
  | _ => none

def atCloseTag (cs : List Char) : Bool :=
  match afterCaseless? "</script".toList cs with
  | some rest => (Text.trimStart rest).head? == some '>'
  | none => false

def bodyOf? : List Char → Option (List Char × List Char)
  | [] => none
  | c :: cs =>
    if atCloseTag (c :: cs) then some ([], c :: cs)
    else (bodyOf? cs).map fun (body, rest) => (c :: body, rest)

def piecesFrom : Nat → List Char → List Piece
  | 0, _ => []
  | _ + 1, [] => []
  | n + 1, c :: cs =>
    match openTag? (c :: cs) with
    | some (tag, rest) =>
      match bodyOf? rest with
      | some (body, rest) => .outside tag :: .script body :: piecesFrom n rest
      | none => .outside [c] :: piecesFrom n cs
    | none => .outside [c] :: piecesFrom n cs

def pieces (page : List Char) : List Piece := piecesFrom page.length page

def Piece.kept : Piece → List Char
  | .outside text => text.filter (· = '\n')
  | .script body => body

/-- The scripts of a page, each on the lines where the page has it. -/
def scripts (page : List Char) : List Char := (pieces page).flatMap Piece.kept

end ApiPages.Source
