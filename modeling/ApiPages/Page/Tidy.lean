import ApiPages.Text.Line

/-!
The last pass over a page. Outside of fences and indented code a run of blank lines becomes one,
none leads the page, and a page that is not empty ends with one newline.
-/
namespace ApiPages.Tidy

def isIndented (line : List Char) : Bool :=
  match line with
  | '\t' :: _ => true
  | ' ' :: ' ' :: ' ' :: ' ' :: _ => true
  | _ => false

def isFence (line : List Char) : Bool :=
  Text.startsWith ['\x60', '\x60', '\x60'] (Text.trimStart line)

def nextIndented (lines : List (List Char)) : Bool :=
  ((lines.dropWhile Text.isBlankLine).head?).any isIndented

/-- The lines to keep. `fenced` tells whether a fence is open, `indented` whether the last line kept
as it is was indented, and `last` is the last line kept. -/
def keep (fenced indented : Bool) (last : Option (List Char)) :
    List (List Char) → List (List Char)
  | [] => []
  | line :: more =>
    let fenced := fenced != isFence line
    if Text.isBlankLine line && !fenced then
      if !(indented && nextIndented more) && last.all (· == []) then keep fenced indented last more
      else [] :: keep fenced indented (some []) more
    else line :: keep fenced (isIndented line) (some line) more

def tidyLines (lines : List (List Char)) : List (List Char) :=
  ((keep false false none lines).reverse.dropWhile (· == [])).reverse

def tidy (text : List Char) : List Char :=
  match tidyLines (Text.lines text) with
  | [] => []
  | lines => Text.join ['\n'] lines ++ ['\n']

end ApiPages.Tidy
