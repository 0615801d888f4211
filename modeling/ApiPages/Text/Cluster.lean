import ApiPages.Text.Letter

/-!
Cutting a text into what a reader takes for one character each: a letter with its marks, a syllable
written in parts, a flag, a picture joined of several, a line end of two characters.
-/
namespace ApiPages.Text

def isControl (c : Char) : Bool :=
  covered [(0x0, 0x1f), (0x7f, 0x9f), (0xad, 0xad), (0x61c, 0x61c), (0x180e, 0x180e),
    (0x200b, 0x200b), (0x200e, 0x200f), (0x2028, 0x202e), (0x2060, 0x206f), (0xfeff, 0xfeff),
    (0xfff0, 0xfffb), (0xe0000, 0xe001f)] c.toNat

def isExtending (c : Char) : Bool :=
  let n := c.toNat
  n ≥ 0x80 && (covered LetterTable.mark n ||
    covered [(0xe33, 0xe33), (0xeb3, 0xeb3), (0x200c, 0x200d), (0xff9e, 0xff9f),
      (0x1f3fb, 0x1f3ff), (0xe0020, 0xe007f)] n)

def isJoinable (c : Char) : Bool :=
  covered [(0x2640, 0x2640), (0x2642, 0x2642), (0x2695, 0x2696), (0x2708, 0x2708),
    (0x2764, 0x2764), (0x1f308, 0x1f308), (0x1f33e, 0x1f33e), (0x1f373, 0x1f373),
    (0x1f393, 0x1f393), (0x1f3a4, 0x1f3a4), (0x1f3a8, 0x1f3a8), (0x1f3eb, 0x1f3eb),
    (0x1f3ed, 0x1f3ed), (0x1f466, 0x1f469), (0x1f48b, 0x1f48b), (0x1f4bb, 0x1f4bc),
    (0x1f527, 0x1f527), (0x1f52c, 0x1f52c), (0x1f5e8, 0x1f5e8), (0x1f680, 0x1f680),
    (0x1f692, 0x1f692)] c.toNat

def isFlagLetter (c : Char) : Bool := covered [(0x1f1e6, 0x1f1ff)] c.toNat

def isLead (c : Char) : Bool := covered [(0x1100, 0x115f), (0xa960, 0xa97c)] c.toNat

def isVowel (c : Char) : Bool := covered [(0x1160, 0x11a7), (0xd7b0, 0xd7c6)] c.toNat

def isTail (c : Char) : Bool := covered [(0x11a8, 0x11ff), (0xd7cb, 0xd7fb)] c.toNat

def isSyllable (c : Char) : Bool := covered [(0xac00, 0xd7a3)] c.toNat

def isOpenSyllable (c : Char) : Bool := isSyllable c && (c.toNat - 0xac00) % 28 == 0

def joins : List Char → Char → Bool
  | [], _ => false
  | last :: earlier, c =>
    if last == '\r' && c == '\n' then true
    else if isControl last || isControl c then false
    else isExtending c ||
      (last == '\u200d' && isJoinable c) ||
      (earlier == [] && isFlagLetter last && isFlagLetter c) ||
      (isLead last && (isLead c || isVowel c || isSyllable c)) ||
      ((isVowel last || isOpenSyllable last) && (isVowel c || isTail c)) ||
      ((isTail last || isSyllable last) && isTail c)

def clustersFrom (current : List Char) : List Char → List (List Char)
  | [] => [current.reverse]
  | c :: cs =>
    if joins current c then clustersFrom (c :: current) cs
    else current.reverse :: clustersFrom [c] cs

def clusters : List Char → List (List Char)
  | [] => []
  | c :: cs => clustersFrom [c] cs

end ApiPages.Text
