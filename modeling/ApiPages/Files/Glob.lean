import ApiPages.Files.Disk

/-!
Patterns for paths. In a name `?` stands for one character, `*` for any number of them and a class
in brackets for one of its members; `**` alone between slashes stands for any number of folders.
A pattern is checked as a whole, then read piece by piece between its slashes.
-/
namespace ApiPages.Glob

inductive Member where
  | one (c : Char)
  | range (first last : Char)
  deriving DecidableEq, Repr

def Member.has (c : Char) : Member → Bool
  | one d => c == d
  | range first last => decide (first ≤ c) && decide (c ≤ last)

inductive Token where
  | char (c : Char)
  | any
  | star
  | deep
  | within (members : List Member)
  | except (members : List Member)
  deriving DecidableEq, Repr

structure Fault where
  position : Nat
  reason : String
  deriving DecidableEq, Repr

def Fault.message (f : Fault) : String :=
  "Pattern syntax error near position " ++ toString f.position ++ ": " ++ f.reason

def tooManyStars : String := "wildcards are either regular \x60*\x60 or recursive \x60**\x60"

def starsNotAlone : String := "recursive wildcards must form a single path component"

def brokenClass : String := "invalid range pattern"

def members : List Char → List Member
  | a :: '-' :: b :: cs => .range a b :: members cs
  | c :: cs => .one c :: members cs
  | [] => []

/-- The inside of a class and what follows it. The first character is inside even if it is a
closing bracket. -/
def classBody? : List Char → Option (List Char × List Char)
  | [] => none
  | c :: cs => (Text.splitFirst? ']' cs).map fun (inside, rest) => (c :: inside, rest)

def class? : List Char → Option (Token × List Char)
  | '!' :: cs => (classBody? cs).map fun (inside, rest) => (.except (members inside), rest)
  | cs => (classBody? cs).map fun (inside, rest) => (.within (members inside), rest)

def readFrom : Nat → Nat → Option Char → List Char → Except Fault (List Token)
  | 0, _, _, _ => .ok []
  | _ + 1, _, _, [] => .ok []
  | n + 1, i, before, c :: cs =>
    if c = '?' then (readFrom n (i + 1) c cs).map (.any :: ·)
    else if c = '*' then
      let (stars, rest) := cs.span (· == '*')
      match stars with
      | [] => (readFrom n (i + 1) c rest).map (.star :: ·)
      | [_] =>
        if before = none ∨ before = some '/' then
          match rest with
          | [] => .ok [.deep]
          | '/' :: rest => (readFrom n (i + 3) '/' rest).map (.deep :: ·)
          | _ => .error ⟨i + 2, starsNotAlone⟩
        else .error ⟨i - 1, starsNotAlone⟩
      | _ => .error ⟨i + 2, tooManyStars⟩
    else if c = '[' then
      match class? cs with
      | some (token, rest) => (readFrom n (i + 1 + (cs.length - rest.length)) ']' rest).map (token :: ·)
      | none => .error ⟨i, brokenClass⟩
    else (readFrom n (i + 1) c cs).map (.char c :: ·)

def tokens (cs : List Char) : Except Fault (List Token) := readFrom cs.length 0 none cs

def literal? (ts : List Token) : Option String :=
  let plain : Token → Option Char
    | .char c => some c
    | _ => none
  (ts.mapM plain).map String.ofList

def anySuffix (p : List Char → Bool) : List Char → Bool
  | [] => p []
  | c :: cs => p (c :: cs) || anySuffix p cs

def fits : List Token → List Char → Bool
  | [], cs => cs == []
  | .star :: ts, cs => anySuffix (fits ts) cs
  | .deep :: ts, cs => anySuffix (fits ts) cs
  | _ :: _, [] => false
  | .char c :: ts, d :: cs => c == d && fits ts cs
  | .any :: ts, _ :: cs => fits ts cs
  | .within ms :: ts, d :: cs => ms.any (Member.has d) && fits ts cs
  | .except ms :: ts, d :: cs => !ms.any (Member.has d) && fits ts cs

end Glob

structure Glob where
  isAbsolute : Bool
  pieces : List (List Glob.Token)
  foldersOnly : Bool
  deriving DecidableEq, Repr

namespace Glob

def cutPieces (cs : List Char) : List (List Char) :=
  let found := Text.split '/' cs
  if found.getLast? = some [] then found.dropLast else found

def read (pattern : String) : Except Fault Glob := do
  let cs := pattern.toList
  let _ ← tokens cs
  let isAbsolute := Path.isAbsolute pattern
  let body := if isAbsolute then cs.tail else cs
  let found ← (cutPieces body).mapM tokens
  pure {
    isAbsolute
    pieces := if body = [] then [[]] else found
    foldersOnly := cs.getLast? = some '/' }

/-- A name seen from a folder; what is seen from the current folder is named without it. -/
def child (path name : String) : String := if Path.same path "." then name else Path.join path name

def visit (d : Disk) (go : List (List Token) → String → List String) (ps : List (List Token))
    (path : String) : List String :=
  let here : List (List Token) → List String
    | [] => []
    | p :: more =>
      if (Path.fileName? path).any fun name => fits p name.toList then
        if more = [] then [path] else go more path
      else []
  match ps with
  | [.deep] :: ps =>
    let more := ps.dropWhile (· == [.deep])
    let inside := if d.isFolder path then go ([.deep] :: more) path else []
    let itself := if more = [] then if d.isFolder path then [path] else [] else here more
    inside ++ itself
  | ps => here ps

/-- The paths that pieces lead to. A piece that is plain text is looked up, any other is compared
with everything in the folder. The count bounds the pieces and folders passed. -/
def follow (d : Disk) : Nat → List (List Token) → String → List String
  | 0, _, _ => []
  | _ + 1, [], _ => []
  | n + 1, p :: ps, path =>
    let reach (next : String) := if ps = [] then [next] else follow d n ps next
    match literal? p with
    | some name =>
      let next := child path name
      if name = "." ∨ name = ".." then if d.isFolder path then reach next else []
      else if d.holds next then reach next else []
    | none =>
      let listed := ((d.list? path).getD []).flatMap fun name =>
        visit d (follow d n) (p :: ps) (child path name)
      let special := if p.head? = some (.char '.') ∧ d.isFolder path then
          [".", ".."].flatMap fun name =>
            if fits p name.toList then reach (Path.join path name) else []
        else []
      listed ++ special

def paths (g : Glob) (d : Disk) : List String :=
  let found := follow d ((g.pieces.length + 1) * (d.items.length + 2)) g.pieces
    (if g.isAbsolute then "/" else ".")
  if g.foldersOnly then found.filter d.isFolder else found

def files (g : Glob) (d : Disk) : List String := ((g.paths d).filter d.isFile).mergeSort Path.le

end Glob

end ApiPages
