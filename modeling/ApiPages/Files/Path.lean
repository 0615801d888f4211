import ApiPages.Text.Line

/-!
Path texts. A path is read as its parts: an opening slash, a leading dot, steps up and names; empty
parts and further dots do not count. Paths are compared and ordered by their parts.
-/
namespace ApiPages

namespace Path

inductive Part where
  | root
  | here
  | up
  | name (text : String)
  deriving DecidableEq, Repr

def Part.rank : Part → Nat
  | root => 0
  | here => 1
  | up => 2
  | name _ => 3

def Part.le : Part → Part → Bool
  | name a, name b => decide (a ≤ b)
  | a, b => a.rank ≤ b.rank

/-- What a path opens with, and the pieces between the slashes of the rest. Pieces at the end that
do not count are dropped. -/
def cut (path : String) : List Char × List (List Char) :=
  let (head, body) : List Char × List Char := match path.toList with
    | '/' :: rest => (['/'], rest)
    | ['.'] => (['.'], [])
    | '.' :: '/' :: rest => (['.'], '/' :: rest)
    | cs => ([], cs)
  (head, ((Text.split '/' body).reverse.dropWhile fun p => p == [] || p == ['.']).reverse)

def glue (head : List Char) (pieces : List (List Char)) : String :=
  String.ofList (head ++ Text.join ['/'] pieces)

def parts (path : String) : List Part :=
  let (head, pieces) := cut path
  (if head = ['/'] then [.root] else if head = ['.'] then [.here] else []) ++
    (pieces.filter fun p => p ≠ [] ∧ p ≠ ['.']).map fun p =>
      if p = ['.', '.'] then .up else .name (String.ofList p)

def lePartwise : List Part → List Part → Bool
  | [], _ => true
  | _ :: _, [] => false
  | a :: as, b :: bs => if a = b then lePartwise as bs else a.le b

def le (a b : String) : Bool := lePartwise (parts a) (parts b)

def same (a b : String) : Bool := parts a == parts b

def isBelow (path folder : String) : Bool := (parts folder).isPrefixOf (parts path)

def isAbsolute (path : String) : Bool := path.toList.head? == some '/'

def join (folder path : String) : String :=
  if isAbsolute path then path
  else match folder.toList.getLast? with
    | none => path
    | some '/' => folder ++ path
    | some _ => folder ++ "/" ++ path

def fileName? (path : String) : Option String :=
  match (cut path).2.getLast? with
  | some piece => if piece = ['.', '.'] then none else some (String.ofList piece)
  | none => none

def parent? (path : String) : Option String :=
  let (head, pieces) := cut path
  if pieces = [] then if head = ['.'] then some "" else none
  else
    let before := (pieces.dropLast.reverse.dropWhile fun p => p == [] || p == ['.']).reverse
    some (glue head before)

/-- A file name before and after its last dot; a dot that leads the name does not count. -/
def splitName (name : String) : String × Option String :=
  match Text.splitFirst? '.' name.toList.reverse with
  | some (after, before) =>
    if before = [] then (name, none)
    else (String.ofList before.reverse, some (String.ofList after.reverse))
  | none => (name, none)

def stem? (path : String) : Option String := (fileName? path).map fun name => (splitName name).1

def extension? (path : String) : Option String :=
  (fileName? path).bind fun name => (splitName name).2

def withExtension (path extension : String) : String :=
  match fileName? path with
  | some name =>
    let (head, pieces) := cut path
    glue head (pieces.dropLast ++ [((splitName name).1 ++ "." ++ extension).toList])
  | none => path

def hasExtension (extensions : List String) (path : String) : Bool :=
  (extension? path).any fun e => extensions.contains (String.ofList (e.toList.map Char.toLower))

end Path

end ApiPages
