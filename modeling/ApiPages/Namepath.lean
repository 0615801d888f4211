import ApiPages.Kind

/-!
Namepaths: a parent, a separator that tells the scope, and a child. Separators inside double quotes
do not count.
-/
namespace ApiPages.Namepath

def scopeOf? (c : Char) : Option Scope :=
  if c = '.' then some .staticScope
  else if c = '#' then some .instanceScope
  else if c = '~' then some .innerScope
  else none

def lastSeparator? (quoted : Bool) : List Char → Option (List Char × Scope × List Char)
  | [] => none
  | c :: cs =>
    match lastSeparator? (quoted != (c == '"')) cs with
    | some (parent, scope, child) => some (c :: parent, scope, child)
    | none => if quoted then none else (scopeOf? c).map fun scope => ([], scope, cs)

def split? (path : List Char) : Option (List Char × Scope × List Char) :=
  match lastSeparator? false path with
  | some (parent, scope, child) => if parent = [] ∨ child = [] then none else some (parent, scope, child)
  | none => none

end ApiPages.Namepath
