import ApiPages.Comment.Basic
import ApiPages.Comment.Value
import ApiPages.Extract.TagTable
import ApiPages.Namepath
import ApiPages.Source.Declaration

/-!
The identity of a documented identifier: kind, name, parent, scope and namepath. What the tags say
wins over what the code says, and the code wins over the module around it.
-/
namespace ApiPages

structure Origin where
  place : Option (String × String) := none
  moduleName : String := "source"
  deriving DecidableEq, Repr

structure Naming where
  module : Option (List Char) := none
  symbols : List (List Char × List Char) := []
  deriving DecidableEq, Repr

structure Identity where
  kind : Kind
  name : List Char
  longname : List Char
  memberof : Option (List Char) := none
  scope : Option Scope := none
  deriving DecidableEq, Repr

namespace Naming

def lookup? (n : Naming) (symbol : List Char) : Option (List Char) :=
  (n.symbols.find? fun s => s.1 == symbol).map (·.2)

/-- The namepath of a symbol as the code or a tag writes it: a known name, a member of a known name,
or the symbol itself. -/
def resolve (n : Naming) (symbol : List Char) : List Char :=
  match n.lookup? symbol with
  | some longname => longname
  | none =>
    match Text.splitFirst? '.' symbol with
    | some (head, rest) =>
      match n.lookup? head with
      | some longname => longname ++ '.' :: rest
      | none => symbol
    | none => symbol

end Naming

namespace Comment

def kindTag? (c : Comment) : Option (KindTag × List Char) :=
  c.tags.findSome? fun tag => (KindTag.ofTitle? tag.title).map fun k => (k, tag.value)

def kindValue (c : Comment) : Option TypeExpr × Option (List Char) × Option String :=
  match c.kindTag? with
  | some (k, value) =>
    if k.typed then TagValue.namedType value else (none, (Text.words value).head?, none)
  | none => (none, none, none)

def scope? (c : Comment) : Option Scope := c.tags.findSome? fun tag => Scope.ofTitle? tag.title

/-- The kind: an explicit one, that of a kind tag, that of the code, or for a comment that only
gives a name what its tags suggest. -/
def kind? (c : Comment) (ofCode : Option Kind) : Option Kind :=
  let explicit := (c.first? ["kind"]).bind fun value => Kind.ofTag? (String.ofList value)
  let guess :=
    if c.has "name" then
      some (if c.has "param" || c.has "returns" || c.has "return" then Kind.function else .member)
    else none
  explicit.or ((c.kindTag?.map (·.1.kind)).or (ofCode.or guess))

def name? (c : Comment) : Option (List Char) := (c.text? "name").or c.kindValue.2.1

end Comment

namespace Identity

def label (kind : Kind) (name : List Char) : List Char :=
  if kind = .event then "event:".toList ++ name else name

def under (kind : Kind) (name : List Char) (memberof : Option (List Char)) (scope : Option Scope) :
    Identity :=
  match memberof with
  | some parent =>
    let scope := (scope.filter (· ≠ .globalScope)).getD .staticScope
    { kind := kind, name := name, memberof := some parent, scope := some scope
      longname := parent ++ scope.separator.toList ++ label kind name }
  | none => { kind := kind, name := name, longname := label kind name, scope := some .globalScope }

/-- The parent and scope before the module around is considered: from the tags, from the name
itself, or from the code. -/
def parentAndScope (n : Naming) (c : Comment) (d : Source.Declaration)
    (ofName : Option (List Char × Scope)) : Option (List Char) × Option Scope :=
  let (parent, scope) : Option (List Char) × Option Scope :=
    match c.text? "memberof" with
    | some tag => (some (n.resolve tag), ofName.map (·.2))
    | none =>
      match ofName with
      | some (parent, scope) => (some (n.resolve parent), some scope)
      | none =>
        match d.parent with
        | some parent => (some (n.resolve parent), d.scope)
        | none => (none, none)
  (parent, c.scope?.or scope)

def placed (n : Naming) (c : Comment) (d : Source.Declaration) (kind : Kind) (name : List Char) :
    Identity :=
  let (name, ofName) : List Char × Option (List Char × Scope) :=
    match Namepath.split? name with
    | some (parent, scope, child) => (child, some (parent, scope))
    | none => (name, none)
  let name := if kind = .event then Text.dropRepeated "event:".toList name else name
  let (parent, scope) := parentAndScope n c d ofName
  if scope = some .globalScope then under kind name none scope
  else match parent, n.module with
    | none, some module =>
      under kind name (some module)
        (scope.or (some (if d.exported then .staticScope else .innerScope)))
    | _, _ => under kind name parent scope

def plain? (n : Naming) (origin : Origin) (c : Comment) (d : Source.Declaration) (kind : Kind) :
    Option Identity :=
  match kind with
  | .module =>
    let name := (c.name?.map (Text.dropRepeated "module:".toList)).getD origin.moduleName.toList
    some { kind := kind, name := name, longname := "module:".toList ++ name }
  | .file =>
    some <| match origin.place with
      | some (filename, folder) =>
        { kind := kind, name := filename.toList
          longname := folder.toList ++ '/' :: filename.toList }
      | none =>
        { kind := kind, name := origin.moduleName.toList, longname := origin.moduleName.toList }
  | kind => do
    let name ← c.name?.or (Text.nonEmpty? d.name)
    if kind = .external then
      let name := Text.dropRepeated "external:".toList name
      some { kind := kind, name := name, longname := "external:".toList ++ name }
    else some (placed n c d kind name)

def aliased (i : Identity) (c : Comment) : Identity :=
  match c.text? "alias" with
  | some longname =>
    { i with
      name := match Namepath.split? longname with
        | some (_, _, child) => child
        | none => longname
      longname }
  | none => i

def of? (n : Naming) (origin : Origin) (c : Comment) (d : Source.Declaration) : Option Identity := do
  let kind ← c.kind? d.kind
  let i ← plain? n origin c d kind
  pure (i.aliased c)

end Identity

end ApiPages
