import ApiPages.Extract.Describe
import ApiPages.Extract.Naming
import ApiPages.Files.Path

/-!
The doclets of one file. Comments are taken in order; each may add a doclet, and each may set names
for those after it. The comment on a constructor goes into the doclet of its class.
-/
namespace ApiPages

structure FileDoclets where
  origin : Origin := {}
  naming : Naming := {}
  doclets : List Doclet := []
  deriving DecidableEq, Repr

def Origin.ofPath (path : String) : Origin where
  place := some ((Path.fileName? path).getD "", (Path.parent? path).getD "")
  moduleName := (Path.stem? path).getD "source"

def Origin.of : Option String → Origin
  | some path => .ofPath path
  | none => {}

namespace Doclet

def complete (d : Doclet) (c : Comment) (code : Source.Declaration) : Doclet :=
  let (type, _, text) := c.kindValue
  let t := d.tags
  let fileText := (c.first? ["file", "fileoverview", "overview"]).bind TagValue.text?
  let description :=
    if d.kind = .file then fileText.or t.description
    else if d.kind = .typedef then t.description.or text
    else t.description
  { d with
    tags := { t with
      description := description
      type := if c.has "callback" then some ⟨["function"]⟩ else t.type.or type
      isEnum := t.isEnum || c.has "enum"
      augments := if t.augments = [] then (code.augments.map String.ofList).toList else t.augments
      default :=
        if c.has "default" then t.default.or (code.literal.map String.ofList) else t.default } }

def of (origin : Origin) (block : Source.Block) (c : Comment) (code : Source.Declaration)
    (i : Identity) : Doclet :=
  let start : Doclet :=
    { kind := i.kind, exported := code.exported
      tags := { async := code.async, generator := code.generator } }
  { (start.describe c).complete c code with
    name := String.ofList i.name
    longname := String.ofList i.longname
    memberof := i.memberof.map String.ofList
    scope := i.scope
    comment := String.ofList block.comment
    place := origin.place.map fun (filename, folder) =>
      { filename := filename, line := UInt64.ofNat block.codeLine, folder := folder } }

/-- The doclet of a class with the comment on its constructor: the text of the class becomes its
class description, unless it has one. -/
def withConstructor (d : Doclet) (c : Comment) : Doclet :=
  let made := ({} : Doclet).describe c
  let t := d.tags
  let m := made.tags
  { d with
    examples := d.examples ++ made.examples
    tags := { t with
      classdesc := if m.description.isSome then t.classdesc.or t.description else t.classdesc
      description := if m.description.isSome then m.description else t.description
      params := if m.params = [] then t.params else m.params
      exceptions := t.exceptions ++ m.exceptions
      hideConstructor := t.hideConstructor || m.hideConstructor
      access := t.access.or m.access } }

end Doclet

def changeLast? (p : α → Bool) (f : α → α) : List α → Option (List α)
  | [] => none
  | a :: as =>
    match changeLast? p f as with
    | some as => some (a :: as)
    | none => if p a then some (f a :: as) else none

def Kind.isSymbol (k : Kind) : Bool := k ≠ .module && k ≠ .file && k ≠ .event

namespace Naming

/-- The names after one more identity: a module opens, and what stands at the top of the file or of
its module becomes a symbol. -/
def learn (n : Naming) (i : Identity) : Naming :=
  let module := if i.kind = .module then some i.longname else n.module
  { module := module
    symbols :=
      if (i.memberof.isNone || i.memberof == module) && i.kind.isSymbol then
        (i.name, i.longname) :: n.symbols
      else n.symbols }

end Naming

namespace FileDoclets

/-- What a constructor declares when its class has no doclet: the class itself. -/
def asClass (code : Source.Declaration) : Source.Declaration :=
  if code.isConstructor then
    { code with kind := some .classKind, name := code.parent.getD [], parent := none, scope := none }
  else code

def mergeConstructor? (f : FileDoclets) (c : Comment) (code : Source.Declaration) :
    Option FileDoclets := do
  let owner ← if code.isConstructor then code.parent else none
  let longname := String.ofList (f.naming.resolve owner)
  let doclets ← changeLast? (fun d => d.kind = .classKind && d.longname == longname)
    (·.withConstructor c) f.doclets
  pure { f with doclets := doclets }

def add (f : FileDoclets) (block : Source.Block) : FileDoclets :=
  let c := Comment.ofRaw block.comment
  let code := (block.code.map (Source.Declaration.ofLine block.enclosing)).getD {}
  match f.mergeConstructor? c code with
  | some merged => merged
  | none =>
    let code := asClass code
    match Identity.of? f.naming f.origin c code with
    | some i =>
      { f with naming := f.naming.learn i, doclets := f.doclets ++ [Doclet.of f.origin block c code i] }
    | none => f

def ofBlocks (origin : Origin) (blocks : List Source.Block) : List Doclet :=
  (blocks.foldl add { origin := origin }).doclets

end FileDoclets

end ApiPages
