import ApiPages.Comment.Value
import ApiPages.Record.Doclet
import ApiPages.Record.Entry

/-!
From doclets to the entries of a page. Doclets that are not shown are left out, a class is followed
by its constructor, every entry gets an id of its own and its position, and examples lose their
captions. Namepaths are the entries' longnames, grouped by kind.
-/
namespace ApiPages

namespace Example

def caption? (raw : List Char) : Option (List Char × List Char) :=
  (Text.after? "<caption>".toList (Text.trimStart raw)).bind (Text.splitAt? "</caption>".toList)

def ofText (raw : List Char) : Example :=
  match caption? raw with
  | some (caption, rest) =>
    { caption := TagValue.text? caption, code := String.ofList (Text.trimEnd (Text.trimStart rest)) }
  | none => { code := String.ofList (Text.trimEnd raw) }

end Example

def Doclet.isShown (showPrivate : Bool) (d : Doclet) : Bool :=
  !d.undocumented && !d.ignored && d.longname != "" && d.kind != .package && d.kind != .file &&
    (showPrivate || d.tags.access != some .privateAccess)

namespace Entry

def ofDoclet (d : Doclet) : Entry where
  id := d.longname
  kind := d.kind
  name := d.name
  longname := d.longname
  memberof := d.memberof
  scope := d.scope
  tags := d.tags
  examples := d.examples.map fun text => Example.ofText text.toList
  place := d.place

/-- The entry of a class as the page shows it. The class description is its description again, and
what belongs to the constructor moves there. -/
def classPart (e : Entry) : Entry :=
  { e with
    tags := { e.tags with
      description := e.tags.classdesc.or e.tags.description
      classdesc := none
      params := if e.tags.hideConstructor then e.tags.params else []
      exceptions := if e.tags.hideConstructor then e.tags.exceptions else [] } }

/-- The constructor of a class. It has a description of its own only when the class has one beside
its class description. -/
def constructorPart (e : Entry) : Entry where
  id := e.longname ++ "()"
  kind := .constructor
  name := e.name
  longname := e.longname
  memberof := some e.longname
  place := e.place
  tags :=
    { access := e.tags.access
      params := e.tags.params
      exceptions := e.tags.exceptions
      description := if e.tags.classdesc.isSome then e.tags.description else none }

def parts (e : Entry) : List Entry :=
  if e.kind = .classKind then
    e.classPart :: if e.tags.hideConstructor then [] else [e.constructorPart]
  else [e]

end Entry

namespace Catalogue

/-- The entries with a number behind every id that an earlier entry was made with. -/
def numbered (earlier : List String) : List Entry → List Entry
  | [] => []
  | e :: es =>
    let n := earlier.count e.id
    { e with id := if n = 0 then e.id else e.id ++ "_" ++ toString (n + 1) } ::
      numbered (e.id :: earlier) es

def modules (es : List Entry) : List String := (es.filter (·.kind = .module)).map (·.longname)

def isExport (modules : List String) (e : Entry) : Bool :=
  (e.scope == some .staticScope &&
      e.memberof.any fun m => Text.startsWith "module:".toList m.toList) ||
    (e.kind != .module && modules.contains e.longname)

def ofDoclets (showPrivate : Bool) (doclets : List Doclet) : List Entry :=
  let entries := (doclets.filter (·.isShown showPrivate)).flatMap fun d => (Entry.ofDoclet d).parts
  let modules := modules entries
  (numbered [] entries).zipIdx.map fun (e, i) =>
    { e with order := UInt64.ofNat i, isExported := isExport modules e }

def namepaths (entries : List Entry) : List (Kind × List String) :=
  Kind.grouped.map fun kind => (kind, (entries.filter (·.kind = kind)).map (·.longname))

end Catalogue

end ApiPages
