import ApiPages.Page.Index
import ApiPages.Page.MemberIndex

/-!
The section of an entry: heading, description, what is known about it line by line, and the rows of
its parameters and properties.
-/
namespace ApiPages

structure ParamRow where
  name : String
  type : String
  default : String
  description : String
  deriving DecidableEq, Repr

namespace Section

def kindWord (isMember : Bool) (e : Entry) : String :=
  match e.kind with
  | .function => if isMember then "method" else "function"
  | .member =>
    if e.tags.isEnum then "enum" else if isMember then "property" else "variable"
  | kind => kind.name

def parentLink (known : List Entry) (e : Entry) (memberof : String) : String :=
  match Outline.parent? known e with
  | some parent => "[<code>" ++ escapeHtml parent.name ++ "</code>](#" ++ parent.anchor ++ ")"
  | none => "<code>" ++ escapeHtml memberof ++ "</code>"

def kindLine (known : List Entry) (e : Entry) : Option String :=
  if e.kind = .module ∨ e.kind = .constructor then none
  else match e.memberof with
    | none => some ("**Kind**: global " ++ kindWord false e)
    | some memberof =>
      let link := parentLink known e memberof
      if e.kind = .event then some ("**Kind**: event emitted by " ++ link)
      else
        let scope := (e.scope.map fun s => s.name ++ " ").getD ""
        some ("**Kind**: " ++ scope ++ kindWord true e ++ " of " ++ link)

def namesLine (known : List Entry) (label : String) (names : List String) : List String :=
  if names = [] then []
  else ["**" ++ label ++ "**: " ++ ", ".intercalate (names.map (linkedName known))]

def seeLine (known : List Entry) (see : String) : String :=
  "**See**: " ++
    if Text.contains "\x7b@link".toList see.toList then linkify known see else linkedName known see

def customLine (t : CustomTag) : String :=
  let label := match t.tag.toList with
    | [] => ""
    | c :: cs => String.ofList (c.toUpper :: cs)
  "**" ++ label ++ "**: " ++ t.value

def factLines (known : List Entry) (e : Entry) : List String :=
  let t := e.tags
  (kindLine known e).toList ++ namesLine known "Extends" t.augments ++
    namesLine known "Mixes" t.mixes ++ namesLine known "Emits" t.fires ++
    (if t.readonly then ["**Read only**: true"] else []) ++
    (t.default.map fun v => "**Default**: <code>" ++ escapeHtml v ++ "</code>").toList ++
    ((t.access.filter (· ≠ .publicAccess)).map fun a => "**Access**: " ++ a.name).toList ++
    (t.category.map ("**Category**: " ++ ·)).toList ++ (t.since.map ("**Since**: " ++ ·)).toList ++
    (t.version.map ("**Version**: " ++ ·)).toList ++
    t.author.map (fun a => "**Author**: " ++ escapeHtml a) ++ t.see.map (seeLine known) ++
    t.todo.map (fun text => "**Todo**: " ++ linkify known text) ++ t.custom.map customLine

def returnedText (known : List Entry) (r : Returned) : String :=
  let type := (r.type.map (linkedType known)).getD ""
  let description := (r.description.map (linkify known)).getD ""
  if type = "" then description
  else if description = "" then type
  else type ++ " - " ++ description

def returnedTexts (known : List Entry) (rs : List Returned) : List String :=
  (rs.map (returnedText known)).filter (· ≠ "")

def paramRow (known : List Entry) (format : ListFormat) (p : Param) : ParamRow :=
  let description := (p.description.map (linkify known)).getD ""
  { name := p.shownName
    type := (p.type.map (linkedType known)).getD ""
    default := (p.default.map fun d => "<code>" ++ escapeHtml d ++ "</code>").getD ""
    description := if format = .table then cell description else description }

def hasDefaults (params : List Param) : Bool := params.any (·.default.isSome)

def deprecation (known : List Entry) (note : String) : String :=
  match Text.nonEmpty? note.toList with
  | some note => "***Deprecated***: " ++ linkify known (String.ofList note)
  | none => "***Deprecated***"

end Section

structure Section where
  id : String
  anchor : String
  kind : Kind
  level : Nat
  heading : String
  deprecated : Option String
  description : Option String
  facts : List String
  returns : List String
  throws : List String
  params : List ParamRow
  paramDefaults : Bool
  properties : List ParamRow
  propertyDefaults : Bool
  memberIndex : List MemberRow
  examples : List Example
  deriving DecidableEq, Repr

namespace Section

def deepest : Nat := 6

def of (known : List Entry) (o : RenderOptions) (node : Node) (level : Nat) : Section :=
  let e := node.1
  let t := e.tags
  let formats := Formats.of o
  { id := e.id
    anchor := e.anchor
    kind := e.kind
    level := min level deepest
    heading := e.heading known o.nameFormat
    deprecated := t.deprecated.map (deprecation known)
    description := t.description.map (linkify known)
    facts := factLines known e
    returns := returnedTexts known t.returns
    throws := returnedTexts known t.exceptions
    params := t.params.map (paramRow known formats.paramList)
    paramDefaults := hasDefaults t.params
    properties := t.properties.map (paramRow known formats.propertyList)
    propertyDefaults := hasDefaults t.properties
    memberIndex := MemberIndex.of known o node
    examples := e.examples }

end Section

end ApiPages
