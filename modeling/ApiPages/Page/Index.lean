import ApiPages.Page.Heading

/-!
The indexes at the head of the page: the modules, and the other entries at the top grouped by kind.
-/
namespace ApiPages

def cell (text : String) : String :=
  String.ofList (Text.replace ['|'] ['\\', '|'] (Text.join [' '] (Text.words text.toList)))

def firstParagraph (text : String) : String :=
  String.ofList (Text.trim (((Text.splitAt? ['\n', '\n'] text.toList).map (·.1)).getD text.toList))

structure IndexRow where
  name : String
  anchor : String
  suffix : String
  summary : String
  deriving DecidableEq, Repr

structure IndexGroup where
  title : String
  rows : List IndexRow
  deriving DecidableEq, Repr

def Kind.plural : Kind → String
  | .module => "Modules"
  | .classKind => "Classes"
  | .constructor => "Constructors"
  | .mixin => "Mixins"
  | .member => "Members"
  | .namespaceKind => "Namespaces"
  | .constant => "Constants"
  | .function => "Functions"
  | .event => "Events"
  | .typedef => "Typedefs"
  | .external => "Externals"
  | .interface => "Interfaces"
  | .file => "Files"
  | .package => "Packages"
  | .unknown => "Other"

namespace IndexRow

def of (known : List Entry) (format : NameFormat) (table : Bool) (e : Entry) : IndexRow :=
  let summary := (e.tags.description.map fun d => firstParagraph (linkify known d)).getD ""
  { name := e.signature format, anchor := e.anchor, suffix := e.signatureType known
    summary := if table then cell summary else summary }

end IndexRow

def moduleIndex (entries : List Entry) (o : RenderOptions) : List IndexRow :=
  (((Outline.top entries).map (·.1)).filter (·.kind = .module)).map
    (IndexRow.of entries o.nameFormat ((Formats.of o).moduleIndex = .table))

def indexGroup? (entries : List Entry) (o : RenderOptions) (kind : Kind) : Option IndexGroup :=
  match ((Outline.top entries).map (·.1)).filter (·.kind = kind) with
  | [] => none
  | members =>
    some
      { title := kind.plural
        rows := members.map
          (IndexRow.of entries o.nameFormat ((Formats.of o).globalIndex = .table)) }

def globalIndex (entries : List Entry) (o : RenderOptions) : List IndexGroup :=
  (Kind.all.filter (· ≠ .module)).filterMap (indexGroup? entries o)

end ApiPages
