import ApiPages.Page.Section

/-!
The whole page before it is laid out, and the JSON form in which templates see it.
-/
namespace ApiPages

structure View where
  options : RenderOptions
  formats : Formats
  indexHeading : String
  showMainIndex : Bool
  moduleIndex : List IndexRow
  globalIndex : List IndexGroup
  sections : List Section
  data : List Entry
  deriving DecidableEq, Repr

def RenderOptions.topLevel (o : RenderOptions) : Nat := min (max o.headingDepth.toNat 1) Section.deepest

namespace View

def of (entries : List Entry) (o : RenderOptions) : View where
  options := o
  formats := Formats.of o
  indexHeading := String.ofList (List.replicate o.topLevel '#')
  showMainIndex := 1 < (Outline.top entries).length
  moduleIndex := ApiPages.moduleIndex entries o
  globalIndex := ApiPages.globalIndex entries o
  sections := (Outline.walk entries o.topLevel).map fun (node, level) => Section.of entries o node level
  data := entries

end View

def Formats.toJson (f : Formats) : Json := .object [
  ("module_index", .string f.moduleIndex.name),
  ("global_index", .string f.globalIndex.name),
  ("member_index", .string f.memberIndex.name),
  ("param_list", .string f.paramList.name),
  ("property_list", .string f.propertyList.name)]

def IndexRow.toJson (r : IndexRow) : Json := .object [
  ("name", .string r.name), ("anchor", .string r.anchor), ("suffix", .string r.suffix),
  ("summary", .string r.summary)]

def IndexGroup.toJson (g : IndexGroup) : Json := .object [
  ("title", .string g.title), ("rows", .array (g.rows.map IndexRow.toJson))]

def ParamRow.toJson (r : ParamRow) : Json := .object [
  ("name", .string r.name), ("type", .string r.type), ("default", .string r.default),
  ("description", .string r.description)]

def MemberRow.toJson (r : MemberRow) : Json := .object [
  ("depth", .whole r.depth), ("text", .string r.text)]

def Section.toJson (s : Section) : Json := .object [
  ("id", .string s.id),
  ("anchor", .string s.anchor),
  ("kind", .string s.kind.name),
  ("level", .whole s.level),
  ("heading", .string s.heading),
  ("deprecated", Codec.text.optional.encode s.deprecated),
  ("description", Codec.text.optional.encode s.description),
  ("meta", Codec.text.list.encode s.facts),
  ("returns", Codec.text.list.encode s.returns),
  ("throws", Codec.text.list.encode s.throws),
  ("params", .array (s.params.map ParamRow.toJson)),
  ("param_defaults", .bool s.paramDefaults),
  ("properties", .array (s.properties.map ParamRow.toJson)),
  ("property_defaults", .bool s.propertyDefaults),
  ("member_index", .array (s.memberIndex.map MemberRow.toJson)),
  ("examples", Example.codec.list.encode s.examples)]

def View.toJson (v : View) : Json := .object [
  ("options", v.options.toJson),
  ("formats", v.formats.toJson),
  ("index_heading", .string v.indexHeading),
  ("show_main_index", .bool v.showMainIndex),
  ("module_index", .array (v.moduleIndex.map IndexRow.toJson)),
  ("global_index", .array (v.globalIndex.map IndexGroup.toJson)),
  ("sections", .array (v.sections.map Section.toJson)),
  ("data", Entry.codec.list.encode v.data)]

end ApiPages
