import ApiPages.Options.Basic

/-!
What each stage of the work sees of the options, with every default filled in, and the JSON forms
in which the stages are shown and keyed.
-/
namespace ApiPages

structure ExtractOptions where
  files : List String := []
  source : Option String := none
  configure : Option String := none
  html : Bool := false
  cache : Bool := true
  deriving DecidableEq, Repr

namespace ExtractOptions

def ofOptions (o : Options) : ExtractOptions where
  files := o.files
  source := o.source
  configure := o.configure
  html := o.html
  cache := !o.noCache

def hasInput (o : ExtractOptions) : Bool :=
  o.source.isSome || !o.files.isEmpty || o.configure.isSome

def toJson (o : ExtractOptions) : Json := .object [
  ("files", Codec.text.list.encode o.files),
  ("source", Codec.text.optional.encode o.source),
  ("configure", Codec.text.optional.encode o.configure),
  ("html", .bool o.html),
  ("cache", .bool o.cache)]

end ExtractOptions

def defaultTemplate : String := "\x7b% include \"main\" %\x7d"

structure RenderOptions where
  template : String := defaultTemplate
  headingDepth : UInt64 := 2
  exampleLang : String := "js"
  plugins : List String := []
  helpers : List String := []
  partials : List String := []
  nameFormat : NameFormat := .plain
  gfm : Bool := true
  separators : Bool := false
  moduleIndex : IndexFormat := .definitions
  globalIndex : IndexFormat := .definitions
  memberIndex : MemberIndexFormat := .grouped
  paramList : ListFormat := .table
  propertyList : ListFormat := .table
  cache : Bool := true
  deriving DecidableEq, Repr

namespace RenderOptions

def ofOptions (o : Options) : RenderOptions where
  template := o.template.getD defaultTemplate
  headingDepth := o.headingDepth.getD 2
  exampleLang := o.exampleLang.getD "js"
  plugins := o.plugins
  helpers := o.helpers
  partials := o.partials
  nameFormat := o.nameFormat.getD .plain
  gfm := !o.noGfm
  separators := o.separators
  moduleIndex := o.moduleIndex.getD .definitions
  globalIndex := o.globalIndex.getD .definitions
  memberIndex := o.memberIndex.getD .grouped
  paramList := o.paramList.getD .table
  propertyList := o.propertyList.getD .table
  cache := !o.noCache

def toJson (o : RenderOptions) : Json := .object [
  ("template", .string o.template),
  ("heading_depth", Codec.count.encode o.headingDepth),
  ("example_lang", .string o.exampleLang),
  ("plugin", Codec.text.list.encode o.plugins),
  ("helper", Codec.text.list.encode o.helpers),
  ("partial", Codec.text.list.encode o.partials),
  ("name_format", .string o.nameFormat.name),
  ("gfm", .bool o.gfm),
  ("separators", .bool o.separators),
  ("module_index_format", .string o.moduleIndex.name),
  ("global_index_format", .string o.globalIndex.name),
  ("member_index_format", .string o.memberIndex.name),
  ("param_list_format", .string o.paramList.name),
  ("property_list_format", .string o.propertyList.name),
  ("cache", .bool o.cache)]

end RenderOptions

end ApiPages
