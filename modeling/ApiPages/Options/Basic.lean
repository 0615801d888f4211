import ApiPages.Options.Format
import ApiPages.Record.Entry

/-!
Everything a caller may ask for, its JSON form and the layering of one set of options over another.
A layer sets a list by giving it items, a value by giving it, and a switch by turning it on.
-/
namespace ApiPages

structure Options where
  files : List String := []
  source : Option String := none
  data : Option (List Entry) := none
  template : Option String := none
  headingDepth : Option UInt64 := none
  exampleLang : Option String := none
  plugins : List String := []
  helpers : List String := []
  partials : List String := []
  nameFormat : Option NameFormat := none
  noGfm : Bool := false
  separators : Bool := false
  moduleIndex : Option IndexFormat := none
  globalIndex : Option IndexFormat := none
  memberIndex : Option MemberIndexFormat := none
  paramList : Option ListFormat := none
  propertyList : Option ListFormat := none
  noCache : Bool := false
  configure : Option String := none
  html : Bool := false
  showPrivate : Bool := false
  deriving DecidableEq, Repr

namespace Options

def schema : List (Field Options) := [
  .list "files" .text (·.files) fun o v => { o with files := v },
  .optional "source" .text (·.source) fun o v => { o with source := v },
  .optional "data" Entry.codec.list (·.data) fun o v => { o with data := v },
  .optional "template" .text (·.template) fun o v => { o with template := v },
  .optional "heading-depth" .count (·.headingDepth) fun o v => { o with headingDepth := v },
  .optional "example-lang" .text (·.exampleLang) fun o v => { o with exampleLang := v },
  .list "plugin" .text (·.plugins) fun o v => { o with plugins := v },
  .list "helper" .text (·.helpers) fun o v => { o with helpers := v },
  .list "partial" .text (·.partials) fun o v => { o with partials := v },
  .optional "name-format" NameFormat.codec (·.nameFormat) fun o v => { o with nameFormat := v },
  .always "no-gfm" .flag (·.noGfm) fun o v => { o with noGfm := v },
  .always "separators" .flag (·.separators) fun o v => { o with separators := v },
  .optional "module-index-format" IndexFormat.codec (·.moduleIndex)
    fun o v => { o with moduleIndex := v },
  .optional "global-index-format" IndexFormat.codec (·.globalIndex)
    fun o v => { o with globalIndex := v },
  .optional "member-index-format" MemberIndexFormat.codec (·.memberIndex)
    fun o v => { o with memberIndex := v },
  .optional "param-list-format" ListFormat.codec (·.paramList) fun o v => { o with paramList := v },
  .optional "property-list-format" ListFormat.codec (·.propertyList)
    fun o v => { o with propertyList := v },
  .always "no-cache" .flag (·.noCache) fun o v => { o with noCache := v },
  .optional "configure" .text (·.configure) fun o v => { o with configure := v },
  .always "html" .flag (·.html) fun o v => { o with html := v },
  .always "private" .flag (·.showPrivate) fun o v => { o with showPrivate := v }]

def codec : Codec Options := Record.codecOrdered schema {}

def unlessEmpty (base upper : List α) : List α := if upper.isEmpty then base else upper

def merge (base upper : Options) : Options where
  files := unlessEmpty base.files upper.files
  source := upper.source <|> base.source
  data := upper.data <|> base.data
  template := upper.template <|> base.template
  headingDepth := upper.headingDepth <|> base.headingDepth
  exampleLang := upper.exampleLang <|> base.exampleLang
  plugins := unlessEmpty base.plugins upper.plugins
  helpers := unlessEmpty base.helpers upper.helpers
  partials := unlessEmpty base.partials upper.partials
  nameFormat := upper.nameFormat <|> base.nameFormat
  noGfm := base.noGfm || upper.noGfm
  separators := base.separators || upper.separators
  moduleIndex := upper.moduleIndex <|> base.moduleIndex
  globalIndex := upper.globalIndex <|> base.globalIndex
  memberIndex := upper.memberIndex <|> base.memberIndex
  paramList := upper.paramList <|> base.paramList
  propertyList := upper.propertyList <|> base.propertyList
  noCache := base.noCache || upper.noCache
  configure := upper.configure <|> base.configure
  html := base.html || upper.html
  showPrivate := base.showPrivate || upper.showPrivate

end Options

end ApiPages
