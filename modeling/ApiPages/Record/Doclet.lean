import ApiPages.Record.Tags

/-!
A doclet is what one doc comment and the code after it say about one identifier.
-/
namespace ApiPages

structure Doclet where
  kind : Kind := .member
  name : String := ""
  longname : String := ""
  memberof : Option String := none
  scope : Option Scope := none
  tags : Tags := {}
  examples : List String := []
  place : Option Place := none
  comment : String := ""
  undocumented : Bool := false
  ignored : Bool := false
  /-- The input files; only the closing package doclet has any. -/
  files : List String := []
  exported : Bool := false
  deriving DecidableEq, Repr

namespace Doclet

def package (files : List String) : Doclet :=
  { kind := .package, longname := "package:undefined", files := files }

def schema : List (Field Doclet) :=
  [ .always "kind" Kind.codec (·.kind) fun d v => { d with kind := v },
    .always "name" .text (·.name) fun d v => { d with name := v },
    .always "longname" .text (·.longname) fun d v => { d with longname := v },
    .optional "memberof" .text (·.memberof) fun d v => { d with memberof := v },
    .optional "scope" Scope.codec (·.scope) fun d v => { d with scope := v } ] ++
  Tags.schema.map (Field.within (·.tags) fun d v => { d with tags := v }) ++
  [ .list "examples" .text (·.examples) fun d v => { d with examples := v },
    .optional "meta" Place.codec (·.place) fun d v => { d with place := v },
    .skipIf String.isEmpty "comment" .text (·.comment) fun d v => { d with comment := v },
    .switch "undocumented" (·.undocumented) fun d v => { d with undocumented := v },
    .switch "ignore" (·.ignored) fun d v => { d with ignored := v },
    .list "files" .text (·.files) fun d v => { d with files := v },
    .switch "exported" (·.exported) fun d v => { d with exported := v } ]

def codec : Codec Doclet := Record.codec schema {}

end Doclet

end ApiPages
