import ApiPages.Record.Tags

/-!
An entry is a documented identifier as the page shows it.
-/
namespace ApiPages

structure Example where
  caption : Option String := none
  code : String := ""
  deriving DecidableEq, Repr

def Example.schema : List (Field Example) := [
  .optional "caption" .text (·.caption) fun e v => { e with caption := v },
  .always "code" .text (·.code) fun e v => { e with code := v }]

def Example.codec : Codec Example := Record.codecOrdered schema {}

structure Entry where
  /-- The longname, with a number behind it from its second use on. -/
  id : String := ""
  kind : Kind := .member
  name : String := ""
  longname : String := ""
  memberof : Option String := none
  scope : Option Scope := none
  tags : Tags := {}
  examples : List Example := []
  isExported : Bool := false
  order : UInt64 := 0
  place : Option Place := none
  deriving DecidableEq, Repr

namespace Entry

def schema : List (Field Entry) :=
  [ .always "id" .text (·.id) fun e v => { e with id := v },
    .always "kind" Kind.codec (·.kind) fun e v => { e with kind := v },
    .always "name" .text (·.name) fun e v => { e with name := v },
    .always "longname" .text (·.longname) fun e v => { e with longname := v },
    .optional "memberof" .text (·.memberof) fun e v => { e with memberof := v },
    .optional "scope" Scope.codec (·.scope) fun e v => { e with scope := v } ] ++
  Tags.schema.map (Field.within (·.tags) fun e v => { e with tags := v }) ++
  [ .list "examples" Example.codec (·.examples) fun e v => { e with examples := v },
    .switch "isExported" (·.isExported) fun e v => { e with isExported := v },
    .always "order" .count (·.order) fun e v => { e with order := v },
    .optional "meta" Place.codec (·.place) fun e v => { e with place := v } ]

def codec : Codec Entry := Record.codec schema {}

end Entry

end ApiPages
