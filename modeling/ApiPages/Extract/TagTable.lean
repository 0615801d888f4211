import ApiPages.Kind

/-!
The tags that have a meaning: those that set the kind, and those that only bear on naming.
-/
namespace ApiPages

structure KindTag where
  title : String
  kind : Kind
  typed : Bool := false
  deriving DecidableEq, Repr

namespace KindTag

def table : List KindTag := [
  ⟨"module", .module, false⟩, ⟨"exports", .module, false⟩, ⟨"class", .classKind, false⟩,
  ⟨"constructor", .classKind, false⟩, ⟨"mixin", .mixin, false⟩,
  ⟨"namespace", .namespaceKind, true⟩, ⟨"function", .function, false⟩, ⟨"func", .function, false⟩,
  ⟨"method", .function, false⟩, ⟨"member", .member, true⟩, ⟨"var", .member, true⟩,
  ⟨"constant", .constant, true⟩, ⟨"const", .constant, true⟩, ⟨"event", .event, false⟩,
  ⟨"typedef", .typedef, true⟩, ⟨"callback", .typedef, false⟩, ⟨"external", .external, false⟩,
  ⟨"host", .external, false⟩, ⟨"interface", .interface, false⟩, ⟨"enum", .member, true⟩,
  ⟨"file", .file, false⟩, ⟨"fileoverview", .file, false⟩, ⟨"overview", .file, false⟩]

def ofTitle? (title : String) : Option KindTag := table.find? fun k => k.title == title

end KindTag

def namingTags : List String :=
  ["name", "memberof", "alias", "static", "instance", "inner", "global", "kind", "lends", "abstract",
    "virtual", "override", "inheritdoc", "this", "variation", "constructs"]

def isCustomTitle (title : String) : Bool :=
  !namingTags.contains title && (KindTag.ofTitle? title).isNone

def Scope.ofTitle? : String → Option Scope
  | "static" => some .staticScope
  | "instance" => some .instanceScope
  | "inner" => some .innerScope
  | "global" => some .globalScope
  | _ => none

end ApiPages
