import ApiPages.Failure
import ApiPages.Json.Shape
import ApiPages.Text.Line

/-!
The labels of a documented identifier: what kind of thing it is, how it belongs to its parent and
who may use it.
-/
namespace ApiPages

/-- What a documented identifier is. The order of declaration is the order of every list that is
grouped by kind; `unknown` stands for a label of another vocabulary. -/
inductive Kind where
  | module | classKind | constructor | mixin | member | namespaceKind | constant | function | event
  | typedef | external | interface | file | package | unknown
  deriving DecidableEq, Repr

namespace Kind

def all : List Kind :=
  [.module, .classKind, .constructor, .mixin, .member, .namespaceKind, .constant, .function, .event,
    .typedef, .external, .interface, .file, .package, .unknown]

def grouped : List Kind :=
  [.module, .classKind, .constructor, .mixin, .member, .namespaceKind, .constant, .function, .event,
    .typedef, .external]

def name : Kind → String
  | .module => "module"
  | .classKind => "class"
  | .constructor => "constructor"
  | .mixin => "mixin"
  | .member => "member"
  | .namespaceKind => "namespace"
  | .constant => "constant"
  | .function => "function"
  | .event => "event"
  | .typedef => "typedef"
  | .external => "external"
  | .interface => "interface"
  | .file => "file"
  | .package => "package"
  | .unknown => "unknown"

def rank : Kind → Nat
  | .module => 0
  | .classKind => 1
  | .constructor => 2
  | .mixin => 3
  | .member => 4
  | .namespaceKind => 5
  | .constant => 6
  | .function => 7
  | .event => 8
  | .typedef => 9
  | .external => 10
  | .interface => 11
  | .file => 12
  | .package => 13
  | .unknown => 14

def isContainer : Kind → Bool
  | .module | .classKind | .mixin | .namespaceKind | .interface | .external => true
  | _ => false

def ofTag? (text : String) : Option Kind :=
  match String.ofList (Text.lower text.toList) with
  | "module" => some .module
  | "class" => some .classKind
  | "constructor" => some .constructor
  | "mixin" => some .mixin
  | "member" | "var" => some .member
  | "namespace" => some .namespaceKind
  | "constant" | "const" => some .constant
  | "function" | "func" | "method" => some .function
  | "event" => some .event
  | "typedef" | "callback" => some .typedef
  | "external" | "host" => some .external
  | "interface" => some .interface
  | "file" => some .file
  | "package" => some .package
  | _ => none

def read (text : String) : Except Problem Kind :=
  match ofTag? text with
  | some k => .ok k
  | none => .error (.other ("Unknown kind '" ++ text ++ "'"))

def codec : Codec Kind where
  encode k := .string k.name
  decode v := (Codec.label? v).map fun s => (all.find? fun k => k.name == s).getD .unknown

end Kind

inductive Scope where
  | globalScope | staticScope | instanceScope | innerScope
  deriving DecidableEq, Repr

namespace Scope

def all : List Scope := [.globalScope, .staticScope, .instanceScope, .innerScope]

def name : Scope → String
  | .globalScope => "global"
  | .staticScope => "static"
  | .instanceScope => "instance"
  | .innerScope => "inner"

def separator : Scope → String
  | .globalScope => ""
  | .staticScope => "."
  | .instanceScope => "#"
  | .innerScope => "~"

def codec : Codec Scope := .choice name (all.map fun s => (s.name, s))

end Scope

inductive Access where
  | publicAccess | protectedAccess | privateAccess | packageAccess
  deriving DecidableEq, Repr

namespace Access

def all : List Access := [.publicAccess, .protectedAccess, .privateAccess, .packageAccess]

def name : Access → String
  | .publicAccess => "public"
  | .protectedAccess => "protected"
  | .privateAccess => "private"
  | .packageAccess => "package"

def spelling (text : String) : String := String.ofList (Text.lower (Text.trim text.toList))

def ofTag? (text : String) : Option Access := all.find? fun a => a.name == spelling text

def read (text : String) : Except Problem Access :=
  match ofTag? text with
  | some a => .ok a
  | none => .error (.other ("Unknown access level '" ++ spelling text ++ "'"))

def codec : Codec Access := .choiceWithin name (all.map fun a => (a.name, a))

end Access

end ApiPages
