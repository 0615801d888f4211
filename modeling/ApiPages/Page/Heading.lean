import ApiPages.Options.Stage
import ApiPages.Page.Links
import ApiPages.Page.Outline

/-!
How an entry is called: its signature, its heading, and the layouts in effect. Without tables every
table becomes a list.
-/
namespace ApiPages

structure Formats where
  moduleIndex : IndexFormat
  globalIndex : IndexFormat
  memberIndex : MemberIndexFormat
  paramList : ListFormat
  propertyList : ListFormat
  deriving DecidableEq, Repr

def IndexFormat.inEffect (gfm : Bool) (f : IndexFormat) : IndexFormat :=
  if f = .table ∧ ¬ gfm then .grouped else f

def ListFormat.inEffect (gfm : Bool) (f : ListFormat) : ListFormat := if gfm then f else .list

def Formats.of (o : RenderOptions) : Formats where
  moduleIndex := o.moduleIndex.inEffect o.gfm
  globalIndex := o.globalIndex.inEffect o.gfm
  memberIndex := o.memberIndex
  paramList := o.paramList.inEffect o.gfm
  propertyList := o.propertyList.inEffect o.gfm

def Param.shownName (p : Param) : String :=
  let name := if p.repeated then "..." ++ p.name else p.name
  if p.optional then "[" ++ name ++ "]" else name

def paramSignature (params : List Param) : String :=
  ", ".intercalate ((params.filter fun p => !p.name.toList.contains '.').map Param.shownName)

def NameFormat.apply (f : NameFormat) (name : String) : String :=
  match f with
  | .plain => name
  | .backticks => "\x60" ++ name ++ "\x60"

namespace Entry

def signature (format : NameFormat) (e : Entry) : String :=
  let params := "(" ++ paramSignature e.tags.params ++ ")"
  format.apply <| match e.kind with
    | .constructor => "new " ++ e.name ++ params
    | .function => e.name ++ params
    | .event => "\"" ++ e.name ++ "\""
    | _ => e.name

def signatureType (known : List Entry) (e : Entry) : String :=
  match e.kind with
  | .function | .constructor =>
    match e.tags.returns.filterMap (·.type) with
    | [] => ""
    | types => " ⇒ " ++ typeBar.intercalate (types.map (linkedType known))
  | .member | .constant | .typedef =>
    match e.tags.type with
    | some type => " : " ++ linkedType known type
    | none => ""
  | _ => ""

def scopeMark (e : Entry) : String :=
  match e.scope with
  | some .innerScope => "~"
  | some .staticScope | some .instanceScope => "."
  | _ => ""

def lowerFirst (name : String) : String :=
  match name.toList with
  | [] => ""
  | c :: cs => String.ofList (Text.lowerChar c ++ cs)

def headingLead (known : List Entry) (e : Entry) : String :=
  if e.kind = .constructor ∨ e.kind = .module then ""
  else match Outline.parent? known e with
    | none => ""
    | some parent =>
      (if parent.kind ≠ .module ∧ e.scope = some .instanceScope then lowerFirst parent.name
        else parent.name) ++ e.scopeMark

def heading (known : List Entry) (format : NameFormat) (e : Entry) : String :=
  e.headingLead known ++ e.signature format ++ e.signatureType known

end Entry

end ApiPages
