import ApiPages.Kind

/-!
What the tags of a doc comment say about an identifier, and its JSON form.
-/
namespace ApiPages

structure TypeExpr where
  names : List String := []
  deriving DecidableEq, Repr

/-- The list of names is required, and may stand alone in an array. -/
def TypeExpr.codec : Codec TypeExpr where
  encode t := .object [("names", Codec.text.list.encode t.names)]
  decode
    | .object fields =>
      match fields.filter fun field => field.1 == "names" with
      | [(_, v)] => (Codec.text.list.decode v).map TypeExpr.mk
      | _ => none
    | .array [v] => (Codec.text.list.decode v).map TypeExpr.mk
    | _ => none

structure Param where
  type : Option TypeExpr := none
  name : String := ""
  description : Option String := none
  optional : Bool := false
  default : Option String := none
  nullable : Bool := false
  repeated : Bool := false
  deriving DecidableEq, Repr

def Param.schema : List (Field Param) := [
  .optional "type" TypeExpr.codec (·.type) fun p v => { p with type := v },
  .always "name" .text (·.name) fun p v => { p with name := v },
  .optional "description" .text (·.description) fun p v => { p with description := v },
  .switch "optional" (·.optional) fun p v => { p with optional := v },
  .optional "defaultvalue" .text (·.default) fun p v => { p with default := v },
  .switch "nullable" (·.nullable) fun p v => { p with nullable := v },
  .switch "variable" (·.repeated) fun p v => { p with repeated := v }]

def Param.codec : Codec Param := Record.codecOrdered schema {}

structure Returned where
  type : Option TypeExpr := none
  description : Option String := none
  deriving DecidableEq, Repr

def Returned.schema : List (Field Returned) := [
  .optional "type" TypeExpr.codec (·.type) fun r v => { r with type := v },
  .optional "description" .text (·.description) fun r v => { r with description := v }]

def Returned.codec : Codec Returned := Record.codecOrdered schema {}

structure Place where
  filename : String := ""
  line : UInt64 := 0
  folder : String := ""
  deriving DecidableEq, Repr

def Place.schema : List (Field Place) := [
  .always "filename" .text (·.filename) fun p v => { p with filename := v },
  .always "lineno" .count (·.line) fun p v => { p with line := v },
  .always "path" .text (·.folder) fun p v => { p with folder := v }]

def Place.codec : Codec Place := Record.codecOrdered schema {}

structure CustomTag where
  tag : String := ""
  value : String := ""
  deriving DecidableEq, Repr

def CustomTag.schema : List (Field CustomTag) := [
  .always "tag" .text (·.tag) fun t v => { t with tag := v },
  .always "value" .text (·.value) fun t v => { t with value := v }]

def CustomTag.codec : Codec CustomTag := Record.codecOrdered schema {}

/-- The descriptive tags. A deprecation without text is the empty note. -/
structure Tags where
  description : Option String := none
  classdesc : Option String := none
  summary : Option String := none
  params : List Param := []
  properties : List Param := []
  returns : List Returned := []
  exceptions : List Returned := []
  type : Option TypeExpr := none
  access : Option Access := none
  deprecated : Option String := none
  since : Option String := none
  version : Option String := none
  see : List String := []
  todo : List String := []
  author : List String := []
  augments : List String := []
  mixes : List String := []
  fires : List String := []
  default : Option String := none
  readonly : Bool := false
  async : Bool := false
  generator : Bool := false
  isEnum : Bool := false
  category : Option String := none
  hideConstructor : Bool := false
  custom : List CustomTag := []
  deriving DecidableEq, Repr

def Tags.schema : List (Field Tags) := [
  .optional "description" .text (·.description) fun t v => { t with description := v },
  .optional "classdesc" .text (·.classdesc) fun t v => { t with classdesc := v },
  .optional "summary" .text (·.summary) fun t v => { t with summary := v },
  .list "params" Param.codec (·.params) fun t v => { t with params := v },
  .list "properties" Param.codec (·.properties) fun t v => { t with properties := v },
  .list "returns" Returned.codec (·.returns) fun t v => { t with returns := v },
  .list "exceptions" Returned.codec (·.exceptions) fun t v => { t with exceptions := v },
  .optional "type" TypeExpr.codec (·.type) fun t v => { t with type := v },
  .optional "access" Access.codec (·.access) fun t v => { t with access := v },
  .optional "deprecated" .text (·.deprecated) fun t v => { t with deprecated := v },
  .optional "since" .text (·.since) fun t v => { t with since := v },
  .optional "version" .text (·.version) fun t v => { t with version := v },
  .list "see" .text (·.see) fun t v => { t with see := v },
  .list "todo" .text (·.todo) fun t v => { t with todo := v },
  .list "author" .text (·.author) fun t v => { t with author := v },
  .list "augments" .text (·.augments) fun t v => { t with augments := v },
  .list "mixes" .text (·.mixes) fun t v => { t with mixes := v },
  .list "fires" .text (·.fires) fun t v => { t with fires := v },
  .optional "defaultvalue" .text (·.default) fun t v => { t with default := v },
  .switch "readonly" (·.readonly) fun t v => { t with readonly := v },
  .switch "async" (·.async) fun t v => { t with async := v },
  .switch "generator" (·.generator) fun t v => { t with generator := v },
  .switch "isEnum" (·.isEnum) fun t v => { t with isEnum := v },
  .optional "category" .text (·.category) fun t v => { t with category := v },
  .switch "hideconstructor" (·.hideConstructor) fun t v => { t with hideConstructor := v },
  .list "customTags" CustomTag.codec (·.custom) fun t v => { t with custom := v }]

end ApiPages
