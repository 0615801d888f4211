import ApiPages.Options.Basic

/-!
What a command line asks for. Arguments are read from left to right. An option keeps its values back
until another option or a plain argument settles it, so that the first mistake in that order decides
how the command line is refused; conflicts between options are found at the end.
-/
namespace ApiPages.CommandLine

inductive Refusal where
  | unknownArgument
  | argumentConflict
  | valueValidation
  | invalidValue
  | tooManyValues
  | displayHelp
  | displayVersion
  deriving DecidableEq, Repr

inductive Mode where
  | markdown | templateData | rawData | namepaths | clear | printConfig
  deriving DecidableEq, Repr

structure Invocation where
  options : Options := {}
  template : Option String := none
  data : Option String := none
  mode : Mode := .markdown
  verbose : Bool := false
  quiet : Bool := false
  config : Option String := none
  deriving DecidableEq, Repr

def Invocation.logLevel (i : Invocation) : Option String :=
  if i.verbose then some "debug" else if i.quiet then some "error" else none

inductive Effect where
  | flag (set : Invocation → Invocation)
  | value (set : String → Invocation → Except Refusal Invocation)
  | values (set : List String → Invocation → Except Refusal Invocation)
  | help
  | version

structure Argument where
  name : String
  short : Option Char := none
  effect : Effect

def path (value : String) : Except Refusal String :=
  if value = "" then .error .invalidValue else .ok value

/-- A count in decimal digits, with or without a plus sign, that fits a 64-bit word. -/
def count (value : String) : Except Refusal UInt64 :=
  let ds := match value.toList with
    | '+' :: ds => ds
    | ds => ds
  let n := Nat.ofDigitChars 10 ds 0
  if ds ≠ [] ∧ ds.all Char.isDigit ∧ Number.fitsUnsigned n then .ok (UInt64.ofNat n)
  else .error .valueValidation

def choice (c : Choice α) (value : String) : Except Refusal α :=
  (c.read value).mapError fun _ => .valueValidation

namespace Argument

def switch (name : String) (set : Options → Options) : Argument :=
  { name, effect := .flag fun i => { i with options := set i.options } }

def mode (name : String) (mode : Mode) : Argument := { name, effect := .flag ({ · with mode }) }

def setting (name : String) (read : String → Except Refusal α) (set : Options → α → Options) :
    Argument :=
  { name, effect := .value fun v i => (read v).map fun v => { i with options := set i.options v } }

def paths (name : String) (add : Options → List String → Options) : Argument :=
  { name, effect := .values fun vs i =>
      (vs.mapM path).map fun vs => { i with options := add i.options vs } }

def files : Argument :=
  { name := "files", effect := .values fun vs i =>
      .ok { i with options := { i.options with files := i.options.files ++ vs } } }

def modes : List Argument := [
  mode "json" .templateData, mode "jsdoc" .rawData, mode "namepaths" .namepaths,
  mode "clear" .clear, mode "print-config" .printConfig]

def named : List Argument := modes ++ [
  setting "source" .ok fun o v => { o with source := some v },
  { setting "configure" path fun o v => { o with configure := some v } with short := some 'c' },
  { name := "data", effect := .value fun v i => (path v).map fun v => { i with data := some v } },
  { name := "template", short := some 't',
    effect := .value fun v i => (path v).map fun v => { i with template := some v } },
  { setting "heading-depth" count fun o v => { o with headingDepth := some v } with short := some 'd' },
  setting "example-lang" .ok fun o v => { o with exampleLang := some v },
  paths "plugin" fun o vs => { o with plugins := o.plugins ++ vs },
  paths "helper" fun o vs => { o with helpers := o.helpers ++ vs },
  paths "partial" fun o vs => { o with partials := o.partials ++ vs },
  setting "name-format" (choice NameFormat.choice) fun o v => { o with nameFormat := some v },
  switch "no-gfm" ({ · with noGfm := true }),
  switch "separators" ({ · with separators := true }),
  setting "module-index-format" (choice IndexFormat.choice)
    fun o v => { o with moduleIndex := some v },
  setting "global-index-format" (choice IndexFormat.choice)
    fun o v => { o with globalIndex := some v },
  setting "member-index-format" (choice MemberIndexFormat.choice)
    fun o v => { o with memberIndex := some v },
  setting "param-list-format" (choice ListFormat.choice) fun o v => { o with paramList := some v },
  setting "property-list-format" (choice ListFormat.choice)
    fun o v => { o with propertyList := some v },
  switch "no-cache" ({ · with noCache := true }),
  switch "private" ({ · with showPrivate := true }),
  switch "html" ({ · with html := true }),
  { name := "verbose", short := some 'v', effect := .flag ({ · with verbose := true }) },
  { name := "quiet", short := some 'q', effect := .flag ({ · with quiet := true }) },
  { name := "config", effect := .value fun v i => (path v).map fun v => { i with config := some v } },
  { name := "help", short := some 'h', effect := .help },
  { name := "version", short := some 'V', effect := .version }]

def ofName? (name : List Char) : Option Argument := named.find? fun a => a.name.toList == name

def ofShort? (c : Char) : Option Argument := named.find? fun a => a.short == some c

def takesValue (a : Argument) : Bool :=
  match a.effect with
  | .value _ | .values _ => true
  | _ => false

def takesMany (a : Argument) : Bool :=
  match a.effect with
  | .values _ => true
  | _ => false

end Argument

structure Reading where
  invocation : Invocation := {}
  given : List String := []
  pending : Option (Argument × List String) := none
  expects : Bool := false
  plain : Bool := false

namespace Reading

/-- An option carried out with its values; what takes no list is given at most once. -/
def carryOut (r : Reading) (a : Argument) (values : List String) : Except Refusal Reading := do
  let done (i : Invocation) : Reading := { r with invocation := i, given := a.name :: r.given }
  match a.effect, values with
  | .flag set, _ =>
    if r.given.contains a.name then .error .argumentConflict else .ok (done (set r.invocation))
  | .value set, v :: _ =>
    if r.given.contains a.name then .error .argumentConflict
    else (set v r.invocation).map done
  | .values set, v :: vs => (set (v :: vs) r.invocation).map done
  | .value _, [] | .values _, [] => .error .invalidValue
  | .help, _ => .error .displayHelp
  | .version, _ => .error .displayVersion

def settle (r : Reading) : Except Refusal Reading :=
  match r.pending with
  | some (a, values) => carryOut { r with pending := none, expects := false } a values
  | none => .ok { r with expects := false }

def react (r : Reading) (a : Argument) (values : List String) : Except Refusal Reading := do
  (← r.settle).carryOut a values

def option (r : Reading) (a : Argument) (attached : Option (List Char)) : Except Refusal Reading :=
  match attached with
  | some v => r.react a [String.ofList v]
  | none => do pure { ← r.settle with pending := some (a, []), expects := true }

def long (r : Reading) (body : List Char) : Except Refusal Reading :=
  let (name, attached) := match Text.splitFirst? '=' body with
    | some (name, v) => (name, some v)
    | none => (body, none)
  match Argument.ofName? name with
  | none => .error .unknownArgument
  | some a =>
    if a.takesValue then r.option a attached
    else if attached.isSome then .error .tooManyValues
    else r.react a []

def letters (r : Reading) : List Char → Except Refusal Reading
  | [] => .ok r
  | c :: cs =>
    match Argument.ofShort? c with
    | none => .error .unknownArgument
    | some a =>
      if a.takesValue then
        match cs with
        | [] => r.option a none
        | '=' :: v => r.option a (some v)
        | v => r.option a (some v)
      else do (← r.react a []).letters cs

def word (r : Reading) (v : String) : Except Refusal Reading :=
  match r.pending with
  | some (a, values) =>
    if r.expects ∧ ¬ r.plain then
      .ok { r with pending := some (a, values ++ [v]), expects := a.takesMany }
    else if a.name = Argument.files.name then .ok { r with pending := some (a, values ++ [v]) }
    else do pure { ← r.settle with pending := some (.files, [v]) }
  | none => do pure { ← r.settle with pending := some (.files, [v]) }

def step (r : Reading) (arg : String) : Except Refusal Reading :=
  if r.plain then r.word arg
  else match arg.toList with
    | ['-', '-'] => .ok { r with plain := true }
    | '-' :: '-' :: body => r.long body
    | '-' :: c :: cs => r.letters (c :: cs)
    | _ => r.word arg

def hasConflict (r : Reading) : Bool :=
  ((Argument.modes.map (·.name)).filter r.given.contains).length > 1 ||
    (r.given.contains "verbose" && r.given.contains "quiet")

end Reading

def read (args : List String) : Except Refusal Invocation := do
  let r ← args.foldlM Reading.step {}
  let r ← r.settle
  if r.hasConflict then .error .argumentConflict else .ok r.invocation

end ApiPages.CommandLine
