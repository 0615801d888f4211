import ApiPages.Json.Double
import ApiPages.Json.Reader
import ApiPages.Template.Filter
import ApiPages.Template.Written
import ApiPages.Text.Cluster

/-!
Laying out a template. A `Stage` holds what a template sees while it runs: the page, the variables
of loops and macros, and how to run other templates and macros. Included templates see the variables
around them; macros see their arguments and the page.
-/
namespace ApiPages.Template

def decimalText (negative : Bool) (digits : Nat) (exponent : Int) : List Char :=
  let ds := Json.digits digits
  let sign := if negative then ['-'] else []
  if 0 ≤ exponent then sign ++ ds ++ List.replicate exponent.toNat '0'
  else
    let places := (-exponent).toNat
    let ds := List.replicate (places + 1 - ds.length) '0' ++ ds
    sign ++ ds.take (ds.length - places) ++ '.' :: ds.drop (ds.length - places)

mutual

def shown : Json → List Char
  | .null => []
  | .bool b => (if b then "true" else "false").toList
  | .number (.whole n) => Json.writeInt n
  | .number (.decimal negative digits exponent) => decimalText negative digits exponent
  | .string s => s.toList
  | .array items => '[' :: shownItems items
  | .object _ => "[object]".toList

def shownItems : List Json → List Char
  | [] => [']']
  | item :: items => shown item ++ shownMore items

def shownMore : List Json → List Char
  | [] => [']']
  | item :: items => ',' :: ' ' :: shown item ++ shownMore items

end

def isTrue : Json → Bool
  | .null => false
  | .bool b => b
  | .number n => n.isNonzero
  | .string s => s != ""
  | .array items => !items.isEmpty
  | .object fields => !fields.isEmpty

def compare (equal : Bool) : Json → Json → Bool
  | .number a, .number b => a.sameValue b == equal
  | .number _, _ | _, .number _ => false
  | a, b => a.sorted.same b.sorted == equal

def position? (step : List Char) : Option Nat :=
  if step = [] ∨ !step.all Char.isDigit ∨ (step.head? = some '0' ∧ step.length ≠ 1) then none
  else some (Json.natOf step)

def stepTo? (value : Json) (step : List Char) : Option Json :=
  match value with
  | .object _ => value.get? (String.ofList step)
  | .array items => (position? step).bind fun i => items[i]?
  | _ => none

def follow? (value : Json) (steps : List (List Char)) : Option Json := steps.foldlM stepTo? value

inductive Local where
  | argument (name : String) (value : Json)
  | round (name : String) (item : Json) (i count : Nat)

def progress (i count : Nat) : Json := .object [
  ("index", .whole (i + 1)), ("index0", .whole i), ("first", .bool (i == 0)),
  ("last", .bool (i + 1 == count))]

/-- What a name and the steps after it mean to a variable. In a round the name `loop` stands for the
progress, which has no value of its own but only its parts; it hides an item of that name. -/
def Local.get? (l : Local) (name : List Char) (steps : List (List Char)) : Option Json :=
  match l with
  | .argument own value => if own.toList = name then follow? value steps else none
  | .round own item i count =>
    if name = "loop".toList then
      if steps = [] then none else follow? (progress i count) steps
    else if own.toList = name then follow? item steps
    else none

structure Stage where
  builtins : Builtins
  page : Json
  known : List Entry
  template : String
  locals : List Local
  use : String → List Local → Except Fault (List Char)
  macro? : String → String → Except Fault Macro
  call : Macro → List (String × Json) → Except Fault (List Char)

def Stage.lookup (s : Stage) (path : String) : Except Fault Json :=
  let found :=
    match Text.split '.' path.toList with
    | [] => none
    | name :: steps =>
      (s.locals.findSome? fun l => l.get? name steps).or (follow? s.page (name :: steps))
  match found with
  | some value => .ok value
  | none => .error (.missingVariable path s.template)

def Stage.answer (s : Stage) (name : String) (args : Except Fault Args) : Except Fault Json :=
  match s.builtins.function? name with
  | none => .error (.missingFunction name)
  | some answer => do
    let args ← args.mapError (.badFunctionArgument name)
    (answer args).mapError (.badAnswer name)

/-- Whether an operation holds, given how its sides hold and what their values are. The right side
of `or` and `and` is looked at only if it decides. -/
def Operator.decide (op : Operator) (left right : Unit → Except Fault Bool)
    (leftValue rightValue : Unit → Except Fault Json) : Except Fault Bool :=
  match op with
  | .or => do if ← left () then pure true else right ()
  | .and => do if ← left () then right () else pure false
  | .equal => do
    let l ← leftValue ()
    let r ← rightValue ()
    pure (compare true l r)
  | .differs => do
    let l ← leftValue ()
    let r ← rightValue ()
    pure (compare false l r)

mutual

/-- The value of an expression. The negation of a name that is missing holds. -/
def value (s : Stage) : Expr → Except Fault Json
  | .literal v => .ok v
  | .path name => s.lookup name
  | .filtered e filter args => do
    let v ← value s e
    Filter.check s.builtins filter
    let args ← (argValues s (args.map Prod.fst) args).mapError (.badArgument filter)
    Filter.apply s.builtins s.known filter args v
  | .call library macroName args => do
    let m ← s.macro? library macroName
    let args ← argValues s (m.params.map (·.name)) args
    let text ← s.call m args
    pure (.string (String.ofList text))
  | .function name args => s.answer name (argValues s (args.map Prod.fst) args)
  | .negated e =>
    match e.core with
    | .path name =>
      match s.lookup name with
      | .ok _ => (value s e).map fun v => .bool !isTrue v
      | .error _ => .ok (.bool true)
    | _ => (value s e).map fun v => .bool !isTrue v
  | .operation op left right =>
    (op.decide (fun _ => holds s left) (fun _ => holds s right) (fun _ => value s left)
      (fun _ => value s right)).map Json.bool

/-- Whether a condition holds. A name that is missing does not hold, nor do its filters fail. -/
def holds (s : Stage) : Expr → Except Fault Bool
  | .literal v => .ok (isTrue v)
  | .path name => .ok ((s.lookup name).toOption.any isTrue)
  | .filtered e filter args =>
    match e.core with
    | .path _ =>
      let result := do
        let v ← value s e
        Filter.check s.builtins filter
        let args ← argValues s (args.map Prod.fst) args
        Filter.apply s.builtins s.known filter args v
      .ok (result.toOption.any isTrue)
    | _ => holds s e
  | .call library macroName args => do
    let m ← s.macro? library macroName
    let args ← argValues s (m.params.map (·.name)) args
    let text ← s.call m args
    pure (text != [])
  | .function name args => do
    match ← s.answer name (argValues s (args.map Prod.fst) args) with
    | .bool b => pure b
    | _ => .error (.undecided name)
  | .negated e =>
    match e.core with
    | .path name =>
      match s.lookup name with
      | .ok _ => .ok ((value s e).toOption.any fun v => !isTrue v)
      | .error _ => .ok true
    | _ => (holds s e).map (!·)
  | .operation op left right =>
    op.decide (fun _ => holds s left) (fun _ => holds s right) (fun _ => value s left)
      (fun _ => value s right)

/-- The values of the arguments that are asked for by name; of several with one name the last one
counts, and the others have no value. -/
def argValues (s : Stage) (wanted : List String) :
    List (String × Expr) → Except Fault (List (String × Json))
  | [] => .ok []
  | (name, e) :: args =>
    if wanted.contains name ∧ ¬ args.any fun arg => arg.1 == name then do
      let v ← value s e
      let vs ← argValues s wanted args
      pure ((name, v) :: vs)
    else argValues s wanted args

end

def items (s : Stage) (source : Expr) : Except Fault (List Json) :=
  match source.core with
  | .path name | .function name _ => do
    match ← value s source with
    | .array items => pure items
    | .string text => pure ((Text.clusters text.toList).map fun cluster => .string (String.ofList cluster))
    | .object _ => .error (.missingKey name)
    | _ => .error (.notIterable name)
  | _ => .error (.notNamed source.written)

def Stage.inLoop (s : Stage) (name : String) (item : Json) (i count : Nat) : Stage :=
  { s with locals := .round name item i count :: s.locals }

def rounds (body : Json → Nat → Except Fault (List Char)) : Nat → List Json →
    Except Fault (List Char)
  | _, [] => .ok []
  | i, item :: items => do
    let text ← body item i
    let more ← rounds body (i + 1) items
    pure (text ++ more)

mutual

def run (s : Stage) : Node → Except Fault (List Char)
  | .text t => .ok t.toList
  | .print e => (value s e).map shown
  | .branch condition body otherwise => do
    if ← holds s condition then runAll s body else runAll s otherwise
  | .loop name source body otherwise => do
    match ← items s source with
    | [] => runAll s otherwise
    | items => rounds (fun item i => runAll (s.inLoop name item i items.length) body) 0 items
  | .use name => s.use name s.locals
  | .define _ _ _ | .load _ _ => .ok []

def runAll (s : Stage) : List Node → Except Fault (List Char)
  | [] => .ok []
  | node :: nodes => do
    let text ← run s node
    let more ← runAll s nodes
    pure (text ++ more)

end

/-- The libraries of a template with the template that each stands for; the first of a name counts.
What it imports comes first, the last import before the others; then its own macros under `self`;
then the libraries of what it imports. The count bounds how long a chain of imports may be. -/
def libraries (templates : List Named) : Nat → String → List (String × String)
  | 0, _ => []
  | depth + 1, template =>
    match find? templates template with
    | none => []
    | some t =>
      let imported := t.imports.map fun (home, library) => (library, home)
      imported.reverse ++ (if t.macros.isEmpty then [] else [("self", template)]) ++
        imported.flatMap fun (_, home) => libraries templates depth home

def macro? (templates : List Named) (template library name : String) : Except Fault Macro :=
  match (libraries templates templates.length template).lookup library with
  | none => .error (.missingLibrary library template)
  | some home =>
    match (((find? templates home).map Named.macros).getD []).find? fun m => m.name == name with
    | some m => .ok m
    | none => .error (.missingMacro library name template)

def bindParams (macroName : String) (args : List (String × Json)) : List Param →
    Except Fault (List Local)
  | [] => .ok []
  | param :: params =>
    match (args.lookup param.name).or param.default? with
    | some v => (bindParams macroName args params).map (.argument param.name v :: ·)
    | none => .error (.missingArgument macroName param.name)

/-- The text of some nodes of a template. The count bounds how deep templates and macros may run
inside each other. -/
def layOut (builtins : Builtins) (templates : List Named) (page : Json) (known : List Entry) :
    Nat → String → List Local → List Node → Except Fault (List Char)
  | 0, _, _, _ => .error .tooDeep
  | depth + 1, template, locals, nodes =>
    runAll
      { builtins := builtins, page := page, known := known, template := template, locals := locals
        use := fun name locals =>
          match find? templates name with
          | some t => layOut builtins templates page known depth name locals t.nodes
          | none => .error (.missingTemplate name)
        macro? := macro? templates template
        call := fun m args => do
          let locals ← bindParams m.name args m.params
          layOut builtins templates page known depth m.home locals m.body }
      nodes

def depthLimit : Nat := 200

end ApiPages.Template
