import ApiPages.Json.Value

/-!
Templates as trees: expressions over the values of a page, and nodes that write text, choose,
repeat and bring in other templates.
-/
namespace ApiPages.Template

inductive Operator where
  | or | and | equal | differs
  deriving DecidableEq, Repr

inductive Expr where
  | literal (value : Json)
  | path (name : String)
  | filtered (value : Expr) (filter : String) (args : List (String × Expr))
  | call (library macroName : String) (args : List (String × Expr))
  | function (name : String) (args : List (String × Expr))
  | negated (value : Expr)
  | operation (op : Operator) (left right : Expr)

structure Param where
  name : String
  default? : Option Json

inductive Node where
  | text (s : String)
  | print (value : Expr)
  | branch (condition : Expr) (body otherwise : List Node)
  | loop (variableName : String) (source : Expr) (body otherwise : List Node)
  | use (template : String)
  | define (macroName : String) (params : List Param) (body : List Node)
  | load (template library : String)

structure Named where
  name : String
  nodes : List Node

structure Macro where
  name : String
  home : String
  params : List Param
  body : List Node

/-- The macros that a template defines. Only those outside of all other nodes can be called. -/
def Named.macros (t : Named) : List Macro :=
  t.nodes.filterMap fun
    | .define name params body => some ⟨name, t.name, params, body⟩
    | _ => none

def Named.imports (t : Named) : List (String × String) :=
  t.nodes.filterMap fun
    | .load template library => some (template, library)
    | _ => none

def find? (templates : List Named) (name : String) : Option Named :=
  templates.find? fun t => t.name == name

namespace Expr

def core : Expr → Expr
  | .filtered value _ _ => value.core
  | .negated value => value.core
  | e => e

mutual

def numbers : Expr → List Number
  | .literal (.number n) => [n]
  | .literal _ | .path _ => []
  | .filtered value _ args => numbers value ++ argNumbers args
  | .call _ _ args | .function _ args => argNumbers args
  | .negated value => numbers value
  | .operation _ left right => numbers left ++ numbers right

def argNumbers : List (String × Expr) → List Number
  | [] => []
  | (_, e) :: args => numbers e ++ argNumbers args

end

end Expr

mutual

def Node.numbers : Node → List Number
  | .text _ | .use _ | .load _ _ => []
  | .print e => e.numbers
  | .branch condition body otherwise => condition.numbers ++ allNumbers body ++ allNumbers otherwise
  | .loop _ source body otherwise => source.numbers ++ allNumbers body ++ allNumbers otherwise
  | .define _ params body =>
    (params.filterMap fun p => match p.default? with
      | some (.number n) => some n
      | _ => none) ++ allNumbers body

def allNumbers : List Node → List Number
  | [] => []
  | node :: nodes => node.numbers ++ allNumbers nodes

end

end ApiPages.Template
