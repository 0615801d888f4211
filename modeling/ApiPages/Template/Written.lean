import ApiPages.Json.Printer
import ApiPages.Template.Tree
import ApiPages.Text.Cluster

/-!
Expressions written out as trees, the way messages about them show them: every part under its name.
-/
namespace ApiPages.Template

def isUnseen (c : Char) : Bool :=
  c.toNat ≥ 0x80 && (Text.isBlank c || Text.isControl c ||
    Text.covered [(0xe000, 0xf8ff), (0xf0000, 0x10ffff)] c.toNat ||
    (Text.isExtending c && Text.isCaseIgnorable c && !Text.covered [(0x1f3fb, 0x1f3ff)] c.toNat))

def quotedChar (c : Char) : List Char :=
  if c = '"' then ['\\', '"']
  else if c = '\\' then ['\\', '\\']
  else if c = '\n' then ['\\', 'n']
  else if c = '\r' then ['\\', 'r']
  else if c = '\t' then ['\\', 't']
  else if c = '\x00' then ['\\', '0']
  else if c.toNat < 0x20 ∨ c = '\x7f' ∨ isUnseen c then
    "\\u\x7b".toList ++ Nat.toDigits 16 c.toNat ++ ['\x7d']
  else [c]

def quotedText (s : String) : String :=
  "\"" ++ String.ofList (s.toList.flatMap quotedChar) ++ "\""

def recordText (name : String) (parts : List (String × String)) : String :=
  name ++ " \x7b " ++ ", ".intercalate (parts.map fun (part, value) => part ++ ": " ++ value) ++ " \x7d"

def Operator.text : Operator → String
  | .or => "Or"
  | .and => "And"
  | .equal => "Eq"
  | .differs => "NotEq"

/-- A value that stands in an expression; a number from a ten-thousandth up to sixteen digits is
written without an exponent. -/
def literalText : Json → String
  | .bool b => "Bool(" ++ (if b then "true" else "false") ++ ")"
  | .number (.whole n) => "Int(" ++ String.ofList (Json.writeInt n) ++ ")"
  | .number (.decimal negative digits exponent) =>
    "Float(" ++ String.ofList (Json.writeDecimal 3 negative digits exponent) ++ ")"
  | .string s => "String(" ++ quotedText s ++ ")"
  | _ => ""

structure ExprText where
  value : String
  negated : Bool := false
  filters : List String := []

def ExprText.text (e : ExprText) : String :=
  recordText "Expr" [("val", e.value), ("negated", if e.negated then "true" else "false"),
    ("filters", "[" ++ ", ".intercalate e.filters ++ "]")]

def callText (name : String) (args : List String) : String :=
  recordText "FunctionCall" [("name", quotedText name),
    ("args", "\x7b" ++ ", ".intercalate args ++ "\x7d")]

mutual

def Expr.parts : Expr → ExprText
  | .literal value => { value := literalText value }
  | .path name => { value := "Ident(" ++ quotedText name ++ ")" }
  | .filtered e filter args =>
    let inner := e.parts
    { inner with filters := inner.filters ++ [callText filter (argTexts args)] }
  | .call library macroName args =>
    { value := "MacroCall(" ++ recordText "MacroCall" [("namespace", quotedText library),
        ("name", quotedText macroName),
        ("args", "\x7b" ++ ", ".intercalate (argTexts args) ++ "\x7d")] ++ ")" }
  | .function name args => { value := "FunctionCall(" ++ callText name (argTexts args) ++ ")" }
  | .negated e => { e.parts with negated := true }
  | .operation op left right =>
    { value := "Logic(" ++ recordText "LogicExpr" [("lhs", left.parts.text),
        ("rhs", right.parts.text), ("operator", op.text)] ++ ")" }

def argTexts : List (String × Expr) → List String
  | [] => []
  | (name, e) :: args =>
    let more := argTexts args
    if args.any fun arg => arg.1 == name then more
    else (quotedText name ++ ": " ++ e.parts.text) :: more

end

def Expr.written (e : Expr) : String := e.parts.value

end ApiPages.Template
