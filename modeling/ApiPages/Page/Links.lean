import ApiPages.Page.Anchor

/-!
Links in running text. An inline link tag names a target and may carry a label, in square brackets
before it or behind the target; a known target links to its anchor, and an address to itself.
-/
namespace ApiPages

structure InlineLink where
  code : Bool
  target : List Char
  label : List Char
  deriving DecidableEq, Repr

namespace InlineLink

def afterTag? (cs : List Char) : Option (Bool × List Char) :=
  [("linkcode", true), ("linkplain", false), ("link", false)].findSome? fun (word, code) =>
    match Text.after? ('{' :: '@' :: word.toList) cs with
    | some (c :: rest) => if Text.isBlank c then some (code, Text.trimStart rest) else none
    | _ => none

def afterSeparator (cs : List Char) : List Char :=
  match Text.trimStart cs with
  | '|' :: rest => Text.trimStart rest
  | rest => rest

def read? (cs : List Char) : Option (InlineLink × List Char) := do
  let (code, rest) ← afterTag? cs
  let (target, rest) := rest.span fun c => !(c == '}' || c == '|' || Text.isBlank c)
  if target = [] then none
  else
    let (label, rest) ← Text.splitFirst? '}' (afterSeparator rest)
    some ({ code := code, target := target, label := Text.trim label }, rest)

def readLabelled? (cs : List Char) : Option (InlineLink × List Char) := do
  let inner ← Text.after? ['['] cs
  let (label, rest) ← Text.splitFirst? ']' inner
  if label = [] then none
  else
    let (link, rest) ← read? rest
    some ({ link with label := Text.trim label }, rest)

def shown (known : List Entry) (l : InlineLink) : List Char :=
  let label := if l.label = [] then l.target else l.label
  let label := if l.code then "<code>".toList ++ label ++ "</code>".toList else label
  if Text.contains "://".toList l.target then
    '[' :: label ++ "](".toList ++ l.target ++ [')']
  else match anchorOf? known (String.ofList l.target) with
    | some anchor => '[' :: label ++ "](#".toList ++ anchor.toList ++ [')']
    | none =>
      "<code>".toList ++ (escapeHtml (String.ofList l.target)).toList ++ "</code>".toList

end InlineLink

def linkifyFrom (known : List Entry) : Nat → List Char → List Char
  | 0, cs => cs
  | _ + 1, [] => []
  | n + 1, c :: cs =>
    match (InlineLink.readLabelled? (c :: cs)).or (InlineLink.read? (c :: cs)) with
    | some (link, rest) => link.shown known ++ linkifyFrom known n rest
    | none => c :: linkifyFrom known n cs

def linkify (known : List Entry) (text : String) : String :=
  String.ofList (linkifyFrom known text.length text.toList)

def linkedName (known : List Entry) (name : String) : String :=
  let code := "<code>" ++ escapeHtml name ++ "</code>"
  match anchorOf? known name with
  | some anchor => "[" ++ code ++ "](#" ++ anchor ++ ")"
  | none => code

def typeBar : String := " \\| "

def linkedType (known : List Entry) (type : TypeExpr) : String :=
  typeBar.intercalate (type.names.map (linkedName known))

end ApiPages
