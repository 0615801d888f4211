import ApiPages.Record.Entry
import ApiPages.Text.Line

/-!
The names that links jump to, and the entry that a name refers to: the first one of that longname
that is not a constructor.
-/
namespace ApiPages

def anchorReplacements : List (String × String) :=
  [("module:", "module_"), ("event:", "event_"), ("external:", "external_"), ("~", ".."), ("#", "+"),
    (":", "_"), (" ", "_"), ("\"", "")]

def sanitize (name : String) : String :=
  String.ofList (anchorReplacements.foldl
    (fun cs (part, new) => Text.replace part.toList new.toList cs) name.toList)

def escapeHtml (text : String) : String :=
  String.ofList (text.toList.flatMap fun c =>
    if c = '&' then "&amp;".toList
    else if c = '<' then "&lt;".toList
    else if c = '>' then "&gt;".toList
    else [c])

namespace Entry

def isConstructor (e : Entry) : Bool := e.kind == .constructor

/-- The anchor of an entry. A constructor has one of its own beside that of its class. -/
def anchor (e : Entry) : String :=
  if e.isConstructor then "new_" ++ sanitize e.longname ++ "_new"
  else if e.id = "" then sanitize e.longname
  else sanitize e.id

end Entry

def documented? (known : List Entry) (longname : String) : Option Entry :=
  known.find? fun e => !e.isConstructor && e.longname == longname

def anchorOf? (known : List Entry) (longname : String) : Option String :=
  (documented? known longname).map Entry.anchor

end ApiPages
