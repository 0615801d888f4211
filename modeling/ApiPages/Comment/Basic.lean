import ApiPages.Text.Line

/-!
A doc comment taken apart: its text without delimiters and margin, then the description that leads
it and the tags that follow. A tag goes on until the next one begins.
-/
namespace ApiPages

structure Tag where
  title : String
  value : List Char
  deriving DecidableEq, Repr

structure Comment where
  description : Option (List Char) := none
  tags : List Tag := []
  deriving DecidableEq, Repr

namespace Comment

def withoutMargin (line : List Char) : List Char :=
  let text := Text.trimStart line
  match text with
  | '*' :: ' ' :: rest => rest
  | '*' :: rest => rest
  | _ => text

def without (head cs : List Char) : List Char := (Text.after? head cs).getD cs

def clean (raw : List Char) : List Char :=
  let body := without "/**".toList (Text.trim raw)
  let body := (Text.before? "*/".toList body).getD body
  Text.trimBlankLines (Text.join ['\n']
    ((Text.lines body).map fun line => Text.trimEnd (withoutMargin line)))

/-- What a tag title is made of; marks of insistence at its end are dropped. -/
def isTitleChar (c : Char) : Bool := c.isAlphanum || c == '_' || c == '!'

def tagStart? (line : List Char) : Option (String × List Char) :=
  match Text.trimStart line with
  | '@' :: c :: rest =>
    if c.isAlpha then
      let (title, value) := (c :: rest).span isTitleChar
      some (String.ofList (Text.dropEndWhile (· = '!') title), Text.trimStart value)
    else none
  | _ => none

def gather : List (List Char) → List (List Char) × List Tag
  | [] => ([], [])
  | line :: more =>
    let (body, tags) := gather more
    match tagStart? line with
    | some (title, value) => ([], ⟨title, Text.join ['\n'] (value :: body)⟩ :: tags)
    | none => (line :: body, tags)

/-- The value of a tag without outer blanks; an example keeps the indentation of its first line. -/
def settle (tag : Tag) : Tag :=
  { tag with value := if tag.title = "example" then Text.trimBlankLines tag.value else Text.trim tag.value }

def ofText (text : List Char) : Comment :=
  let (body, tags) := gather (Text.lines text)
  { description := Text.nonEmpty? (Text.join ['\n'] body), tags := tags.map settle }

def ofRaw (raw : List Char) : Comment := ofText (clean raw)

def has (c : Comment) (title : String) : Bool := c.tags.any fun tag => tag.title == title

def first? (c : Comment) (titles : List String) : Option (List Char) :=
  (c.tags.find? fun tag => titles.contains tag.title).map (·.value)

def text? (c : Comment) (title : String) : Option (List Char) :=
  (c.first? [title]).bind Text.nonEmpty?

end Comment

end ApiPages
