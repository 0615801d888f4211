import ApiPages.Comment.Basic
import ApiPages.Comment.Value
import ApiPages.Extract.TagTable
import ApiPages.Record.Doclet

/-!
What the descriptive tags of a comment put into a doclet. Tags are taken in order: a single value
is that of the last tag, a list grows by every tag.
-/
namespace ApiPages

def Tags.add (t : Tags) (title : String) (value : List Char) : Tags :=
  match title with
  | "description" | "desc" => { t with description := TagValue.text? value }
  | "classdesc" => { t with classdesc := TagValue.text? value }
  | "summary" => { t with summary := TagValue.text? value }
  | "param" | "arg" | "argument" => { t with params := t.params ++ [TagValue.param value] }
  | "property" | "prop" => { t with properties := t.properties ++ [TagValue.param value] }
  | "returns" | "return" => { t with returns := t.returns ++ [TagValue.returned value] }
  | "throws" | "exception" => { t with exceptions := t.exceptions ++ [TagValue.returned value] }
  | "type" => { t with type := (TagValue.plainType value).or t.type }
  | "access" => { t with access := Access.ofTag? (String.ofList value) }
  | "private" => { t with access := some .privateAccess }
  | "protected" => { t with access := some .protectedAccess }
  | "public" => { t with access := some .publicAccess }
  | "package" => { t with access := some .packageAccess }
  | "deprecated" => { t with deprecated := some (String.ofList value) }
  | "since" => { t with since := TagValue.text? value }
  | "version" => { t with version := TagValue.text? value }
  | "see" => { t with see := t.see ++ (TagValue.text? value).toList }
  | "todo" => { t with todo := t.todo ++ (TagValue.text? value).toList }
  | "author" => { t with author := t.author ++ (TagValue.text? value).toList }
  | "augments" | "extends" => { t with augments := t.augments ++ (TagValue.text? value).toList }
  | "mixes" => { t with mixes := t.mixes ++ (TagValue.text? value).toList }
  | "fires" | "emits" => { t with fires := t.fires ++ (TagValue.text? value).toList }
  | "default" | "defaultvalue" => { t with default := TagValue.text? value }
  | "readonly" => { t with readonly := true }
  | "async" => { t with async := true }
  | "generator" => { t with generator := true }
  | "category" => { t with category := TagValue.text? value }
  | "hideconstructor" => { t with hideConstructor := true }
  | "example" | "ignore" => t
  | title =>
    if isCustomTitle title then { t with custom := t.custom ++ [⟨title, String.ofList value⟩] }
    else t

namespace Doclet

def addTag (d : Doclet) (tag : Tag) : Doclet :=
  { d with
    tags := d.tags.add tag.title tag.value
    examples := if tag.title = "example" then d.examples ++ [String.ofList tag.value] else d.examples
    ignored := d.ignored || tag.title == "ignore" }

def describe (d : Doclet) (c : Comment) : Doclet :=
  c.tags.foldl addTag
    { d with tags := { d.tags with description := c.description.map String.ofList } }

end Doclet

end ApiPages
