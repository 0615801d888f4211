import ApiPages.Extract.FileDoclets
import ApiPages.Source.Html

/-!
Extraction. Every input is read on its own; the doclets of all inputs are followed by one doclet
that lists the input files.
-/
namespace ApiPages

structure Input where
  path : Option String := none
  text : String
  deriving DecidableEq, Repr

namespace Input

def label (i : Input) : String := i.path.getD "source"

def isPage (html : Bool) (i : Input) : Bool :=
  html && i.path.any (Path.hasExtension ["html", "htm"])

def code (html : Bool) (i : Input) : List Char :=
  if i.isPage html then Source.scripts i.text.toList else i.text.toList

def doclets (html : Bool) (i : Input) : Except Problem (List Doclet) :=
  (Source.scan i.label (i.code html)).map (FileDoclets.ofBlocks (Origin.of i.path))

end Input

/-- The doclets of all inputs. The first input that cannot be read decides the failure. -/
def extract (html : Bool) (inputs : List Input) : Except Problem (List Doclet) := do
  let found ← inputs.mapM (Input.doclets html)
  pure (found.flatten ++ [Doclet.package (inputs.filterMap (·.path))])

end ApiPages
