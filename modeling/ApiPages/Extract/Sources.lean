import ApiPages.Extract.Input
import ApiPages.Files.Selection
import ApiPages.Options.Stage

/-!
The inputs that options ask for. A source text comes before files, and files before a configuration;
there must be one of them, and files must exist.
-/
namespace ApiPages.ExtractOptions

/-- Paths that are at least one; the patterns or rules they come from are named otherwise. -/
def someFiles (patterns paths : List String) : Except Failure (List String) :=
  if paths = [] then .error (Failure.ofProblem (.filesNotFound patterns)) else .ok paths

def paths (o : ExtractOptions) (d : Disk) (base : String) : Except Failure (List String) :=
  if o.files ≠ [] then do
    let found ← (Selection.ofPatterns d base o.files).mapError Failure.ofProblem
    someFiles o.files found
  else match o.configure with
    | some path => do
      let rules ← Selection.load d (Path.join base path)
      let found ← rules.files d base o.html
      someFiles rules.source.included found
    | none => .error (Failure.ofProblem .noInput)

def readInput (d : Disk) (path : String) : Except Failure Input :=
  match d.readText? path with
  | some text => .ok { path := some path, text }
  | none => .error (Config.unread "Failed to read source file" path)

def inputs (o : ExtractOptions) (d : Disk) (base : String) : Except Failure (List Input) :=
  match o.source with
  | some text => .ok [{ text }]
  | none => do (← o.paths d base).mapM (readInput d)

end ApiPages.ExtractOptions
