import ApiPages.Files.Selection
import ApiPages.Template.Render

/-!
The template files that a person supplies. A path stands for a file, for the files of a folder or for
the files that a pattern matches; a template has the name of its file up to the first point.
-/
namespace ApiPages.TemplateFile

def nameOf (path : String) : String :=
  let name := (Path.fileName? path).getD ""
  match Text.splitFirst? '.' name.toList with
  | some (c :: stem, _) => String.ofList (c :: stem)
  | _ => name

def isPattern (path : String) : Bool := path.toList.any fun c => c == '*' || c == '?' || c == '['

def inFolder (d : Disk) (folder : String) : List String :=
  (((d.list? folder).getD []).filter fun name => name.toList.head? != some '.').filterMap fun name =>
    let path := Path.join folder name
    if d.isFile path then some path else none

def expandOne (d : Disk) (path : String) : Except Problem (List String) :=
  if isPattern path then
    match Glob.read path with
    | .error fault => .error (.templateFile path fault.message)
    | .ok glob =>
      match glob.files d with
      | [] => .error (.templateFile path "pattern matched no files")
      | found => .ok found
  else if d.isFolder path then .ok ((inFolder d path).mergeSort Path.le)
  else if d.isFile path then .ok [path]
  else .error (.templateFile path "no such file or directory")

def expand (d : Disk) (paths : List String) : Except Problem (List String) :=
  (paths.mapM (expandOne d)).map fun found => found.foldl Path.addNew []

def read (d : Disk) (path : String) : Except Problem TemplateFile :=
  match d.readText? path with
  | some content => .ok { name := nameOf path, path, content }
  | none => .error (.templateFile path "stream did not contain valid UTF-8")

def readAll (d : Disk) (paths : List String) : Except Problem (List TemplateFile) := do
  (← expand d paths).mapM (read d)

/-- Where the templates of a plugin are: in its folder for partials, if it has one. -/
def pluginFolder (d : Disk) (plugin : String) : String :=
  let inner := Path.join plugin "partials"
  if d.isFolder inner then inner else plugin

end TemplateFile

def UserTemplates.load (d : Disk) (o : RenderOptions) : Except Problem UserTemplates := do
  let plugins ← TemplateFile.readAll d (o.plugins.map (TemplateFile.pluginFolder d))
  let partials ← TemplateFile.readAll d o.partials
  let helpers ← TemplateFile.readAll d o.helpers
  pure { plugins, partials, helpers }

end ApiPages
