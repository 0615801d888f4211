import ApiPages.CommandLine.Invocation
import ApiPages.Service

/-!
Carrying out an invocation. The options of a file lie under those of the command line; the mode
decides which call they are passed to and the answer is printed.
-/
namespace ApiPages.CommandLine

def optionFiles : List String := [".jsdoc2md.toml", ".jsdoc2md.json"]

def fileOptions (d : Disk) (folder : String) (given : Option String) : Except Failure Options :=
  match given <|> (optionFiles.map (Path.join folder)).find? d.isFile with
  | some path => Config.load d Options.codec path
  | none => .ok {}

def readNamed (d : Disk) (what path : String) : Except Failure String :=
  match d.readText? path with
  | some text => .ok text
  | none => .error (Config.unread ("Failed to read " ++ what) path)

def readEntries (d : Disk) (path : String) : Except Failure (List Entry) :=
  let parse (text : String) := match (Json.parseBounded? text).bind Entry.codec.list.decode with
    | some entries => .ok entries
    | none => .error {
        root := .outside "This is no list of entries"
        contexts := ["Failed to parse template data: " ++ path] }
  (readNamed d "template data" path).bind parse

def ownOptions (d : Disk) (i : Invocation) : Except Failure Options := do
  let template ← i.template.mapM (readNamed d "template")
  let data ← i.data.mapM (readEntries d)
  pure { i.options with template, data }

def resolve (d : Disk) (folder : String) (i : Invocation) : Except Failure Options := do
  let base ← fileOptions d folder i.config
  pure (base.merge (← ownOptions d i))

def Mode.request? : Mode → Option Request
  | markdown => some .page
  | templateData => some .entries
  | rawData => some .doclets
  | namepaths => some .namepaths
  | clear => some .clear
  | printConfig => none

def shown (v : Json) : String := v.pretty ++ "\n"

def print : Answer → String
  | .page text => text
  | .entries es => shown (Entry.codec.list.encode es)
  | .doclets ds => shown (Doclet.codec.list.encode ds)
  | .namepaths groups =>
    shown (.object (groups.map fun (kind, names) => (kind.name, Codec.text.list.encode names)))
  | .cleared => ""

def run (s : Service) (w : World) (i : Invocation) : Except Failure String × Service × Disk :=
  match resolve w.disk s.base i with
  | .error f => (.error f, s, w.disk)
  | .ok options =>
    match i.mode.request? with
    | none => (.ok (shown (Options.codec.encode options)), s, w.disk)
    | some request =>
      let (answer, s, d) := s.answer w { request, options }
      (answer.map print, s, d)

end ApiPages.CommandLine
