import ApiPages.Cache.Basic
import ApiPages.Cache.Key
import ApiPages.Catalogue
import ApiPages.Extract.Sources
import ApiPages.Json.Printer
import ApiPages.Template.Supplied
import ApiPages.Usage

/-!
The service: doclets are extracted, entries are made of them, and a page is made of the entries.
Extraction and rendering may each have a cache, a folder on the disk that also holds the files of the
project; the key of a result is made of the options and of what was read. Every call is counted under
its name.
-/
namespace ApiPages

/-- A part of every key: results of other versions are not used. -/
def version : String := "0.1.0"

def ExtractOptions.keyParts (o : ExtractOptions) (inputs : List Input) : List String :=
  version ::
    (Json.array [.bool o.html, Codec.text.optional.encode o.configure]).compact ::
    inputs.flatMap fun i => [i.path.getD "", i.text]

def RenderOptions.keyParts (o : RenderOptions) (entries : List Entry) (user : UserTemplates) :
    List String :=
  version :: o.toJson.compact :: (Entry.codec.list.encode entries).compact ::
    user.files.flatMap fun f => [f.name, f.content]

inductive Request where
  | doclets | entries | page | namepaths | clear
  deriving DecidableEq, Repr

/-- A call. Whether the caller waits for the answer shows in the name of the call only. -/
structure Call where
  request : Request
  options : Options := {}
  waits : Bool := false
  deriving DecidableEq, Repr

def Call.name (c : Call) : String :=
  let variant (name : String) := if c.waits then name ++ "_sync" else name
  match c.request with
  | .doclets => variant "get_raw_data"
  | .entries => variant "get_template_data"
  | .page => variant "render"
  | .namepaths => "get_namepaths"
  | .clear => "clear"

inductive Answer where
  | doclets (found : List Doclet)
  | entries (made : List Entry)
  | page (text : String)
  | namepaths (groups : List (Kind × List String))
  | cleared
  deriving DecidableEq, Repr

structure World where
  disk : Disk := {}
  outside : Outside := {}
  deriving Repr

structure Service where
  base : String := ""
  engine : Template.Engine := Template.engine fun _ => {}
  /-- The folder of the cache for doclets. -/
  extracted : Option String := none
  /-- The folder of the cache for pages. -/
  rendered : Option String := none
  usage : Usage := {}

namespace Service

def through (d : Disk) (folder : Option String) (wanted : Bool) (codec : Codec α)
    (key : List String) (compute : Except Failure α) : Except Failure α × Disk :=
  match folder with
  | some folder =>
    if wanted then
      let (result, c) := ({ folder, disk := d } : Cache).memo codec (Key.ofParts key) compute
      (result, c.disk)
    else (compute, d)
  | none => (compute, d)

def doclets (s : Service) (d : Disk) (o : Options) : Except Failure (List Doclet) × Disk :=
  let o := ExtractOptions.ofOptions o
  match o.inputs d s.base with
  | .error f => (.error f, d)
  | .ok inputs =>
    through d s.extracted o.cache Doclet.codec.list (o.keyParts inputs)
      ((extract o.html inputs).mapError Failure.ofProblem)

def entries (s : Service) (d : Disk) (o : Options) : Except Failure (List Entry) × Disk :=
  let (found, d) := s.doclets d o
  (found.map (Catalogue.ofDoclets o.showPrivate), d)

def pageOf (s : Service) (w : World) (entries : List Entry) (o : RenderOptions) :
    Except Failure String × Disk :=
  match UserTemplates.load w.disk o with
  | .error p => (.error (Failure.ofProblem p), w.disk)
  | .ok user =>
    through w.disk s.rendered o.cache Codec.text (o.keyParts entries user)
      ((render s.engine w.outside entries o user).mapError Failure.ofProblem)

/-- The page that the options ask for; entries that they bring along are not extracted again. What
extraction stores is on the disk before the templates are looked for. -/
def page (s : Service) (w : World) (o : Options) : Except Failure String × Disk :=
  match o.data with
  | some entries => s.pageOf w entries (RenderOptions.ofOptions o)
  | none =>
    match s.entries w.disk o with
    | (.ok entries, disk) => s.pageOf { w with disk } entries (RenderOptions.ofOptions o)
    | (.error f, disk) => (.error f, disk)

def cleared (d : Disk) (folder : Option String) : Except Failure Unit × Disk :=
  match folder with
  | some folder =>
    let (result, c) := ({ folder, disk := d } : Cache).clear
    (result, c.disk)
  | none => (.ok (), d)

/-- Both caches cleared, that of pages only after that of doclets. -/
def clear (s : Service) (d : Disk) : Except Failure Unit × Disk :=
  match cleared d s.extracted with
  | (.error f, d) => (.error f, d)
  | (.ok (), d) => cleared d s.rendered

def reply (s : Service) (w : World) (c : Call) : Except Failure Answer × Disk :=
  let o := c.options
  match c.request with
  | .doclets => let (r, d) := s.doclets w.disk o; (r.map .doclets, d)
  | .entries => let (r, d) := s.entries w.disk o; (r.map .entries, d)
  | .page => let (r, d) := s.page w o; (r.map .page, d)
  | .namepaths =>
    let (r, d) := s.entries w.disk o
    (r.map fun es => .namepaths (Catalogue.namepaths es), d)
  | .clear => let (r, d) := s.clear w.disk; (r.map fun _ => .cleared, d)

def answer (s : Service) (w : World) (c : Call) : Except Failure Answer × Service × Disk :=
  let (r, d) := s.reply w c
  (r, { s with usage := s.usage.record c.name }, d)

end Service

end ApiPages
