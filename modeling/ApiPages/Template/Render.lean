import ApiPages.Failure
import ApiPages.Page.Tidy
import ApiPages.Page.View
import ApiPages.Template.Layout
import ApiPages.Template.Reader
import ApiPages.Template.Run

/-!
Rendering. The templates of a run are layers: the default layout, the files of plugins, partials and
helpers, and the root template; a later layer replaces what an earlier one has under the same name.
An engine lays them out, and what it lays out may depend on what stands outside of the page.
-/
namespace ApiPages

structure TemplateFile where
  name : String
  path : String
  content : String
  deriving DecidableEq, Repr

structure UserTemplates where
  plugins : List TemplateFile := []
  partials : List TemplateFile := []
  helpers : List TemplateFile := []
  deriving DecidableEq, Repr

def UserTemplates.files (u : UserTemplates) : List TemplateFile := u.plugins ++ u.partials ++ u.helpers

namespace Template

inductive Content where
  | layout (nodes : List Node)
  | text (s : String)

def rootName : String := "jsdoc2md-root"

def allLayers (o : RenderOptions) (user : UserTemplates) : List (String × Content) :=
  Layout.templates.map (fun t => (t.name, .layout t.nodes)) ++
    user.files.map (fun f => (f.name, .text f.content)) ++ [(rootName, .text o.template)]

def place (name : String) (value : α) : List (String × α) → List (String × α)
  | [] => [(name, value)]
  | (other, old) :: more =>
    if other = name then (name, value) :: more else (other, old) :: place name value more

theorem lookup_place (name other : String) (value : α) (layers : List (String × α)) :
    (place name value layers).lookup other =
      if other = name then some value else layers.lookup other := by
  by_cases h : other = name
  · subst h
    induction layers with
    | nil => simp [place]
    | cons layer more ih =>
      obtain ⟨key, old⟩ := layer
      by_cases hk : key = other
      · simp [place, hk]
      · have hb : (other == key) = false := by simpa using Ne.symm hk
        simpa [place, hk, List.lookup_cons, hb] using ih
  · have hn : (other == name) = false := by simpa using h
    rw [if_neg h]
    induction layers with
    | nil => simp [place, List.lookup_cons, hn]
    | cons layer more ih =>
      obtain ⟨key, old⟩ := layer
      by_cases hk : key = name
      · simp [place, List.lookup_cons, hk, hn]
      · rw [place, if_neg hk, List.lookup_cons, List.lookup_cons, ih]

theorem mem_keys_place (name other : String) (value : α) (layers : List (String × α)) :
    other ∈ (place name value layers).map (·.1) ↔ other = name ∨ other ∈ layers.map (·.1) := by
  induction layers with
  | nil => simp [place]
  | cons layer more ih =>
    obtain ⟨key, old⟩ := layer
    by_cases hk : key = name
    · subst hk
      simp [place]
    · rw [place, if_neg hk, List.map_cons, List.mem_cons, ih, List.map_cons, List.mem_cons]
      constructor <;> rintro (h | h | h) <;> simp [h]

def layered (o : RenderOptions) (user : UserTemplates) : List (String × Content) :=
  (allLayers o user).foldl (fun layers (name, content) => place name content layers) []

def brokenImport? (templates : List Named) : Option (String × String) :=
  templates.findSome? fun t =>
    (t.imports.find? fun i => (find? templates i.1).isNone).map fun i => (t.name, i.1)

def quotedName? (cs : List Char) : Option (List Char) :=
  ["render '", "parse '"].findSome? fun word =>
    match (Text.after? word.toList cs).bind (Text.splitFirst? '\'') with
    | some (name, _) => if name = [] then none else some name
    | none => none

def mentioned? : List Char → Option (List Char)
  | [] => none
  | c :: cs => (quotedName? (c :: cs)).or (mentioned? cs)

/-- The template that a failure is ascribed to: the one that its last message with a name mentions. -/
def blamed (messages : List String) : String :=
  match messages.reverse.findSome? fun m => mentioned? m.toList with
  | some name => String.ofList name
  | none => rootName

def Refusal.problem (template : String) (r : Refusal) : Problem :=
  let reading := "Failed to parse '" ++ template ++ "'"
  let because (message : String) : Problem := .template (blamed [reading, message]) message
  match r with
  | .unreadable => .templateText (blamed [reading])
  | .outOfBounds value =>
    because ("Integer out of bounds: \x60" ++ String.ofList (Json.writeInt value) ++ "\x60")
  | .twice macroName => because ("Macro \x60" ++ macroName ++ "\x60 is duplicated")

def ready (name : String) : Content → Except Problem Named
  | .layout nodes => .ok ⟨name, nodes⟩
  | .text s => (Named.read name s).mapError (Refusal.problem name)

def load (layers : List (String × Content)) : Except Problem (List Named) := do
  let templates ← layers.mapM fun (name, content) => ready name content
  match brokenImport? templates with
  | some (name, missing) =>
    let message := "Template \x60" ++ name ++ "\x60 loads macros from \x60" ++ missing ++
      "\x60 which isn't present in Tera"
    .error (.template (blamed [message]) message)
  | none => pure templates

def Fault.problem (f : Fault) : Problem :=
  .template (blamed f.messages) ("\n  → ".intercalate
    (f.messages.map fun m => String.ofList (Text.trim m.toList)))

end Template

/-- What templates may see beside the page: the environment of the program, the time and chance. -/
structure Outside where
  environment : List (String × String) := []
  time : Nat := 0
  chance : Nat := 0
  deriving DecidableEq, Repr

namespace Template

/-- What lays out templates: of what stands outside, the layers, the entries that links lead to and
the page it makes a text. -/
abbrev Engine := Outside → List (String × Content) → List Entry → Json → Except Problem (List Char)

def engine (builtins : Outside → Builtins) : Engine := fun outside layers known page => do
  let templates ← load layers
  let root := ((find? templates rootName).map (·.nodes)).getD []
  (layOut (builtins outside) templates page known depthLimit rootName [] root).mapError Fault.problem

end Template

def render (engine : Template.Engine) (outside : Outside) (entries : List Entry) (o : RenderOptions)
    (user : UserTemplates) : Except Problem String :=
  (engine outside (Template.layered o user) entries (View.of entries o).toJson).map fun text =>
    String.ofList (Tidy.tidy text)

end ApiPages
