import ApiPages.Page.Heading

/-!
The member index of a section: every entry below it once, parents before their members. In the
grouped layout members of different scopes stand under the labels of their groups.
-/
namespace ApiPages

structure MemberRow where
  depth : Nat
  text : String
  deriving DecidableEq, Repr

namespace MemberIndex

inductive Group where
  | static | onInstance | inner | events | rest
  deriving DecidableEq, Repr

namespace Group

def all : List Group := [static, onInstance, inner, events, rest]

def label : Group → String
  | static => "static"
  | onInstance => "instance"
  | inner => "inner"
  | events => "events"
  | rest => ""

def of (e : Entry) : Group :=
  if e.kind = .event then events
  else match e.scope with
    | some .staticScope => static
    | some .instanceScope => onInstance
    | some .innerScope => inner
    | _ => rest

end Group

/-- What is left to do for an index: a row to write, or a node to visit at a depth. -/
inductive Task where
  | row (r : MemberRow)
  | node (n : Node) (depth : Nat)

def rowText (known : List Entry) (format : NameFormat) (e : Entry) : String :=
  "[" ++ (if e.isConstructor then "" else e.scopeMark) ++ e.signature format ++ "](#" ++ e.anchor ++
    ")" ++ e.signatureType known

def groups (members : List Node) : List Group :=
  Group.all.filter fun g => members.any fun m => Group.of m.1 == g

/-- The members under the labels of their groups, if there is more than one group. -/
def grouped (members : List Node) (depth : Nat) : List Task :=
  (groups members).flatMap fun g =>
    .row ⟨depth, "_" ++ g.label ++ "_"⟩ ::
      (members.filter fun m => Group.of m.1 == g).map fun m => .node m (depth + 1)

def tasks (known : List Entry) (o : RenderOptions) (node : Node) (depth : Nat) : List Task :=
  let kids := Outline.children known.zipIdx node
  let members := kids.filter (!·.1.isConstructor)
  (kids.filter (·.1.isConstructor)).map (fun k => .row ⟨depth, rowText known o.nameFormat k.1⟩) ++
    if o.memberIndex = .grouped ∧ 1 < (groups members).length then grouped members depth
    else members.map fun m => .node m depth

/-- The rows of some tasks. Only the positions in `fresh` are still to be visited. -/
def rows (known : List Entry) (o : RenderOptions) (fresh : List Nat) : List Task → List MemberRow
  | [] => []
  | .row r :: todo => r :: rows known o fresh todo
  | .node node depth :: todo =>
    if node.2 ∈ fresh then
      ⟨depth, rowText known o.nameFormat node.1⟩ ::
        rows known o (fresh.erase node.2) (tasks known o node (depth + 1) ++ todo)
    else rows known o fresh todo
termination_by todo => (fresh.length, todo.length)
decreasing_by
  · apply Prod.Lex.right
    simp
  · apply Prod.Lex.left
    have := List.length_pos_of_mem ‹node.2 ∈ fresh›
    rw [List.length_erase_of_mem ‹node.2 ∈ fresh›]
    omega
  · apply Prod.Lex.right
    simp

def of (known : List Entry) (o : RenderOptions) (node : Node) : List MemberRow :=
  if Outline.children known.zipIdx node = [] then []
  else
    ⟨0, "[" ++ o.nameFormat.apply node.1.name ++ "](#" ++ node.1.anchor ++ ")"⟩ ::
      rows known o ((List.range known.length).erase node.2) (tasks known o node 1)

end MemberIndex

end ApiPages
