import ApiPages.Page.Anchor

/-!
The order of the sections. An entry whose parent is not documented stands at the top; the others
follow their parents one level deeper, constructors first. No entry is visited twice, so a cycle of
parents ends where it began.
-/
namespace ApiPages

abbrev Node := Entry × Nat

namespace Outline

def parent? (known : List Entry) (e : Entry) : Option Entry := e.memberof.bind (documented? known)

def isTop (known : List Entry) (e : Entry) : Bool :=
  if e.isConstructor then e.memberof.isNone else (parent? known e).isNone

/-- The members of a node, constructors first; a constructor has none. -/
def children (nodes : List Node) (node : Node) : List Node :=
  if node.1.isConstructor then []
  else
    let kids := nodes.filter fun kid => kid.1.memberof == some node.1.longname && kid.2 != node.2
    kids.filter (·.1.isConstructor) ++ kids.filter (!·.1.isConstructor)

/-- The nodes in the order of their visit, with their levels. Only the positions in `fresh` are
still to be visited. -/
def visit (kids : Node → List Node) (fresh : List Nat) : List (Node × Nat) → List (Node × Nat)
  | [] => []
  | (node, level) :: todo =>
    if node.2 ∈ fresh then
      (node, level) ::
        visit kids (fresh.erase node.2) ((kids node).map (fun kid => (kid, level + 1)) ++ todo)
    else visit kids fresh todo
termination_by todo => (fresh.length, todo.length)
decreasing_by
  · apply Prod.Lex.left
    have := List.length_pos_of_mem ‹node.2 ∈ fresh›
    rw [List.length_erase_of_mem ‹node.2 ∈ fresh›]
    omega
  · apply Prod.Lex.right
    simp

def top (entries : List Entry) : List Node := entries.zipIdx.filter fun node => isTop entries node.1

def walk (entries : List Entry) (level : Nat) : List (Node × Nat) :=
  visit (children entries.zipIdx) (List.range entries.length)
    ((top entries).map fun node => (node, level))

end Outline

end ApiPages
