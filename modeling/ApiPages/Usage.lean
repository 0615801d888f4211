/-! How often each operation was called, in the order of names. -/
namespace ApiPages

structure Usage where
  counts : List (String × Nat) := []
  deriving DecidableEq, Repr

namespace Usage

def add (name : String) : List (String × Nat) → List (String × Nat)
  | [] => [(name, 1)]
  | (other, n) :: more =>
    if name = other then (other, n + 1) :: more
    else if name < other then (name, 1) :: (other, n) :: more
    else (other, n) :: add name more

def record (u : Usage) (name : String) : Usage := ⟨add name u.counts⟩

def count (u : Usage) (name : String) : Nat := (u.counts.lookup name).getD 0

def total (u : Usage) : Nat := u.counts.foldl (fun n c => n + c.2) 0

end Usage

end ApiPages
