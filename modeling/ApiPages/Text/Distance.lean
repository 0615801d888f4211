/-!
The edit distance: the fewest insertions, deletions and exchanges of one character that turn one
text into another.
-/
namespace ApiPages.Text

/-- The next row of the distance table: `row` holds the distances from the text so far to every
initial part of the other text, `left` is the entry just written. -/
def distanceRow (a : Char) (left : Nat) : List Char → List Nat → List Nat
  | b :: bs, diagonal :: above :: row =>
    let here := min (min left above + 1) (diagonal + if a = b then 0 else 1)
    here :: distanceRow a here bs (above :: row)
  | _, _ => []

def distance (xs ys : List Char) : Nat :=
  let first := List.range (ys.length + 1)
  let last := xs.foldl (fun row a =>
    match row with
    | [] => []
    | d :: _ => (d + 1) :: distanceRow a (d + 1) ys row) first
  last.getLast?.getD 0

end ApiPages.Text
