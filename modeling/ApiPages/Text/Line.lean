import ApiPages.Text.Letter

/-!
Cutting text apart and putting it together: trimming, lines, words, leading and trailing pieces,
replacement. All of it works on lists of characters.
-/
namespace ApiPages.Text

def trimStart (cs : List Char) : List Char := cs.dropWhile isBlank

def dropEndWhile (p : Char → Bool) (cs : List Char) : List Char := (cs.reverse.dropWhile p).reverse

def trimEnd (cs : List Char) : List Char := dropEndWhile isBlank cs

def trim (cs : List Char) : List Char := trimEnd (trimStart cs)

def isBlankLine (cs : List Char) : Bool := cs.all isBlank

def after? (head cs : List Char) : Option (List Char) :=
  match head, cs with
  | [], cs => some cs
  | _ :: _, [] => none
  | h :: head, c :: cs => if h = c then after? head cs else none

def before? (tail cs : List Char) : Option (List Char) :=
  (after? tail.reverse cs.reverse).map List.reverse

def startsWith (head cs : List Char) : Bool := (after? head cs).isSome

theorem after?_length {head cs rest : List Char} (h : after? head cs = some rest) :
    cs.length = head.length + rest.length := by
  induction head generalizing cs with
  | nil => simp_all [after?]
  | cons c head ih =>
    cases cs with
    | nil => simp [after?] at h
    | cons d cs =>
      simp only [after?] at h
      split at h
      · have := ih h
        simp only [List.length_cons]
        omega
      · contradiction

def dropRepeated (head : List Char) (cs : List Char) : List Char :=
  if _empty : head = [] then cs
  else match _found : after? head cs with
    | none => cs
    | some rest => dropRepeated head rest
termination_by cs.length
decreasing_by
  have := after?_length _found
  have := List.length_pos_iff.mpr _empty
  omega

def split (sep : Char) : List Char → List (List Char)
  | [] => [[]]
  | c :: cs =>
    if c = sep then [] :: split sep cs
    else match split sep cs with
      | [] => [[c]]
      | piece :: more => (c :: piece) :: more

theorem split_ne_nil (sep : Char) (cs : List Char) : split sep cs ≠ [] := by
  induction cs with
  | nil => simp [split]
  | cons c cs ih =>
    simp only [split]
    split
    · simp
    · split <;> simp

theorem not_mem_of_mem_split {sep : Char} {cs piece : List Char} (h : piece ∈ split sep cs) :
    sep ∉ piece := by
  induction cs generalizing piece with
  | nil => simp_all [split]
  | cons c cs ih =>
    simp only [split] at h
    split at h
    · rcases List.mem_cons.mp h with rfl | h
      · simp
      · exact ih h
    · rename_i hc
      split at h
      · rename_i hs
        exact absurd hs (split_ne_nil sep cs)
      · rename_i first more hs
        rcases List.mem_cons.mp h with rfl | h
        · have := ih (hs ▸ List.mem_cons_self)
          simp [Ne.symm hc, this]
        · exact ih (hs ▸ List.mem_cons_of_mem _ h)

def dropReturn (line : List Char) : List Char := (before? ['\r'] line).getD line

/-- The lines of a text: a newline, or a carriage return with a newline, ends a line; what follows
the last newline is a line of its own unless it is empty. -/
def lines (cs : List Char) : List (List Char) :=
  let pieces := split '\n' cs
  pieces.dropLast.map dropReturn ++ (pieces.getLast?.filter (· ≠ [])).toList

def join (sep : List Char) (pieces : List (List Char)) : List Char := List.intercalate sep pieces

theorem join_split (sep : Char) (cs : List Char) : join [sep] (split sep cs) = cs := by
  induction cs with
  | nil => rfl
  | cons c cs ih =>
    simp only [split]
    match hs : split sep cs with
    | [] => exact absurd hs (split_ne_nil sep cs)
    | piece :: more =>
      rw [hs] at ih
      split
      · rename_i hc
        rw [← ih, hc]
        simp [join, List.intercalate]
      · rw [← ih]
        cases more <;> simp [join, List.intercalate]

def words (cs : List Char) : List (List Char) :=
  let pieces := split ' ' (cs.map fun c => if isBlank c then ' ' else c)
  pieces.filter (· ≠ [])

def splitFirst? (sep : Char) (cs : List Char) : Option (List Char × List Char) :=
  match cs.span (· ≠ sep) with
  | (_, []) => none
  | (before, _ :: rest) => some (before, rest)

def splitAt? (sep : List Char) : List Char → Option (List Char × List Char)
  | [] => (after? sep []).map fun rest => ([], rest)
  | c :: cs =>
    match after? sep (c :: cs) with
    | some rest => some ([], rest)
    | none => (splitAt? sep cs).map fun (before, rest) => (c :: before, rest)

def contains (part cs : List Char) : Bool := (splitAt? part cs).isSome

def replaceFrom (part new : List Char) : Nat → List Char → List Char
  | 0, cs => cs
  | _ + 1, [] => []
  | n + 1, c :: cs =>
    match after? part (c :: cs) with
    | some rest => new ++ replaceFrom part new n rest
    | none => c :: replaceFrom part new n cs

def replace (part new cs : List Char) : List Char := replaceFrom part new cs.length cs

def nonEmpty? (cs : List Char) : Option (List Char) :=
  match trim cs with
  | [] => none
  | text => some text

def trimBlankLines (cs : List Char) : List Char :=
  match cs.span isBlank with
  | (_, []) => []
  | (lead, rest) => trimEnd ((lead.reverse.takeWhile (· ≠ '\n')).reverse ++ rest)

def newlines (cs : List Char) : Nat := cs.count '\n'

end ApiPages.Text
