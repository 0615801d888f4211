import Mathlib.Data.List.Basic
import ApiPages.Source.Block

/-!
The class body that a doc comment stands in, told from the whole stack of open braces. Each brace
carries the class whose body it opens, if it opens one; a closing brace takes the innermost one off
the stack. Of the tokens that have been read the last one comes first. Main statement: a nesting,
which keeps a depth and the depths of class bodies only, tells the same as the stack.
-/
namespace ApiPages.Source

def lastWord? : List Token → Option (List Char)
  | .word text :: _ => some text
  | .comment _ _ _ _ :: read => lastWord? read
  | _ => none

/-- The class whose body the next brace opens: its name was read behind the word that announces a
class, and no brace has opened and no statement has ended since. -/
def announced? : List Token → Option (List Char)
  | .word name :: read =>
    if lastWord? read = some "class".toList then some name else announced? read
  | .rightBrace :: read => announced? read
  | .comment _ _ _ _ :: read => announced? read
  | _ => none

def openBraces : List Token → List (Option (List Char))
  | [] => []
  | .leftBrace :: read => announced? read :: openBraces read
  | .rightBrace :: read => (openBraces read).tail
  | _ :: read => openBraces read

/-- The class of the innermost brace that has one, and whether no other brace is open within. -/
def innermost : List (Option (List Char)) → Option Enclosing
  | [] => none
  | some name :: _ => some { name := name, direct := true }
  | none :: outer => (innermost outer).map fun e => { e with direct := false }

def placed (read : List Token) : List Token → List (List Char × Option Enclosing)
  | [] => []
  | .comment text first last rest :: ts =>
    (if isDoc text then [(text, innermost (openBraces read))] else []) ++
      placed (.comment text first last rest :: read) ts
  | t :: ts => placed (t :: read) ts

def bodies : List (Option (List Char)) → List (List Char × Nat)
  | [] => []
  | some name :: outer => (name, outer.length + 1) :: bodies outer
  | none :: outer => bodies outer

theorem depth_le_of_mem_bodies {braces : List (Option (List Char))} {body : List Char × Nat}
    (h : body ∈ bodies braces) : body.2 ≤ braces.length := by
  induction braces with
  | nil => exact absurd h List.not_mem_nil
  | cons brace outer ih =>
    rw [List.length_cons]
    cases brace with
    | none => exact Nat.le_succ_of_le (ih h)
    | some name =>
      rcases List.mem_cons.mp h with rfl | h
      · exact Nat.le_refl _
      · exact Nat.le_succ_of_le (ih h)

theorem bodies_cons (brace : Option (List Char)) (outer : List (Option (List Char))) :
    bodies (brace :: outer) =
      (brace.toList.map fun name => (name, outer.length + 1)) ++ bodies outer := by
  cases brace <;> rfl

theorem depth_ne_of_mem_bodies {braces : List (Option (List Char))} {body : List Char × Nat}
    (h : body ∈ bodies braces) : body.2 ≠ braces.length + 1 :=
  Nat.ne_of_lt (Nat.lt_succ_of_le (depth_le_of_mem_bodies h))

theorem innermost_eq (braces : List (Option (List Char))) :
    innermost braces = (bodies braces).head?.map fun (name, depth) =>
      { name := name, direct := depth == braces.length } := by
  induction braces with
  | nil => rfl
  | cons brace outer ih =>
    cases brace with
    | some name => simp [innermost, bodies]
    | none =>
      rw [innermost, ih, bodies]
      cases hbodies : bodies outer with
      | nil => rfl
      | cons body more =>
        -- the body of an outer brace is not as deep as the brace on top
        have hne := depth_ne_of_mem_bodies (hbodies ▸ List.mem_cons_self : body ∈ bodies outer)
        simp [hne]

/-- A nesting that knows what the tokens read tell of the braces and words among them. -/
structure Nesting.Follows (n : Nesting) (read : List Token) : Prop where
  depth : n.depth = (openBraces read).length
  classes : n.classes = bodies (openBraces read)
  announced : n.announced = announced? read
  lastWord : n.lastWord = "class".toList ↔ lastWord? read = some "class".toList

namespace Nesting

theorem follows_start : ({} : Nesting).Follows [] := ⟨rfl, rfl, rfl, by decide⟩

variable {n : Nesting} {read : List Token}

theorem Follows.enclosing (h : n.Follows read) : n.enclosing = innermost (openBraces read) := by
  rw [Nesting.enclosing, innermost_eq, h.classes, h.depth]

theorem Follows.step_rightBrace (h : n.Follows read) :
    (n.step .rightBrace).Follows (.rightBrace :: read) := by
  refine ⟨?_, ?_, h.announced, by simp [Nesting.step, lastWord?]⟩
  · simp only [Nesting.step, openBraces, h.depth, List.length_tail]
  · have hdepth := h.depth
    simp only [Nesting.step, openBraces, h.classes]
    cases hbraces : openBraces read with
    | nil => rfl
    | cons brace outer =>
      rw [hbraces, List.length_cons] at hdepth
      rw [List.tail_cons]
      cases brace with
      | some name => simp only [bodies, hdepth, if_true]
      | none =>
        rw [bodies]
        cases hbodies : bodies outer with
        | nil => rfl
        | cons body more =>
          have hne := depth_ne_of_mem_bodies (hbodies ▸ List.mem_cons_self : body ∈ bodies outer)
          simp only [hdepth, hne, if_false]

theorem Follows.step (h : n.Follows read) (t : Token) : (n.step t).Follows (t :: read) := by
  cases t with
  | word text =>
    refine ⟨h.depth, h.classes, ?_, ?_⟩
    · simp only [Nesting.step, announced?, h.announced, h.lastWord]
    · simp only [Nesting.step, lastWord?, Option.some.injEq]
  | leftBrace =>
    refine ⟨?_, ?_, rfl, by simp [Nesting.step, lastWord?]⟩
    · simp only [Nesting.step, openBraces, h.depth, List.length_cons]
    · simp only [Nesting.step, openBraces, bodies_cons, h.announced, h.depth, h.classes]
  | rightBrace => exact h.step_rightBrace
  | semicolon => exact ⟨h.depth, h.classes, rfl, by simp [Nesting.step, lastWord?]⟩
  | comment text first last rest => exact ⟨h.depth, h.classes, h.announced, h.lastWord⟩

theorem Follows.blocks (h : n.Follows read) (ts : List Token) :
    (n.blocks ts).map (fun b => (b.comment, b.enclosing)) = placed read ts := by
  induction ts generalizing n read with
  | nil => rfl
  | cons t ts ih =>
    have hmore := ih (h.step t)
    cases t with
    | comment text first last rest =>
      rw [Nesting.blocks, List.map_append, hmore, placed, Nesting.block, ← h.enclosing]
      split <;> rfl
    | _ => exact hmore

end Nesting

/-- Each doc comment stands in the class body that the stack of open braces before it tells. -/
theorem enclosing_eq_innermost {file : String} {text : List Char} {blocks : List Block}
    (h : scan file text = .ok blocks) :
    blocks.map (fun b => (b.comment, b.enclosing)) = placed [] (Lexer.tokens {} text) := by
  simp only [scan] at h
  split at h
  · cases h
  · obtain rfl := Except.ok.inj h
    exact Nesting.follows_start.blocks _

def nestedText : List Char :=
  ("\x7d class Outer \x7b\n/** A. */\nrun () \x7b\n/** B. */\nreturn class Inner \x7b /** C. */ \x7d\n" ++
    "class Gone;\n\x7b /** D. */ \x7d\n\x7d\n/** E. */\n\x7d \x7d /** F. */").toList

theorem enclosing_eq_innermost_nested :
    ∃ blocks, scan "nested.js" nestedText = .ok blocks ∧
      blocks.map (fun b => (b.comment, b.enclosing)) =
        placed [] (Lexer.tokens {} nestedText) ∧
      blocks.map (fun b => b.enclosing.map fun e => (String.ofList e.name, e.direct)) =
        [some ("Outer", true), some ("Outer", false), some ("Inner", true), some ("Outer", false),
          some ("Outer", true), none] := by
  have hclosed : (Lexer.run {} nestedText).unclosed? = none := by decide +kernel
  have hblocks : scan "nested.js" nestedText =
      .ok (Nesting.blocks {} (Lexer.tokens {} nestedText)) := by rw [scan, hclosed]
  exact ⟨_, hblocks, enclosing_eq_innermost hblocks, by decide +kernel⟩

end ApiPages.Source
