import ApiPages.Proofs.Source.CodeLine
import ApiPages.Proofs.Source.Shift

/-!
A text that goes on. Where a text ends with a line, outside of every brace, class and literal, with
an expression allowed to start, the text behind it is read as a text of its own that stands so many
lines further down. Main statement: the blocks of the whole are those of the first part, where one
without code may get the first line of code of the second, and those of the second part.
-/
namespace ApiPages.Source

def Lexer.mayStart (l : Lexer) : Bool :=
  match l.mode with
  | .word letters => leadWords.contains letters.reverse
  | .slash => !l.fresh
  | .quoted _ _ _ => false
  | .pattern _ _ => false
  | _ => l.fresh

def Nesting.after (text : List Char) : Nesting := Nesting.run {} (Lexer.tokens {} text)

/-- A text that reaches into nothing behind it. -/
structure Settled (text : List Char) : Prop where
  newline : text.getLast? = some '\n'
  depth : (Nesting.after text).depth = 0
  classes : (Nesting.after text).classes = []
  announced : (Nesting.after text).announced = none
  lastWord : (Nesting.after text).lastWord ≠ "class".toList
  mayStart : (Lexer.run {} text).mayStart = true

/-- What becomes of a block when `t` follows from behind `k` newlines: a block that has no code may
get the first line of code of `t`, and all else stays. -/
inductive Block.Continued (k : Nat) (t : List Char) (b : Block) : Block → Prop
  | same : Continued k t b b
  | gains {code : List Char} {line : Nat} (hnone : b.code = none)
      (hcode : codeFrom (1 + k) (Text.split '\n' t) = some (code, line)) :
      Continued k t b { b with code := some code, codeLine := line }

namespace Lexer

theorem step_newline_cases (l : Lexer) :
    (l.step '\n').mode = .code ∨
      (∃ first text star, (l.step '\n').mode = .comment first text star) ∨
      ∃ quote first escaped, (l.step '\n').mode = .quoted quote first escaped := by
  cases hmode : l.mode with
  | slash =>
    left
    simp only [step, hmode]
    rw [if_neg (by decide), if_neg (by decide)]
    split <;> rfl
  | comment first text star =>
    have hopen : ¬ (star = true ∧ '\n' = '/') := fun h => absurd h.2 (by decide)
    exact .inr (.inl ⟨first, '\n' :: text, _, by simp only [step, hmode, if_neg hopen]; rfl⟩)
  | quoted quote first escaped =>
    simp only [step, hmode, quoted]
    split
    · exact .inr (.inr ⟨quote, first, false, rfl⟩)
    rw [if_neg (by decide)]
    split
    · exact .inl rfl
    · exact .inr (.inr ⟨quote, first, false, rfl⟩)
  | _ =>
    left
    simp only [step, hmode]
    rfl

/-- Behind a settled text the lexer starts afresh, so many lines further down. -/
theorem run_of_settled {file : String} {s : List Char} {blocks : List Block}
    (hs : scan file s = .ok blocks) (hend : Settled s) :
    Lexer.run {} s = ({} : Lexer).below (Text.newlines s) := by
  obtain ⟨start, rfl⟩ := List.getLast?_eq_some_iff.mp hend.newline
  have hstart := hend.mayStart
  have hclosed : (Lexer.run {} (start ++ ['\n'])).unclosed? = none := by
    simp only [scan] at hs
    split at hs
    · cases hs
    · assumption
  rw [run_append] at hstart hclosed
  have hmode : (Lexer.run {} (start ++ ['\n'])).mode = .code := by
    rw [run_append]
    rcases (Lexer.run {} start).step_newline_cases with hcode | ⟨first, text, star, hcomment⟩ |
      ⟨quote, first, escaped, hquoted⟩
    · exact hcode
    · change (Lexer.step _ '\n').unclosed? = none at hclosed
      simp [unclosed?, hcomment] at hclosed
    · change (Lexer.step _ '\n').mayStart = true at hstart
      simp [Lexer.mayStart, hquoted] at hstart
  have hreads := reads_start.run_of_isOutside ⟨⟩ (s := start ++ ['\n']) (by rw [hmode]; exact ⟨⟩)
  have hfresh : (Lexer.run {} (start ++ ['\n'])).fresh = true := by
    simpa [Lexer.mayStart, hmode] using hend.mayStart
  have hline := hreads.line
  rw [List.nil_append, pending_of_isOutside (by rw [hmode]; exact ⟨⟩), List.append_nil] at hline
  cases hrun : Lexer.run {} (start ++ ['\n']) with
  | mk mode line fresh =>
    rw [hrun] at hmode hfresh hline
    simp only at hmode hfresh hline
    rw [hmode, hfresh, hline]
    rfl

end Lexer

def Token.followedBy (t : List Char) : Token → Token
  | .comment text first last rest => .comment text first last (rest ++ t)
  | token => token

namespace Lexer

theorem emit_append (l : Lexer) (c : Char) (rest t : List Char) :
    l.emit c (rest ++ t) = (l.emit c rest).map (Token.followedBy t) := by
  have hmark : (markOf c).map (Token.followedBy t) = markOf c := map_markOf rfl rfl rfl c
  simp only [emit]
  split
  · exact hmark.symm
  · split
    · rfl
    · rw [List.map_cons, hmark]
      rfl
  · split
    · rfl
    · exact hmark.symm
  · split <;> rfl
  · rfl

theorem passing_eq_map (l : Lexer) (s t : List Char) :
    l.passing s t = (l.passing s []).map (Token.followedBy t) := by
  induction s generalizing l with
  | nil => rfl
  | cons c s ih =>
    rw [passing, passing, List.append_nil, List.map_append, emit_append, ih]

end Lexer

namespace Nesting

theorem step_followedBy (n : Nesting) (t : List Char) (token : Token) :
    n.step (token.followedBy t) = n.step token := by
  cases token <;> rfl

theorem run_map_followedBy (n : Nesting) (t : List Char) (ts : List Token) :
    n.run (ts.map (Token.followedBy t)) = n.run ts := by
  induction ts generalizing n with
  | nil => rfl
  | cons token ts ih =>
    rw [List.map_cons, run, List.foldl_cons, step_followedBy]
    exact ih (n.step token)

end Nesting

theorem codeFrom_append_of_none {before : List (List Char)}
    (h : ∀ line ∈ before, codeOn? line = none) (n : Nat) (more : List (List Char)) :
    codeFrom n (before ++ more) = codeFrom (n + before.length) more := by
  induction before generalizing n with
  | nil => rfl
  | cons line before ih =>
    obtain ⟨hline, hbefore⟩ := List.forall_mem_cons.mp h
    rw [List.cons_append, codeFrom_cons_of_none n hline, ih hbefore, List.length_cons,
      Nat.add_right_comm, Nat.add_assoc]

theorem codeFrom_append_of_some {before : List (List Char)}
    (h : ∃ line ∈ before, codeOn? line ≠ none) (n : Nat) (more : List (List Char)) :
    codeFrom n (before ++ more) = codeFrom n before := by
  induction before generalizing n with
  | nil => simp at h
  | cons line before ih =>
    rw [List.cons_append]
    cases hline : codeOn? line with
    | none =>
      have hbefore : ∃ line ∈ before, codeOn? line ≠ none := by
        obtain ⟨line', hmem, hsome⟩ := h
        rcases List.mem_cons.mp hmem with rfl | hmem
        · exact absurd hline hsome
        · exact ⟨line', hmem, hsome⟩
      rw [codeFrom_cons_of_none n hline, codeFrom_cons_of_none n hline, ih hbefore]
    | some held => rw [codeFrom_cons_of_some n hline, codeFrom_cons_of_some n hline]

theorem Block.of_congr {last : Nat} {rest rest' : List Char}
    (h : codeFrom last (Text.split '\n' rest) = codeFrom last (Text.split '\n' rest')) (n : Nesting)
    (text : List Char) (first : Nat) :
    Block.of n text first last rest = Block.of n text first last rest' := by
  simp only [Block.of, h]

theorem Block.continued_of {rest : List Char} {last k : Nat} (hrest : rest.getLast? = some '\n')
    (hlast : last + Text.newlines rest = 1 + k) (n : Nesting) (text : List Char) (first : Nat)
    (t : List Char) :
    (Block.of n text first last rest).Continued k t (Block.of n text first last (rest ++ t)) := by
  obtain ⟨lead, rfl⟩ := List.getLast?_eq_some_iff.mp hrest
  have hsplit (more : List Char) : Text.split '\n' (lead ++ ['\n'] ++ more) =
      Text.split '\n' lead ++ Text.split '\n' more := by
    rw [List.append_assoc, List.singleton_append, Text.split_append_cons]
  have hsplitEnd := hsplit []
  rw [List.append_nil] at hsplitEnd
  by_cases hpassed : ∀ line ∈ Text.split '\n' lead, codeOn? line = none
  · -- the whole rest holds no code, so the lines of `t` are looked at with their numbers
    have hcount : last + (Text.split '\n' lead).length = 1 + k := by
      rw [Text.length_split, ← hlast, Text.newlines_append]
      rfl
    have hcode (more : List Char) : codeFrom last (Text.split '\n' lead ++ Text.split '\n' more) =
        codeFrom (1 + k) (Text.split '\n' more) := by
      rw [codeFrom_append_of_none hpassed, hcount]
    have hnone : codeFrom last (Text.split '\n' (lead ++ ['\n'])) = none := by
      rw [hsplitEnd, hcode]
      rfl
    cases hfound : codeFrom (1 + k) (Text.split '\n' t) with
    | none =>
      have hsame : codeFrom last (Text.split '\n' (lead ++ ['\n'] ++ t)) =
          codeFrom last (Text.split '\n' (lead ++ ['\n'])) := by
        rw [hsplit, hcode, hfound, hnone]
      rw [Block.of_congr hsame]
      exact .same
    | some found =>
      have hgain := Block.Continued.gains (k := k) (t := t)
        (b := Block.of n text first last (lead ++ ['\n'])) (by simp [Block.of, hnone]) hfound
      convert hgain using 1
      simp only [Block.of, hsplit, hcode, hfound, Option.map_some, Option.getD_some]
  · push Not at hpassed
    have hsame : codeFrom last (Text.split '\n' (lead ++ ['\n'] ++ t)) =
        codeFrom last (Text.split '\n' (lead ++ ['\n'])) := by
      rw [hsplit, hsplitEnd, codeFrom_append_of_some hpassed, codeFrom_append_of_some hpassed]
    rw [Block.of_congr hsame]
    exact .same

theorem Nesting.continued_blocks {k : Nat} {ts : List Token}
    (h : ∀ text first last rest, .comment text first last rest ∈ ts →
      rest.getLast? = some '\n' ∧ last + Text.newlines rest = 1 + k) (n : Nesting) (t : List Char) :
    List.Forall₂ (Block.Continued k t) (n.blocks ts) (n.blocks (ts.map (Token.followedBy t))) := by
  induction ts generalizing n with
  | nil => exact .nil
  | cons token ts ih =>
    have hmore := ih (fun text first last rest hm => h text first last rest (List.mem_cons_of_mem _ hm))
      (n.step token)
    rw [List.map_cons, Nesting.blocks, Nesting.blocks, step_followedBy]
    cases token with
    | comment text first last rest =>
      obtain ⟨hrest, hlast⟩ := h text first last rest List.mem_cons_self
      simp only [Token.followedBy, Nesting.block]
      split
      · exact .cons (Block.continued_of hrest hlast n text first t) hmore
      · exact hmore
    | _ => exact hmore

theorem rest_of_mem_passing {s text rest : List Char} {first last : Nat}
    (hend : s.getLast? = some '\n')
    (h : .comment text first last rest ∈ ({} : Lexer).passing s []) :
    rest.getLast? = some '\n' ∧ last + Text.newlines rest = 1 + Text.newlines s := by
  obtain ⟨read, left, hs, rfl, rfl⟩ := Lexer.reads_start.mem_passing h
  have hs : s = read ++ '/' :: left := hs
  rw [List.append_nil]
  rw [hs] at hend
  refine ⟨?_, ?_⟩
  · cases left with
    | nil => simp at hend
    | cons c left => simpa using hend
  · rw [hs, List.append_cons read '/' left, Text.newlines_append (read ++ ['/']), Nat.add_assoc]

theorem scan_eq_ok_iff {file : String} {text : List Char} {blocks : List Block} :
    scan file text = .ok blocks ↔ (Lexer.run {} text).unclosed? = none ∧
      Nesting.blocks {} (Lexer.tokens {} text) = blocks := by
  simp only [scan]
  split
  · rename_i hopen
    simp [hopen]
  · rename_i hclosed
    simp [hclosed]

theorem tokens_of_settled {file : String} {s : List Char} {blocks : List Block}
    (hs : scan file s = .ok blocks) (hend : Settled s) :
    Lexer.tokens {} s = ({} : Lexer).passing s [] := by
  have h := Lexer.tokens_append {} s []
  rw [List.append_nil, Lexer.run_of_settled hs hend] at h
  rw [h]
  exact List.append_nil _

theorem Settled.alike {s : List Char} (h : Settled s) : (Nesting.after s).Alike {} :=
  ⟨h.depth, h.classes, h.announced, iff_of_false h.lastWord (by decide)⟩

/-- A text behind a settled one is scanned as on its own, so many lines further down. -/
theorem scan_append {file : String} {s : List Char} {blocks : List Block}
    (hs : scan file s = .ok blocks) (hend : Settled s) (t : List Char) :
    ∃ kept, List.Forall₂ (Block.Continued (Text.newlines s) t) blocks kept ∧
      scan file (s ++ t) =
        ((scan file t).mapError (Problem.below (Text.newlines s))).map fun later =>
          kept ++ later.map (Block.below (Text.newlines s)) := by
  have htokens := tokens_of_settled hs hend
  have hnesting : Nesting.run {} (({} : Lexer).passing s t) = Nesting.after s := by
    rw [Lexer.passing_eq_map, Nesting.run_map_followedBy, ← htokens, Nesting.after]
  have hlater : (Nesting.after s).blocks ((Lexer.tokens {} t).map (Token.below (Text.newlines s))) =
      (Nesting.blocks {} (Lexer.tokens {} t)).map (Block.below (Text.newlines s)) := by
    rw [hend.alike.blocks, Nesting.blocks_below]
  refine ⟨Nesting.blocks {} (({} : Lexer).passing s t), ?_, ?_⟩
  · rw [← (scan_eq_ok_iff.mp hs).2, htokens, Lexer.passing_eq_map _ s t]
    exact Nesting.continued_blocks (fun _ _ _ _ hm => rest_of_mem_passing hend.newline hm) {} t
  · have hrun := Lexer.run_of_settled hs hend
    simp only [scan, Lexer.run_append, Lexer.tokens_append, Nesting.blocks_append, hrun,
      Lexer.run_below, Lexer.unclosed?_below, Lexer.tokens_below, hnesting, hlater]
    cases (Lexer.run {} t).unclosed? <;> rfl

def openingText : List Char :=
  ("const p = '/**'\nclass Shape \x7b\n/** Area. */\narea () \x7b return /[/*]/ \x7d\n\x7d\n" ++
    "/** Later. */\n// note\n").toList

def openingBlocks : List Block :=
  [{ comment := "/** Area. */".toList, line := 3
     code := some "area () \x7b return /[/*]/ \x7d".toList, codeLine := 4
     enclosing := some { name := "Shape".toList, direct := true } },
    { comment := "/** Later. */".toList, line := 6, codeLine := 6 }]

theorem settled_openingText : Settled openingText := by
  have hnesting : Nesting.after openingText = {} := by decide +kernel
  exact ⟨by decide, by rw [hnesting], by rw [hnesting], by rw [hnesting],
    by rw [hnesting]; decide, by decide +kernel⟩

def closingText : List Char := "\nlet n = 1\n/** Other. */\nlet m = 2".toList

theorem scan_append_opening :
    scan "shape.js" openingText = .ok openingBlocks ∧ Settled openingText ∧
      ∃ kept, List.Forall₂ (Block.Continued 7 closingText) openingBlocks kept ∧
        scan "shape.js" (openingText ++ closingText) =
          ((scan "shape.js" closingText).mapError (Problem.below 7)).map fun later =>
            kept ++ later.map (Block.below 7) := by
  have hscan : scan "shape.js" openingText = .ok openingBlocks := by decide +kernel
  have hlines : Text.newlines openingText = 7 := by decide +kernel
  have happend := scan_append hscan settled_openingText closingText
  rw [hlines] at happend
  exact ⟨hscan, settled_openingText, happend⟩

end ApiPages.Source
