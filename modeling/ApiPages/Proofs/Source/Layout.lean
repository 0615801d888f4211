import ApiPages.Proofs.Source.CodeLine

/-!
Where the blocks of a text stand. A block is a slice of the text that starts on its line, and the
line of its code is the first one behind the comment that holds code. Main statement: the blocks of
a text are slices of it, in order and apart, and no block starts before the code of an earlier one.
-/
namespace ApiPages.Source

/-- How a block stands in a text, between what is before its comment and what is behind it. -/
structure Block.Stands (before behind : List Char) (b : Block) : Prop where
  comment : ∃ inner, b.comment = '/' :: '*' :: '*' :: (inner ++ ['*', '/']) ∧
    ¬ ['*', '/'] <:+: '*' :: (inner ++ ['*'])
  line : b.line = 1 + Text.newlines before
  code : ∀ text, b.code = some text → Text.startsWith ['/', '*'] text = false ∧
    ∃ j, FirstCode (Text.split '\n' behind) text j ∧
      b.codeLine = 1 + Text.newlines (before ++ b.comment) + j
  source : ∀ text, b.code = some text → 1 + Text.newlines (before ++ b.comment) < b.codeLine →
    (Text.split '\n' (before ++ b.comment ++ behind))[b.codeLine - 1]?.bind codeOn? = some text
  noCode : b.code = none → b.codeLine = 1 + Text.newlines (before ++ b.comment) ∧
    ∀ text j, FirstCode (Text.split '\n' behind) text j → Text.startsWith ['/', '*'] text = true

/-- Blocks stand in the text behind some other text, in order and apart. -/
inductive Laid : List Char → List Char → List Block → Prop
  | nil (before behind : List Char) : Laid before behind []
  | cons {before gap behind : List Char} {b : Block} {bs : List Block}
      (hb : b.Stands (before ++ gap) behind) (hbs : Laid (before ++ gap ++ b.comment) behind bs) :
      Laid before (gap ++ b.comment ++ behind) (b :: bs)

theorem Laid.grow {before gap behind : List Char} {bs : List Block}
    (h : Laid (before ++ gap) behind bs) : Laid before (gap ++ behind) bs := by
  cases h with
  | nil => exact .nil _ _
  | @cons _ gap' behind b bs hb hbs =>
    rw [← List.append_assoc, ← List.append_assoc]
    rw [List.append_assoc before] at hb hbs
    exact .cons hb hbs

theorem IsComment.doc {text : List Char} (h : IsComment text) (hdoc : isDoc text = true) :
    ∃ inner, text = '/' :: '*' :: '*' :: (inner ++ ['*', '/']) ∧
      ¬ ['*', '/'] <:+: '*' :: (inner ++ ['*']) := by
  obtain ⟨inner, rfl, hclosed⟩ := h
  match inner with
  | [] => simp [isDoc] at hdoc
  | c :: inner =>
    have hstar : c = '*' := by
      by_contra hc
      simp [isDoc, hc] at hdoc
    exact ⟨inner, by rw [hstar]; rfl, by rwa [hstar] at hclosed⟩

theorem Block.code_of (n : Nesting) {text behind : List Char} {first last : Nat}
    {held : List Char} (h : (Block.of n text first last behind).code = some held) :
    Text.startsWith ['/', '*'] held = false ∧ ∃ j, FirstCode (Text.split '\n' behind) held j ∧
      (Block.of n text first last behind).codeLine = last + j := by
  obtain ⟨⟨held', m⟩, hfrom, rfl⟩ := Option.map_eq_some_iff.mp h
  obtain ⟨j, rfl, hfirst, hlead⟩ := codeFrom_eq_some_iff.mp hfrom
  exact ⟨hlead, j, hfirst, by simp [Block.of, hfrom]⟩

theorem Block.noCode_of (n : Nesting) {text behind : List Char} {first last : Nat}
    (h : (Block.of n text first last behind).code = none) :
    (Block.of n text first last behind).codeLine = last ∧
      ∀ held j, FirstCode (Text.split '\n' behind) held j →
        Text.startsWith ['/', '*'] held = true := by
  have hfrom := Option.map_eq_none_iff.mp h
  refine ⟨by simp [Block.of, hfrom], fun held j hfirst => ?_⟩
  by_contra hlead
  have hsome : codeFrom last (Text.split '\n' behind) = some (held, last + j) :=
    codeFrom_eq_some_iff.mpr ⟨j, rfl, hfirst, Bool.eq_false_iff.mpr hlead⟩
  rw [hfrom] at hsome
  cases hsome

theorem Block.stands_of {before text : List Char} {first last : Nat} (h : IsComment text)
    (hdoc : isDoc text = true) (hfirst : first = 1 + Text.newlines before)
    (hlast : last = 1 + Text.newlines (before ++ text)) (n : Nesting) (behind : List Char) :
    (Block.of n text first last behind).Stands before behind where
  comment := h.doc hdoc
  line := hfirst
  code held hheld := by
    obtain ⟨hlead, j, hcode, hline⟩ := Block.code_of n hheld
    exact ⟨hlead, j, hcode, by rw [hline, hlast]; rfl⟩
  source held hheld hbeyond := by
    obtain ⟨-, j, hcode, hline⟩ := Block.code_of n hheld
    change 1 + Text.newlines (before ++ text) < _ at hbeyond
    rw [hline, hlast] at hbeyond
    obtain ⟨i, rfl⟩ : ∃ i, j = i + 1 := ⟨j - 1, by omega⟩
    have hplace : last + (i + 1) - 1 = (before ++ text).count '\n' + (i + 1) := by
      rw [hlast, Text.newlines]
      omega
    rw [hline, hplace]
    exact (congrArg (·.bind codeOn?) (Text.getElem?_split_append _ _ _)).trans hcode.held
  noCode hnone := by
    obtain ⟨hline, hlead⟩ := Block.noCode_of n hnone
    exact ⟨by rw [hline, hlast]; rfl, hlead⟩

/-- The blocks of what a lexer has still to read stand there, from its pending comment on. -/
theorem laid_blocks {l : Lexer} {before : List Char} (h : l.Reads before) (n : Nesting)
    (cs : List Char) : Laid before (l.pending ++ cs) (n.blocks (l.tokens cs)) := by
  induction cs generalizing l before n with
  | nil =>
    rw [Lexer.tokens, Nesting.blocks_of_isPlain l.isPlain_close]
    exact .nil _ _
  | cons c cs ih =>
    by_cases hopen :
        ∀ first text star, l.mode = .comment first text star → ¬ (star = true ∧ c = '/')
    · obtain ⟨gap, hgap, hstep⟩ := h.step_open hopen
      rw [Lexer.tokens, Nesting.blocks_append,
        Nesting.blocks_of_isPlain (Lexer.isPlain_emit hopen cs), List.nil_append,
        ← List.singleton_append, ← List.append_assoc, hgap, List.append_assoc]
      exact (ih hstep _).grow
    · push Not at hopen
      obtain ⟨first, text, _, hmode, rfl, rfl⟩ := hopen
      obtain ⟨hpending, hafter, hline, hstep⟩ := h.step_close hmode
      have hopened := h.opened first text true hmode
      have hnext : (l.step '/').pending = [] := Lexer.pending_of_isOutside (by rw [hafter]; exact ⟨⟩)
      have hlast : l.line = 1 + Text.newlines (before ++ ('/' :: text).reverse) := by
        rw [← hline, hstep.line, hnext, List.append_nil]
      have hmore := ih hstep n
      rw [hnext, List.nil_append] at hmore
      rw [Lexer.tokens, Lexer.emit_of_closes hmode, List.singleton_append, Nesting.blocks,
        Nesting.block, List.append_cons, hpending]
      split
      · rename_i hdoc
        have hb := Block.stands_of hopened.isComment hdoc hopened.first hlast n cs
        exact @Laid.cons _ [] _ _ _ (by rwa [List.append_nil]) (by rwa [List.append_nil])
      · exact hmore.grow

theorem Laid.line_le {before behind : List Char} {bs : List Block} (h : Laid before behind bs) :
    ∀ b ∈ bs, 1 + Text.newlines before ≤ b.line := by
  induction h with
  | nil => simp
  | @cons before gap behind b bs hb hbs ih =>
    refine List.forall_mem_cons.mpr ⟨?_, fun b' hb' => ?_⟩
    · rw [hb.line, Text.newlines_append]
      omega
    · have := ih b' hb'
      rw [Text.newlines_append, Text.newlines_append] at this
      omega

theorem Block.Stands.line_le_codeLine {before behind : List Char} {b : Block}
    (h : b.Stands before behind) : b.line ≤ b.codeLine := by
  rw [h.line]
  cases hcode : b.code with
  | none =>
    rw [(h.noCode hcode).1, Text.newlines_append]
    omega
  | some text =>
    obtain ⟨-, j, -, hline⟩ := h.code text hcode
    rw [hline, Text.newlines_append]
    omega

theorem Laid.line_le_codeLine {before behind : List Char} {bs : List Block}
    (h : Laid before behind bs) : ∀ b ∈ bs, b.line ≤ b.codeLine := by
  induction h with
  | nil => simp
  | cons hb hbs ih => exact List.forall_mem_cons.mpr ⟨hb.line_le_codeLine, ih⟩

namespace Lexer

variable {l : Lexer} {before : List Char}

theorem Reads.line_le (h : l.Reads before) (hmode : l.mode = .code) (n : Nesting)
    (cs : List Char) : ∀ b ∈ n.blocks (l.tokens cs), l.line ≤ b.line := by
  have hlaid := laid_blocks h n cs
  rw [h.line, pending_of_isOutside (by rw [hmode]; exact ⟨⟩), List.append_nil]
  exact hlaid.line_le

theorem Reads.line_le_of_codeFrom {cs : List Char} (h : l.Reads before) (hmode : l.mode = .code)
    {text : List Char} {m : Nat} (hcode : codeFrom l.line (Text.split '\n' cs) = some (text, m))
    (n : Nesting) : ∀ b ∈ n.blocks (l.tokens cs), m ≤ b.line := by
  -- line by line: those without code are quiet, and the first one with code is where `m` is
  induction hlength : cs.length using Nat.strong_induction_on generalizing l before n cs with
  | _ length ih =>
    rcases @Text.split_cases '\n' cs with ⟨-, hsplit⟩ | ⟨line, rest, hline, rfl, hsplit⟩
    · rw [hsplit] at hcode
      cases hheld : codeOn? cs with
      | none =>
        rw [codeFrom_cons_of_none _ hheld] at hcode
        cases hcode
      | some held =>
        rw [codeFrom_cons_of_some _ hheld] at hcode
        split at hcode
        · cases hcode
        · obtain ⟨-, rfl⟩ := Prod.mk.inj (Option.some.inj hcode)
          exact h.line_le hmode n cs
    · rw [hsplit] at hcode
      cases hheld : codeOn? line with
      | none =>
        obtain ⟨hquiet, hafter⟩ := quiet_line hheld hline hmode
        have hreads := h.run_of_isOutside (by rw [hmode]; exact ⟨⟩) (s := line ++ ['\n'])
          (by rw [hafter]; exact ⟨⟩)
        rw [codeFrom_cons_of_none _ hheld] at hcode
        have hnext : (l.run (line ++ ['\n'])).line = l.line + 1 := by
          rw [hreads.line, h.line, pending_of_isOutside (by rw [hafter]; exact ⟨⟩),
            pending_of_isOutside (by rw [hmode]; exact ⟨⟩), List.append_nil, List.append_nil,
            ← List.append_assoc, Text.newlines_append, Text.newlines_append before,
            Text.newlines_of_not_mem hline]
          rfl
        rw [← hnext] at hcode
        rw [List.append_cons, hquiet.blocks]
        have hshorter : rest.length < length := by
          rw [← hlength, List.length_append, List.length_cons]
          omega
        exact ih rest.length hshorter hreads hafter hcode _ rfl
      | some held =>
        rw [codeFrom_cons_of_some _ hheld] at hcode
        split at hcode
        · cases hcode
        · obtain ⟨-, rfl⟩ := Prod.mk.inj (Option.some.inj hcode)
          exact h.line_le hmode n _

theorem Reads.codeLine_le (h : l.Reads before) (hmode : l.mode = .code) (n m : Nesting)
    (text cs : List Char) (first : Nat) :
    ∀ b ∈ m.blocks (l.tokens cs), (Block.of n text first l.line cs).codeLine ≤ b.line := by
  cases hcode : codeFrom l.line (Text.split '\n' cs) with
  | none =>
    rw [Block.of, hcode]
    exact h.line_le hmode m cs
  | some found =>
    rw [Block.of, hcode]
    exact h.line_le_of_codeFrom hmode hcode m

theorem Reads.ordered (h : l.Reads before) (n : Nesting) (cs : List Char) :
    (n.blocks (l.tokens cs)).Pairwise fun b b' => b.codeLine ≤ b'.line := by
  induction cs generalizing l before n with
  | nil =>
    rw [tokens, Nesting.blocks_of_isPlain l.isPlain_close]
    exact .nil
  | cons c cs ih =>
    by_cases hopen :
        ∀ first text star, l.mode = .comment first text star → ¬ (star = true ∧ c = '/')
    · obtain ⟨gap, -, hstep⟩ := h.step_open hopen
      rw [tokens, Nesting.blocks_append, Nesting.blocks_of_isPlain (isPlain_emit hopen cs),
        List.nil_append]
      exact ih hstep _
    · push Not at hopen
      obtain ⟨first, text, _, hmode, rfl, rfl⟩ := hopen
      obtain ⟨-, hafter, hline, hstep⟩ := h.step_close hmode
      rw [tokens, emit_of_closes hmode, List.singleton_append, Nesting.blocks, Nesting.block]
      split
      · refine List.pairwise_cons.mpr ⟨?_, ih hstep _⟩
        rw [← hline]
        exact hstep.codeLine_le hafter n _ _ cs first
      · exact ih hstep _

end Lexer

/-- The blocks of a text are slices of it, in order and apart; each starts on its line, has its code
on the first line with code behind it, and no block starts above the code of an earlier one. -/
theorem blocks_laid_out {file : String} {text : List Char} {blocks : List Block}
    (h : scan file text = .ok blocks) :
    Laid [] text blocks ∧ (∀ b ∈ blocks, b.line ≤ b.codeLine) ∧
      blocks.Pairwise fun b b' => b.codeLine ≤ b'.line := by
  simp only [scan] at h
  split at h
  · cases h
  · obtain rfl := Except.ok.inj h
    have hlaid : Laid [] text _ := laid_blocks Lexer.reads_start {} text
    exact ⟨hlaid, hlaid.line_le_codeLine, Lexer.reads_start.ordered {} text⟩

def remarkText : List Char :=
  ("const s = '/** no */' // /** no */\nlet t = \x60\n/** no */\x60\n/** One. */ /** Two. */\n\n" ++
    "  // note\n\tlet r = /[/*]/\n/**\n * Three.\n */\n").toList

def remarkBlocks : List Block :=
  [{ comment := "/** One. */".toList, line := 4, codeLine := 4 },
    { comment := "/** Two. */".toList, line := 4, code := some "let r = /[/*]/".toList
      codeLine := 7 },
    { comment := "/**\n * Three.\n */".toList, line := 8, codeLine := 10 }]

theorem blocks_laid_out_remarks :
    scan "remarks.js" remarkText = .ok remarkBlocks ∧ Laid [] remarkText remarkBlocks ∧
      (∀ b ∈ remarkBlocks, b.line ≤ b.codeLine) ∧
      remarkBlocks.Pairwise fun b b' => b.codeLine ≤ b'.line := by
  have hscan : scan "remarks.js" remarkText = .ok remarkBlocks := by decide +kernel
  exact ⟨hscan, blocks_laid_out hscan⟩

end ApiPages.Source
