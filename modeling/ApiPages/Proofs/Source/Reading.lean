import Mathlib.Data.List.Basic
import Mathlib.Data.List.Infix
import ApiPages.Source.Block

/-!
How far a lexer has read. Its line is one more than the newlines it has passed, in whatever mode it
passed them; a comment that is open began where its first line says and holds no closing mark yet.
What is behind a character matters for the tokens only as the text that a comment carries along.
-/
namespace ApiPages

theorem Text.newlines_append (s t : List Char) :
    Text.newlines (s ++ t) = Text.newlines s + Text.newlines t :=
  List.count_append

theorem Text.newlines_of_not_mem {s : List Char} (h : '\n' ∉ s) : Text.newlines s = 0 :=
  List.count_eq_zero.mpr h

theorem Text.newlines_singleton (c : Char) : Text.newlines [c] = if c = '\n' then 1 else 0 := by
  by_cases hc : c = '\n'
  · rw [hc]
    rfl
  · rw [if_neg hc]
    exact newlines_of_not_mem fun hm => hc (List.mem_singleton.mp hm).symm

namespace Source

def Token.IsPlain : Token → Prop
  | .comment _ _ _ _ => False
  | _ => True

theorem Nesting.blocks_of_isPlain {ts : List Token} (h : ∀ t ∈ ts, t.IsPlain) (n : Nesting) :
    n.blocks ts = [] := by
  induction ts generalizing n with
  | nil => rfl
  | cons t ts ih =>
    obtain ⟨ht, hts⟩ := List.forall_mem_cons.mp h
    rw [Nesting.blocks, ih hts, List.append_nil]
    cases t with
    | comment text first last rest => exact ht.elim
    | _ => rfl

def Mode.IsOutside : Mode → Prop
  | .slash => False
  | .comment _ _ _ => False
  | _ => True

namespace Lexer

def pending (l : Lexer) : List Char :=
  match l.mode with
  | .slash => ['/']
  | .comment _ text _ => text.reverse
  | _ => []

theorem pending_of_isOutside {l : Lexer} (h : l.mode.IsOutside) : l.pending = [] := by
  rw [pending]
  split
  · rename_i hmode
    rw [hmode] at h
    exact h.elim
  · rename_i hmode
    rw [hmode] at h
    exact h.elim
  · rfl

structure Passes (l : Lexer) (c : Char) (l' : Lexer) : Prop where
  line : l'.line = l.line + Text.newlines [c]
  mode : l'.mode.IsOutside ∨ c = '/' ∧ l'.mode = .slash

section Passing

variable (l : Lexer) {c : Char}

theorem advance_eq (c : Char) (mode : Mode) :
    l.advance c mode = { l with mode := mode, line := l.line + Text.newlines [c] } := by
  rw [Text.newlines_singleton, advance]
  split <;> rfl

theorem passes_advance {mode : Mode} (h : mode.IsOutside) (c : Char) :
    l.Passes c (l.advance c mode) :=
  ⟨by rw [advance_eq], .inl h⟩

theorem passes_of_ne_newline (hc : c ≠ '\n') {l' : Lexer} (hline : l'.line = l.line)
    (hmode : l'.mode.IsOutside) : l.Passes c l' :=
  ⟨by rw [hline, Text.newlines_singleton, if_neg hc, Nat.add_zero], .inl hmode⟩

theorem passes_advance_code (c : Char) : l.Passes c (l.advance c .code) := by
  have hmode : Mode.code.IsOutside := ⟨⟩
  exact l.passes_advance hmode c

theorem passes_code (c : Char) : l.Passes c (l.code c) := by
  simp only [code]
  split
  · rename_i hc
    exact ⟨by rw [hc]; rfl, .inr ⟨hc, rfl⟩⟩
  split
  · rename_i hquote
    have hc : c ≠ '\n' := by
      rintro rfl
      simp [isQuote] at hquote
    exact l.passes_of_ne_newline hc rfl ⟨⟩
  split
  · rename_i hword
    have hc : c ≠ '\n' := by
      rintro rfl
      simp [isWordPart] at hword
    exact l.passes_of_ne_newline hc rfl ⟨⟩
  split
  · exact l.passes_advance_code c
  · rename_i hblank
    have hc : c ≠ '\n' := by
      rintro rfl
      simp at hblank
    exact l.passes_of_ne_newline hc rfl ⟨⟩

theorem passes_pattern (c : Char) (inClass escaped : Bool) :
    l.Passes c (l.pattern c inClass escaped) := by
  simp only [pattern]
  split
  · obtain ⟨hline, hmode⟩ := l.passes_advance_code c
    exact ⟨hline, hmode⟩
  rename_i hc
  repeat' split
  all_goals exact l.passes_of_ne_newline hc rfl ⟨⟩

theorem passes_quoted (c quote : Char) (first : Nat) (escaped : Bool) :
    l.Passes c (l.quoted c quote first escaped) := by
  have hmode : (Mode.quoted quote first false).IsOutside := ⟨⟩
  simp only [quoted]
  split
  · exact l.passes_advance hmode c
  split
  · rename_i hc
    exact l.passes_of_ne_newline (by rw [hc]; decide) rfl ⟨⟩
  split
  · obtain ⟨hline, hmode⟩ := l.passes_advance_code c
    exact ⟨hline, hmode⟩
  · exact l.passes_advance hmode c

end Passing

/-- What one character does: it closes a comment, goes on in one, opens one or passes. -/
theorem step_cases (l : Lexer) (c : Char) :
    (∃ first text, l.mode = .comment first text true ∧ c = '/' ∧
      l.step c = { l with mode := .code }) ∨
    (∃ first text star, l.mode = .comment first text star ∧ ¬ (star = true ∧ c = '/') ∧
      l.step c = l.advance c (.comment first (c :: text) (c == '*'))) ∨
    (l.mode = .slash ∧ c = '*' ∧ l.step c = { l with mode := .comment l.line ['*', '/'] false }) ∨
    (l.mode.IsOutside ∨ l.mode = .slash) ∧ l.Passes c (l.step c) := by
  cases hmode : l.mode with
  | code =>
    have hstep : l.step c = l.code c := by simp only [step, hmode]
    rw [hstep]
    exact .inr (.inr (.inr ⟨.inl ⟨⟩, l.passes_code c⟩))
  | word letters =>
    have hstep : l.step c = if isWordPart c then { l with mode := .word (c :: letters) }
        else (l.wordDone letters).code c := by
      simp only [step, hmode]
    refine .inr (.inr (.inr ⟨.inl ⟨⟩, ?_⟩))
    rw [hstep]
    split
    · rename_i hword
      have hc : c ≠ '\n' := by
        rintro rfl
        simp [isWordPart] at hword
      exact l.passes_of_ne_newline hc rfl ⟨⟩
    · obtain ⟨hline, hafter⟩ := (l.wordDone letters).passes_code c
      exact ⟨hline, hafter⟩
  | slash =>
    have hstep : l.step c = if c = '/' then { l with mode := .lineComment }
        else if c = '*' then { l with mode := .comment l.line ['*', '/'] false }
        else if l.fresh then l.pattern c false false
        else { l with mode := .code, fresh := true }.code c := by
      simp only [step, hmode]
    rw [hstep]
    split
    · rename_i hc
      exact .inr (.inr (.inr ⟨.inr rfl, l.passes_of_ne_newline (by rw [hc]; decide) rfl ⟨⟩⟩))
    split
    · rename_i hc
      exact .inr (.inr (.inl ⟨rfl, hc, rfl⟩))
    split
    · exact .inr (.inr (.inr ⟨.inr rfl, l.passes_pattern c _ _⟩))
    · obtain ⟨hline, hafter⟩ := ({ l with mode := .code, fresh := true } : Lexer).passes_code c
      exact .inr (.inr (.inr ⟨.inr rfl, hline, hafter⟩))
  | lineComment =>
    have hstep : l.step c = l.advance c (if c = '\n' then .code else .lineComment) := by
      simp only [step, hmode]
    rw [hstep]
    refine .inr (.inr (.inr ⟨.inl ⟨⟩, l.passes_advance ?_ c⟩))
    split <;> exact ⟨⟩
  | comment first text star =>
    have hstep : l.step c = if star ∧ c = '/' then { l with mode := .code }
        else l.advance c (.comment first (c :: text) (c == '*')) := by
      simp only [step, hmode]
    rw [hstep]
    by_cases hclose : star = true ∧ c = '/'
    · rw [if_pos hclose]
      exact .inl ⟨first, text, by rw [hclose.1], hclose.2, rfl⟩
    · rw [if_neg hclose]
      exact .inr (.inl ⟨first, text, star, rfl, hclose, rfl⟩)
  | quoted quote first escaped =>
    have hstep : l.step c = l.quoted c quote first escaped := by simp only [step, hmode]
    rw [hstep]
    exact .inr (.inr (.inr ⟨.inl ⟨⟩, l.passes_quoted c quote first escaped⟩))
  | pattern inClass escaped =>
    have hstep : l.step c = l.pattern c inClass escaped := by simp only [step, hmode]
    rw [hstep]
    exact .inr (.inr (.inr ⟨.inl ⟨⟩, l.passes_pattern c inClass escaped⟩))

theorem isPlain_markOf (c : Char) : ∀ t ∈ markOf c, t.IsPlain := by
  intro t ht
  rcases mem_markOf ht with rfl | rfl | rfl <;> exact ⟨⟩

variable {l : Lexer} {c : Char}

theorem emit_of_closes {first : Nat} {text : List Char} (h : l.mode = .comment first text true)
    (rest : List Char) : l.emit '/' rest = [.comment ('/' :: text).reverse first l.line rest] := by
  simp [emit, h]

theorem isPlain_emit
    (h : ∀ first text star, l.mode = .comment first text star → ¬ (star = true ∧ c = '/'))
    (rest : List Char) : ∀ t ∈ l.emit c rest, t.IsPlain := by
  intro t ht
  simp only [emit] at ht
  split at ht
  · exact isPlain_markOf c t ht
  · split at ht
    · exact absurd ht List.not_mem_nil
    · rcases List.mem_cons.mp ht with rfl | ht
      · exact ⟨⟩
      · exact isPlain_markOf c t ht
  · split at ht
    · exact absurd ht List.not_mem_nil
    · exact isPlain_markOf c t ht
  · rename_i first text star hmode
    rw [if_neg (h first text star hmode)] at ht
    exact absurd ht List.not_mem_nil
  · exact absurd ht List.not_mem_nil

theorem isPlain_close (l : Lexer) : ∀ t ∈ l.close, t.IsPlain := by
  intro t ht
  simp only [close] at ht
  split at ht
  · rw [List.mem_singleton.mp ht]
    exact ⟨⟩
  · exact absurd ht List.not_mem_nil

def passing (l : Lexer) : List Char → List Char → List Token
  | [], _ => []
  | c :: s, behind => l.emit c (s ++ behind) ++ (l.step c).passing s behind

theorem tokens_append (l : Lexer) (s t : List Char) :
    l.tokens (s ++ t) = l.passing s t ++ (l.run s).tokens t := by
  induction s generalizing l with
  | nil => rfl
  | cons c s ih =>
    rw [List.cons_append, tokens, ih, passing, List.append_assoc]
    rfl

theorem passing_append (l : Lexer) (s t behind : List Char) :
    l.passing (s ++ t) behind = l.passing s (t ++ behind) ++ (l.run s).passing t behind := by
  induction s generalizing l with
  | nil => rfl
  | cons c s ih =>
    rw [List.cons_append, passing, ih, passing, List.append_assoc, List.append_assoc]
    rfl

def Quiet (l : Lexer) (s : List Char) : Prop := ∀ behind, ∀ t ∈ l.passing s behind, t.IsPlain

theorem Quiet.append {l : Lexer} {s t : List Char} (hs : l.Quiet s) (ht : (l.run s).Quiet t) :
    l.Quiet (s ++ t) := by
  intro behind
  rw [passing_append]
  exact List.forall_mem_append.mpr ⟨hs (t ++ behind), ht behind⟩

theorem Quiet.blocks {l : Lexer} {s : List Char} (h : l.Quiet s) (n : Nesting) (t : List Char) :
    n.blocks (l.tokens (s ++ t)) = (n.run (l.passing s t)).blocks ((l.run s).tokens t) := by
  rw [tokens_append, Nesting.blocks_append, Nesting.blocks_of_isPlain (h t), List.nil_append]

theorem quiet_singleton {l : Lexer} (h : ∀ first text star, l.mode ≠ .comment first text star)
    (c : Char) : l.Quiet [c] := by
  intro behind
  refine List.forall_mem_append.mpr ⟨isPlain_emit ?_ _, fun t ht => absurd ht List.not_mem_nil⟩
  intro first text star hmode
  exact absurd hmode (h first text star)

theorem quiet_of_mode {p : Mode → Prop} (hp : ∀ first text star, ¬ p (.comment first text star))
    {s : List Char} (hstep : ∀ (l : Lexer) (c : Char), c ∈ s → p l.mode → p (l.step c).mode)
    {l : Lexer} (h : p l.mode) : l.Quiet s ∧ p (l.run s).mode := by
  induction s generalizing l with
  | nil => exact ⟨fun behind t ht => absurd ht List.not_mem_nil, h⟩
  | cons c s ih =>
    obtain ⟨hquiet, hafter⟩ := ih (fun l d hd => hstep l d (List.mem_cons_of_mem _ hd))
      (hstep l c List.mem_cons_self h)
    refine ⟨fun behind => List.forall_mem_append.mpr ⟨isPlain_emit ?_ _, hquiet behind⟩, hafter⟩
    intro first text star hmode
    rw [hmode] at h
    exact absurd h (hp first text star)

end Lexer

def IsComment (text : List Char) : Prop :=
  ∃ inner, text = '/' :: '*' :: (inner ++ ['*', '/']) ∧ ¬ ['*', '/'] <:+: inner ++ ['*']

namespace Lexer

structure Opened (before : List Char) (first : Nat) (text : List Char) (star : Bool) : Prop where
  first : first = 1 + Text.newlines before
  inner : ∃ inner, text.reverse = '/' :: '*' :: inner ∧ star = (inner.getLast? == some '*') ∧
    ¬ ['*', '/'] <:+: inner

/-- The lexer has read a text up to its pending comment. -/
structure Reads (l : Lexer) (before : List Char) : Prop where
  line : l.line = 1 + Text.newlines (before ++ l.pending)
  opened : ∀ first text star, l.mode = .comment first text star → Opened before first text star

theorem reads_start : ({} : Lexer).Reads [] :=
  ⟨rfl, fun first text star h => by cases h⟩

variable {l : Lexer} {c : Char} {before : List Char}

theorem Reads.of_isOutside (hmode : l.mode.IsOutside)
    (hline : l.line = 1 + Text.newlines before) : l.Reads before := by
  refine ⟨by rw [pending_of_isOutside hmode, List.append_nil, hline], ?_⟩
  intro first text star hcomment
  rw [hcomment] at hmode
  exact hmode.elim

theorem Reads.of_slash (hmode : l.mode = .slash)
    (hline : l.line = 1 + Text.newlines before) : l.Reads before := by
  refine ⟨?_, fun first text star hcomment => by simp [hmode] at hcomment⟩
  rw [hline, pending, hmode, Text.newlines_append]
  rfl

theorem Opened.advance {first : Nat} {text : List Char} {star : Bool}
    (h : Opened before first text star) (hopen : ¬ (star = true ∧ c = '/')) :
    Opened before first (c :: text) (c == '*') := by
  obtain ⟨hfirst, inner, htext, hstar, hinner⟩ := h
  refine ⟨hfirst, inner ++ [c], by simp [htext], by simp, ?_⟩
  rw [List.infix_concat_iff]
  rintro (hlast | hearlier)
  · -- the two characters of a mark at the end are the last one read and this one
    obtain ⟨lead, hlead⟩ := hlast
    have hsplit : (lead ++ ['*']) ++ ['/'] = inner ++ [c] := by simpa using hlead
    obtain ⟨rfl, hc⟩ := List.append_inj' hsplit rfl
    exact hopen ⟨by simp [hstar], (List.singleton_inj.mp hc).symm⟩
  · exact hinner hearlier

theorem Opened.isComment {first : Nat} {text : List Char} (h : Opened before first text true) :
    IsComment ('/' :: text).reverse := by
  obtain ⟨-, inner, htext, hstar, hinner⟩ := h
  have hlast : inner.getLast? = some '*' := by simpa using hstar.symm
  obtain ⟨lead, rfl⟩ := List.getLast?_eq_some_iff.mp hlast
  exact ⟨lead, by simp [htext], hinner⟩

theorem Reads.step_open (h : l.Reads before)
    (hopen : ∀ first text star, l.mode = .comment first text star → ¬ (star = true ∧ c = '/')) :
    ∃ gap, l.pending ++ [c] = gap ++ (l.step c).pending ∧ (l.step c).Reads (before ++ gap) := by
  rcases l.step_cases c with ⟨first, text, hmode, hc, -⟩ | ⟨first, text, star, hmode, hon, hstep⟩ |
    ⟨hmode, hc, hstep⟩ | ⟨hmode, hpass⟩
  · exact absurd ⟨rfl, hc⟩ (hopen first text true hmode)
  · have hpending : (l.step c).pending = l.pending ++ [c] := by
      simp [hstep, advance, pending, hmode]
    refine ⟨[], hpending.symm, ?_, ?_⟩
    · have hadvance : (l.step c).line = l.line + Text.newlines [c] := by rw [hstep, advance_eq]
      rw [hadvance, h.line, hpending, List.append_nil, ← List.append_assoc,
        Text.newlines_append (before ++ l.pending), Nat.add_assoc]
    · intro first' text' star' hmode'
      simp only [hstep, advance, Mode.comment.injEq] at hmode'
      obtain ⟨rfl, rfl, rfl⟩ := hmode'
      rw [List.append_nil]
      exact (h.opened first text star hmode).advance hon
  · have hslash : l.pending = ['/'] := by simp [pending, hmode]
    have hline := h.line
    rw [hslash, Text.newlines_append] at hline
    refine ⟨[], by rw [hslash, hstep, hc]; rfl, ?_, ?_⟩
    · rw [hstep, pending, List.append_nil, Text.newlines_append]
      exact hline
    · intro first' text' star' hmode'
      simp only [hstep, Mode.comment.injEq] at hmode'
      obtain ⟨rfl, rfl, rfl⟩ := hmode'
      rw [List.append_nil]
      exact ⟨hline, [], rfl, rfl, by simp⟩
  · rcases hpass.mode with hafter | ⟨rfl, hafter⟩
    · refine ⟨l.pending ++ [c], by simp [pending_of_isOutside hafter], .of_isOutside hafter ?_⟩
      rw [hpass.line, h.line, ← List.append_assoc, Text.newlines_append _ [c], Nat.add_assoc]
    · refine ⟨l.pending, by simp [pending, hafter], .of_slash hafter ?_⟩
      rw [hpass.line, h.line]
      rfl

theorem Reads.step_close {first : Nat} {text : List Char} (h : l.Reads before)
    (hmode : l.mode = .comment first text true) :
    l.pending ++ ['/'] = ('/' :: text).reverse ∧ (l.step '/').mode = .code ∧
      (l.step '/').line = l.line ∧ (l.step '/').Reads (before ++ ('/' :: text).reverse) := by
  have hpending : l.pending ++ ['/'] = ('/' :: text).reverse := by simp [pending, hmode]
  have hstep : l.step '/' = { l with mode := .code } := by simp [Lexer.step, hmode]
  refine ⟨hpending, by rw [hstep], by rw [hstep], .of_isOutside (by rw [hstep]; exact ⟨⟩) ?_⟩
  rw [hstep, ← hpending, ← List.append_assoc, Text.newlines_append _ ['/'], h.line]
  rfl

theorem Reads.step (h : l.Reads before) (c : Char) :
    ∃ gap, l.pending ++ [c] = gap ++ (l.step c).pending ∧ (l.step c).Reads (before ++ gap) := by
  by_cases hopen : ∀ first text star, l.mode = .comment first text star → ¬ (star = true ∧ c = '/')
  · exact h.step_open hopen
  · push Not at hopen
    obtain ⟨first, text, _, hmode, rfl, rfl⟩ := hopen
    obtain ⟨hpending, hafter, -, hstep⟩ := h.step_close hmode
    refine ⟨('/' :: text).reverse, ?_, hstep⟩
    rw [hpending, pending_of_isOutside (by rw [hafter]; exact ⟨⟩), List.append_nil]

theorem Reads.run (h : l.Reads before) (s : List Char) :
    ∃ gap, l.pending ++ s = gap ++ (l.run s).pending ∧ (l.run s).Reads (before ++ gap) := by
  induction s generalizing l before with
  | nil => exact ⟨[], by simp [Lexer.run], by simpa [Lexer.run] using h⟩
  | cons c s ih =>
    obtain ⟨gap, hgap, hstep⟩ := h.step c
    obtain ⟨more, hmore, hrun⟩ := ih hstep
    refine ⟨gap ++ more, ?_, by rwa [← List.append_assoc]⟩
    rw [List.append_cons, hgap, List.append_assoc, hmore, List.append_assoc]
    rfl

theorem Reads.run_of_isOutside (h : l.Reads before) (hmode : l.mode.IsOutside) {s : List Char}
    (hafter : (l.run s).mode.IsOutside) : (l.run s).Reads (before ++ s) := by
  obtain ⟨gap, hgap, hrun⟩ := h.run s
  rw [pending_of_isOutside hmode, pending_of_isOutside hafter, List.append_nil, List.nil_append]
    at hgap
  rw [hgap] at hrun ⊢
  exact hrun

theorem Reads.mem_passing (h : l.Reads before) {s behind text rest : List Char} {first last : Nat}
    (hmem : .comment text first last rest ∈ l.passing s behind) :
    ∃ read left, before ++ l.pending ++ s = read ++ '/' :: left ∧ rest = left ++ behind ∧
      last = 1 + Text.newlines (read ++ ['/']) := by
  induction s generalizing l before with
  | nil => exact absurd hmem List.not_mem_nil
  | cons c s ih =>
    obtain ⟨gap, hgap, hstep⟩ := h.step c
    rcases List.mem_append.mp hmem with hmem | hmem
    · by_cases hopen :
          ∀ first text star, l.mode = .comment first text star → ¬ (star = true ∧ c = '/')
      · exact (isPlain_emit hopen _ _ hmem).elim
      · push Not at hopen
        obtain ⟨first', text', _, hmode, rfl, rfl⟩ := hopen
        rw [emit_of_closes hmode, List.mem_singleton] at hmem
        obtain ⟨-, -, rfl, rfl⟩ := Token.comment.inj hmem
        refine ⟨before ++ l.pending, s, rfl, rfl, ?_⟩
        rw [h.line, Text.newlines_append _ ['/']]
        rfl
    · obtain ⟨read, left, htext, hrest, hlast⟩ := ih hstep hmem
      refine ⟨read, left, ?_, hrest, hlast⟩
      rw [← htext, List.append_assoc before, List.append_assoc before, ← hgap]
      simp

end Lexer

end Source

end ApiPages
