import Mathlib.Data.List.Chain
import ApiPages.Proofs.Source.Reading

/-!
A comment read as a whole. Behind its opening mark the lexer goes on until the first closing mark and
makes one token of all of it, so a text that is a single doc comment has that comment for its only
block.
-/
namespace ApiPages.Source

def StaysOpen (a b : Char) : Prop := ¬ (a = '*' ∧ b = '/')

theorem isChain_staysOpen_iff {cs : List Char} : cs.IsChain StaysOpen ↔ ¬ ['*', '/'] <:+: cs := by
  induction cs with
  | nil => simp
  | cons c cs ih =>
    rw [List.infix_cons_iff, not_or, ← ih]
    cases cs with
    | nil => simp
    | cons d cs =>
      rw [List.isChain_cons_cons, List.cons_prefix_cons, List.cons_prefix_cons, StaysOpen,
        eq_comm (b := c), eq_comm (b := d)]
      simp

theorem isChain_cons_of_ne_star {c : Char} (h : c ≠ '*') {cs : List Char}
    (hcs : cs.IsChain StaysOpen) : (c :: cs).IsChain StaysOpen :=
  List.isChain_cons.mpr ⟨fun _ _ he => h he.1, hcs⟩

theorem isChain_append_cons_of_ne_slash {c : Char} (h : c ≠ '/') {line cs : List Char}
    (hline : line.IsChain StaysOpen) (hcs : (c :: cs).IsChain StaysOpen) :
    (line ++ c :: cs).IsChain StaysOpen := by
  refine List.isChain_append.mpr ⟨hline, hcs, fun a _ b hb he => ?_⟩
  obtain rfl := Option.some.inj hb
  exact h he.2

namespace Lexer

theorem comment_goes_on {l : Lexer} {first : Nat} {text cs : List Char} {last : Char}
    (hmode : l.mode = .comment first text (last == '*')) (h : (last :: cs).IsChain StaysOpen) :
    (l.run cs).mode = .comment first (cs.reverse ++ text) (cs.getLast?.getD last == '*') ∧
      (l.run cs).line = l.line + Text.newlines cs ∧ (l.run cs).fresh = l.fresh ∧
      ∀ behind, l.passing cs behind = [] := by
  induction cs generalizing l text last with
  | nil => exact ⟨hmode, rfl, rfl, fun _ => rfl⟩
  | cons c cs ih =>
    obtain ⟨hfollows, hcs⟩ := List.isChain_cons_cons.mp h
    have hon : ¬ ((last == '*') = true ∧ c = '/') := by simpa [StaysOpen] using hfollows
    have hstep : l.step c = l.advance c (.comment first (c :: text) (c == '*')) := by
      simp only [step, hmode, if_neg hon]
    obtain ⟨hafter, hline, hfresh, hpassing⟩ := ih (l := l.step c) (by rw [hstep]; rfl) hcs
    refine ⟨?_, ?_, ?_, fun behind => ?_⟩
    · rw [List.getLast?_cons, List.reverse_cons, List.append_assoc]
      exact hafter
    · have hadvance : (l.step c).line = l.line + Text.newlines [c] := by rw [hstep, advance_eq]
      rw [← List.singleton_append, Text.newlines_append, ← Nat.add_assoc, ← hadvance]
      exact hline
    · exact hfresh.trans (by rw [hstep]; rfl)
    · rw [passing, hpassing, List.append_nil, emit, hmode]
      simp only [if_neg hon]

theorem passing_of_isComment {l : Lexer} (hmode : l.mode = .code) {text : List Char}
    (h : IsComment text) :
    l.run text = { l with line := l.line + Text.newlines text } ∧
      ∀ behind, l.passing text behind =
        [.comment text l.line (l.line + Text.newlines text) behind] := by
  obtain ⟨inner, rfl, hinner⟩ := h
  have hinside : ('/' :: (inner ++ ['*'])).IsChain StaysOpen := by
    rw [isChain_staysOpen_iff, List.infix_cons_iff, not_or]
    exact ⟨by simp [List.cons_prefix_cons], hinner⟩
  have hslash : l.step '/' = { l with mode := .slash } := by
    simp only [step, hmode]
    rfl
  have hopen : l.run ['/', '*'] = { l with mode := .comment l.line ['*', '/'] false } := by
    change (l.step '/').step '*' = _
    rw [hslash]
    rfl
  have hquiet (behind : List Char) : l.passing ['/', '*'] behind = [] := by
    rw [passing, passing, hslash, emit, hmode]
    rfl
  obtain ⟨hafter, hline, hfresh, hpassing⟩ := comment_goes_on (l := l.run ['/', '*'])
    (by rw [hopen]; rfl) hinside
  rw [List.getLast?_concat] at hafter
  have htext : '/' :: '*' :: (inner ++ ['*', '/']) = ['/', '*'] ++ ((inner ++ ['*']) ++ ['/']) := by
    simp
  have hlines : Text.newlines ('/' :: '*' :: (inner ++ ['*', '/'])) =
      Text.newlines (inner ++ ['*']) := by
    rw [htext, Text.newlines_append, Text.newlines_append (inner ++ ['*'])]
    exact Nat.zero_add _
  have hend : ((l.run ['/', '*']).run (inner ++ ['*'])).line =
      l.line + Text.newlines ('/' :: '*' :: (inner ++ ['*', '/'])) := by
    rw [hline, hopen, hlines]
  constructor
  · rw [htext, run_append, run_append]
    generalize (l.run ['/', '*']).run (inner ++ ['*']) = m at hafter hend hfresh
    have hclose : m.step '/' = { m with mode := .code } := by simp [step, hafter]
    change m.step '/' = _
    rw [hclose, hend, hfresh, hopen, ← hmode, htext]
  · intro behind
    rw [htext, passing_append, passing_append, hquiet, hpassing, List.nil_append, List.nil_append]
    rw [passing, emit_of_closes hafter, hend, hopen]
    simp [passing]

end Lexer

theorem scan_of_isComment {text : List Char} (h : IsComment text) (hdoc : isDoc text = true)
    (file : String) :
    scan file text = .ok [.of {} text 1 (1 + Text.newlines text) []] := by
  obtain ⟨hrun, hpassing⟩ := Lexer.passing_of_isComment (l := {}) rfl h
  have htokens : Lexer.tokens {} text = [.comment text 1 (1 + Text.newlines text) []] := by
    have happend := Lexer.tokens_append {} text []
    rw [List.append_nil, hpassing, hrun] at happend
    exact happend
  simp only [scan, hrun, htokens]
  simp [Lexer.unclosed?, Nesting.blocks, Nesting.block, hdoc]

end ApiPages.Source
