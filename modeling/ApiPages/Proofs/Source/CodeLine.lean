import Mathlib.Data.List.TakeWhile
import ApiPages.Proofs.Source.Reading
import ApiPages.Proofs.Text.Cutting

/-!
Lines of code behind a comment. A line holds code unless it is blank or a line comment; the code of
a comment is what the first such line holds. The lexer makes no comment of the lines before it, so
the next comment cannot start above that line.
-/
namespace ApiPages.Source

def codeOn? (line : List Char) : Option (List Char) :=
  let text := Text.trim line
  if text = [] ∨ Text.startsWith ['/', '/'] text then none else some text

structure FirstCode (lines : List (List Char)) (text : List Char) (j : Nat) : Prop where
  held : lines[j]?.bind codeOn? = some text
  first : ∀ line ∈ lines.take j, codeOn? line = none

section CodeLines

variable {line : List Char} {more : List (List Char)} {text : List Char}

theorem firstCode_cons_of_some {held : List Char} (h : codeOn? line = some held) {j : Nat} :
    FirstCode (line :: more) text j ↔ held = text ∧ j = 0 := by
  constructor
  · rintro ⟨hheld, hfirst⟩
    cases j with
    | zero => exact ⟨Option.some.inj (h.symm.trans hheld), rfl⟩
    | succ i =>
      have hnone := hfirst line (by simp)
      rw [h] at hnone
      cases hnone
  · rintro ⟨rfl, rfl⟩
    exact ⟨h, by simp⟩

theorem firstCode_cons_of_none (h : codeOn? line = none) {j : Nat} :
    FirstCode (line :: more) text j ↔ ∃ i, j = i + 1 ∧ FirstCode more text i := by
  constructor
  · rintro ⟨hheld, hfirst⟩
    cases j with
    | zero => simp [h] at hheld
    | succ i => exact ⟨i, rfl, hheld, fun l hl => hfirst l (List.mem_cons_of_mem _ hl)⟩
  · rintro ⟨i, rfl, hheld, hfirst⟩
    exact ⟨hheld, List.forall_mem_cons.mpr ⟨h, hfirst⟩⟩

theorem exists_lead_of_codeOn?_eq_none (h : codeOn? line = none) :
    ∃ lead rest, line = lead ++ rest ∧ (∀ c ∈ lead, Text.isBlank c = true) ∧
      (rest = [] ∨ ∃ remark, rest = '/' :: '/' :: remark) := by
  have hline : line = line.takeWhile Text.isBlank ++ Text.trimStart line :=
    List.takeWhile_append_dropWhile.symm
  refine ⟨_, _, hline, fun c hc => List.mem_takeWhile_imp hc, ?_⟩
  simp only [codeOn?] at h
  split at h
  · rename_i hpassed
    rcases hpassed with hnil | hremark
    · exact .inl (Text.trim_eq_nil_iff.mp hnil)
    · obtain ⟨remark, hremark⟩ := (Text.startsWith_iff.mp hremark).trans (Text.trim_prefix line)
      exact .inr ⟨remark, hremark.symm⟩
  · cases h

theorem codeFrom_cons_of_none (n : Nat) (h : codeOn? line = none) :
    codeFrom n (line :: more) = codeFrom (n + 1) more := by
  simp only [codeOn?] at h
  split at h
  · rename_i hpassed
    rw [codeFrom, if_pos hpassed]
  · cases h

theorem codeFrom_cons_of_some (n : Nat) {held : List Char} (h : codeOn? line = some held) :
    codeFrom n (line :: more) =
      if Text.startsWith ['/', '*'] held then none else some (held, n) := by
  simp only [codeOn?] at h
  split at h
  · cases h
  · rename_i hheld
    obtain rfl := Option.some.inj h
    rw [codeFrom, if_neg hheld]

theorem codeFrom_eq_some_iff {n m : Nat} {lines : List (List Char)} :
    codeFrom n lines = some (text, m) ↔
      ∃ j, m = n + j ∧ FirstCode lines text j ∧ Text.startsWith ['/', '*'] text = false := by
  induction lines generalizing n with
  | nil =>
    have hnone (j : Nat) : ¬ FirstCode [] text j := fun h => by simpa using h.held
    simp [codeFrom, hnone]
  | cons line more ih =>
    cases hline : codeOn? line with
    | none =>
      rw [codeFrom_cons_of_none n hline, ih]
      constructor
      · rintro ⟨j, rfl, hfirst, hlead⟩
        exact ⟨j + 1, by omega, (firstCode_cons_of_none hline).mpr ⟨j, rfl, hfirst⟩, hlead⟩
      · rintro ⟨j, rfl, hfirst, hlead⟩
        obtain ⟨i, rfl, hmore⟩ := (firstCode_cons_of_none hline).mp hfirst
        exact ⟨i, by omega, hmore, hlead⟩
    | some held =>
      rw [codeFrom_cons_of_some n hline]
      constructor
      · intro h
        split at h
        · cases h
        · rename_i hlead
          obtain ⟨rfl, rfl⟩ := Prod.mk.inj (Option.some.inj h)
          exact ⟨0, rfl, (firstCode_cons_of_some hline).mpr ⟨rfl, rfl⟩, by simpa using hlead⟩
      · rintro ⟨j, rfl, hfirst, hlead⟩
        obtain ⟨rfl, rfl⟩ := (firstCode_cons_of_some hline).mp hfirst
        simp [hlead]

end CodeLines

def Mode.IsCode : Mode → Prop
  | .code => True
  | .word _ => True
  | _ => False

namespace Lexer

variable {l : Lexer}

theorem isCode_code {c : Char} (hslash : c ≠ '/') (hquote : isQuote c = false) (l : Lexer) :
    (l.code c).mode.IsCode := by
  rw [code, if_neg hslash, if_neg (by simp [hquote])]
  repeat' split
  all_goals exact ⟨⟩

theorem step_of_isCode (h : l.mode.IsCode) (c : Char) :
    (isWordPart c = true ∧ ∃ letters, l.step c = { l with mode := .word letters }) ∨
      ∃ l' : Lexer, l.step c = l'.code c := by
  cases hmode : l.mode with
  | code => exact .inr ⟨l, by simp only [step, hmode]⟩
  | word letters =>
    by_cases hc : isWordPart c = true
    · exact .inl ⟨hc, c :: letters, by simp only [step, hmode, if_pos hc]⟩
    · exact .inr ⟨l.wordDone letters, by simp only [step, hmode, if_neg hc]⟩
  | _ =>
    rw [hmode] at h
    exact h.elim

theorem isCode_step_of_isBlank {c : Char} (hc : Text.isBlank c = true) (h : l.mode.IsCode) :
    (l.step c).mode.IsCode := by
  rcases step_of_isCode h c with ⟨-, letters, hstep⟩ | ⟨l', hstep⟩
  · rw [hstep]
    exact ⟨⟩
  · rw [hstep]
    have hslash : c ≠ '/' := by
      rintro rfl
      revert hc
      decide
    have hquote : isQuote c = false := by
      by_contra hq
      simp only [isQuote, Bool.not_eq_false, Bool.or_eq_true, beq_iff_eq] at hq
      rcases hq with (rfl | rfl) | rfl <;> revert hc <;> decide
    exact isCode_code hslash hquote l'

theorem mode_step_slash (h : l.mode.IsCode) : (l.step '/').mode = .slash := by
  rcases step_of_isCode h '/' with ⟨hword, -⟩ | ⟨l', hstep⟩
  · exact absurd hword (by decide)
  · rw [hstep]
    rfl

theorem mode_step_newline (h : l.mode.IsCode) : (l.step '\n').mode = .code := by
  rcases step_of_isCode h '\n' with ⟨hword, -⟩ | ⟨l', hstep⟩
  · exact absurd hword (by decide)
  · rw [hstep]
    rfl

theorem mode_step_slash_slash (h : l.mode = .slash) : (l.step '/').mode = .lineComment := by
  simp only [step, h]
  rfl

theorem mode_step_lineComment {c : Char} (h : l.mode = .lineComment) :
    (l.step c).mode = if c = '\n' then .code else .lineComment := by
  simp only [step, h, advance]

theorem IsCode.ne_comment {mode : Mode} (h : mode.IsCode) (first : Nat) (text : List Char)
    (star : Bool) : mode ≠ .comment first text star := by
  rintro rfl
  exact h.elim

theorem quiet_remark {remark : List Char} (hbreak : '\n' ∉ remark) (h : l.mode = .lineComment) :
    l.Quiet (remark ++ ['\n']) ∧ (l.run (remark ++ ['\n'])).mode = .code := by
  obtain ⟨hremark, hstill⟩ := quiet_of_mode (p := fun m => m = .lineComment) (s := remark)
    (fun first text star hmode => by cases hmode)
    (fun l c hc hmode => by
      rw [mode_step_lineComment hmode, if_neg]
      rintro rfl
      exact hbreak hc) h
  refine ⟨hremark.append (quiet_singleton (by simp [hstill]) _), ?_⟩
  rw [run_append]
  exact (mode_step_lineComment hstill).trans (if_pos rfl)

theorem quiet_line {line : List Char} (hline : codeOn? line = none) (hbreak : '\n' ∉ line)
    (h : l.mode = .code) :
    l.Quiet (line ++ ['\n']) ∧ (l.run (line ++ ['\n'])).mode = .code := by
  obtain ⟨lead, rest, rfl, hlead, hrest⟩ := exists_lead_of_codeOn?_eq_none hline
  have hcode : l.mode.IsCode := by rw [h]; exact ⟨⟩
  obtain ⟨hquiet, hblank⟩ := quiet_of_mode (p := Mode.IsCode) (s := lead)
    (fun first text star hmode => hmode.elim)
    (fun l c hc => isCode_step_of_isBlank (hlead c hc)) hcode
  have hquietNext := fun c => quiet_singleton (IsCode.ne_comment hblank) c
  rw [List.append_assoc, run_append]
  rcases hrest with rfl | ⟨remark, rfl⟩
  · exact ⟨hquiet.append (hquietNext _), mode_step_newline hblank⟩
  · have hslash : ((l.run lead).step '/').mode = .slash := mode_step_slash hblank
    have hopen : (((l.run lead).step '/').step '/').mode = .lineComment :=
      mode_step_slash_slash hslash
    have hnoBreak : '\n' ∉ remark := fun hm => hbreak (by simp [hm])
    obtain ⟨hremark, hafter⟩ := quiet_remark hnoBreak hopen
    have hquietSlash := quiet_singleton (l := (l.run lead).step '/') (by simp [hslash]) '/'
    exact ⟨hquiet.append ((hquietNext _).append (hquietSlash.append hremark)), hafter⟩

end Lexer

end ApiPages.Source
