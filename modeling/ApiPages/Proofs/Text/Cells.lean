import Mathlib.Data.List.Chain
import ApiPages.Proofs.Text.Cutting

/-!
Texts in the cells of a table. A row stands on one line and its cells end at bars, so a text stays in
its cell exactly if it has no line break and every bar in it stands behind a backslash. A piece of
markup that stays in a cell and does not end with a backslash can be put around any text without a
change to that.
-/
namespace ApiPages.Text

/-- A text that a row holds in one cell. -/
structure FitsCell (cs : List Char) : Prop where
  unbroken : ∀ c ∈ cs, c ≠ '\n' ∧ c ≠ '\r'
  escaped : ∀ before after, cs = before ++ '|' :: after → before.getLast? = some '\\'

def MayFollow (a b : Char) : Prop := (b ≠ '\n' ∧ b ≠ '\r') ∧ (b = '|' → a = '\\')

instance : DecidableRel MayFollow := fun a b =>
  inferInstanceAs (Decidable ((b ≠ '\n' ∧ b ≠ '\r') ∧ (b = '|' → a = '\\')))

theorem isChain_mayFollow_iff {a : Char} {cs : List Char} :
    (a :: cs).IsChain MayFollow ↔ (∀ c ∈ cs, c ≠ '\n' ∧ c ≠ '\r') ∧
      ∀ before after, cs = before ++ '|' :: after → before.getLast?.getD a = '\\' := by
  induction cs generalizing a with
  | nil => simp
  | cons c cs ih =>
    rw [List.isChain_cons_cons, ih, MayFollow, List.forall_mem_cons]
    constructor
    · rintro ⟨⟨hc, hbar⟩, hcs, hmore⟩
      refine ⟨⟨hc, hcs⟩, fun before after h => ?_⟩
      cases before with
      | nil => exact hbar (List.cons.inj h).1
      | cons d before =>
        rw [List.cons_append, List.cons.injEq] at h
        obtain ⟨rfl, h⟩ := h
        rw [List.getLast?_cons]
        exact hmore before after h
    · rintro ⟨⟨hc, hcs⟩, hbars⟩
      refine ⟨⟨hc, fun hbar => hbars [] cs (by rw [hbar]; rfl)⟩, hcs, fun before after h => ?_⟩
      have := hbars (c :: before) after (by rw [h]; rfl)
      rwa [List.getLast?_cons] at this

theorem fitsCell_iff_isChain {cs : List Char} :
    FitsCell cs ↔ (' ' :: cs).IsChain MayFollow := by
  have hlast : ∀ before : List Char,
      before.getLast?.getD ' ' = '\\' ↔ before.getLast? = some '\\' := by
    intro before
    cases before.getLast? <;> simp
  simp only [isChain_mayFollow_iff, hlast]
  exact ⟨fun h => ⟨h.unbroken, h.escaped⟩, fun h => ⟨h.1, h.2⟩⟩

instance (cs : List Char) : Decidable (FitsCell cs) := decidable_of_iff _ fitsCell_iff_isChain.symm

@[simp] theorem fitsCell_nil : FitsCell [] := by simp [fitsCell_iff_isChain]

def EndsPlain (cs : List Char) : Prop := ∃ c ∈ cs.getLast?, c ≠ '\\'

theorem endsPlain_iff {cs : List Char} : EndsPlain cs ↔ cs.getLast?.any (· ≠ '\\') = true := by
  cases h : cs.getLast? <;> simp [EndsPlain, h]

instance (cs : List Char) : Decidable (EndsPlain cs) := decidable_of_iff _ endsPlain_iff.symm

theorem fitsCell_append {a b : List Char} :
    FitsCell (a ++ b) ↔ FitsCell a ∧ b.IsChain MayFollow ∧
      ∀ c ∈ b.head?, MayFollow (a.getLast?.getD ' ') c := by
  rw [fitsCell_iff_isChain, fitsCell_iff_isChain, ← List.cons_append, List.isChain_append,
    List.getLast?_cons]
  simp

theorem EndsPlain.fitsCell_append {a b : List Char} (h : EndsPlain a) :
    FitsCell (a ++ b) ↔ FitsCell a ∧ FitsCell b := by
  obtain ⟨d, hd, hne⟩ := h
  have hend : ∀ c, MayFollow (a.getLast?.getD ' ') c ↔ MayFollow ' ' c := by
    simp [MayFollow, Option.mem_def.mp hd, hne]
  rw [Text.fitsCell_append, @fitsCell_iff_isChain b, List.isChain_cons]
  simp only [hend]
  rw [and_comm (a := b.IsChain MayFollow)]

structure IsMarkup (cs : List Char) : Prop where
  fits : FitsCell cs
  endsPlain : EndsPlain cs

theorem isMarkup_iff {cs : List Char} : IsMarkup cs ↔ FitsCell cs ∧ EndsPlain cs :=
  ⟨fun h => ⟨h.fits, h.endsPlain⟩, fun h => ⟨h.1, h.2⟩⟩

instance (cs : List Char) : Decidable (IsMarkup cs) := decidable_of_iff _ isMarkup_iff.symm

theorem IsMarkup.append_left_iff {a b : List Char} (h : IsMarkup a) :
    FitsCell (a ++ b) ↔ FitsCell b := by
  rw [h.endsPlain.fitsCell_append]
  exact and_iff_right h.fits

theorem IsMarkup.append_right_iff {a b : List Char} (h : IsMarkup b) :
    FitsCell (a ++ b) ↔ FitsCell a := by
  obtain ⟨hhead, hchain⟩ := List.isChain_cons.mp (fitsCell_iff_isChain.mp h.fits)
  have hbar : ∀ c ∈ b.head?, MayFollow (a.getLast?.getD ' ') c := by
    intro c hc
    obtain ⟨hline, hescaped⟩ := hhead c hc
    exact ⟨hline, fun h => absurd (hescaped h) (by decide)⟩
  rw [fitsCell_append]
  exact and_iff_left ⟨hchain, hbar⟩

theorem IsMarkup.between_iff {a sep b : List Char} (h : IsMarkup sep) :
    FitsCell (a ++ sep ++ b) ↔ FitsCell a ∧ FitsCell b := by
  obtain ⟨c, hc, hne⟩ := h.endsPlain
  have hend : EndsPlain (a ++ sep) := ⟨c, by simp [Option.mem_def.mp hc], hne⟩
  rw [hend.fitsCell_append, h.append_right_iff]

theorem IsMarkup.intercalate_iff {sep : List Char} (h : IsMarkup sep) (pieces : List (List Char)) :
    FitsCell (sep.intercalate pieces) ↔ ∀ piece ∈ pieces, FitsCell piece := by
  induction pieces with
  | nil => simp
  | cons piece pieces ih =>
    cases pieces with
    | nil => simp
    | cons next pieces =>
      rw [List.intercalate_cons_cons, h.between_iff, ih, List.forall_mem_cons (a := piece)]

theorem fitsCell_flatMap_iff {f : Char → List Char}
    (hf : ∀ c, f c = [c] ∨ IsMarkup (f c) ∧ IsMarkup [c]) (before cs : List Char) :
    FitsCell (before ++ cs.flatMap f) ↔ FitsCell (before ++ cs) := by
  induction cs generalizing before with
  | nil => rfl
  | cons c cs ih =>
    rw [List.flatMap_cons, List.append_cons before c cs, ← List.append_assoc]
    rcases hf c with hsame | ⟨hnew, hold⟩
    · rw [hsame, ih]
    · rw [hnew.between_iff, hold.between_iff]
      exact and_congr_right fun _ => ih []

theorem isChain_escaped {cs : List Char} (h : ∀ c ∈ cs, c ≠ '\n' ∧ c ≠ '\r') (a : Char) :
    (a :: replace ['|'] ['\\', '|'] cs).IsChain MayFollow := by
  rw [replace_singleton]
  induction cs generalizing a with
  | nil => simp
  | cons c cs ih =>
    obtain ⟨hc, hcs⟩ := List.forall_mem_cons.mp h
    rw [List.flatMap_cons]
    by_cases hbar : c = '|'
    · rw [if_pos hbar]
      exact .cons_cons (by simp [MayFollow]) (.cons_cons (by simp [MayFollow]) (ih hcs '|'))
    · rw [if_neg hbar]
      exact .cons_cons ⟨hc, fun h => absurd h hbar⟩ (ih hcs c)

theorem fitsCell_escaped_words (cs : List Char) :
    FitsCell (replace ['|'] ['\\', '|'] (join [' '] (words cs))) := by
  refine fitsCell_iff_isChain.mpr (isChain_escaped (fun c hc => ?_) ' ')
  have hchar : c = ' ' ∨ isBlank c = false := by
    rcases eq_or_mem_of_mem_join hc with h | ⟨word, hword, h⟩
    · exact .inl h
    · exact .inr (isBlank_of_mem_words hword c h)
  constructor <;> rintro rfl <;> revert hchar <;> decide

end ApiPages.Text
