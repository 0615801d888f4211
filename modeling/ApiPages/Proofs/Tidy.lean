import ApiPages.Page.Tidy
import ApiPages.Proofs.Text.Lines

/-!
The last pass over a page, line by line: what it does behind any lines, and which blocks of lines it
leaves alone wherever they stand.
-/
namespace ApiPages.Tidy

variable {fenced indented : Bool} {last : Option (List Char)} {line : List Char}
  {lines more rest : List (List Char)}

theorem isFence_eq_false (h : Text.isBlankLine line = true) : isFence line = false := by
  have hnil : Text.trimStart line = [] := List.dropWhile_eq_nil_iff.mpr (List.all_eq_true.mp h)
  rw [isFence, hnil]
  rfl

theorem nextIndented_cons_of_blank (h : Text.isBlankLine line = true) :
    nextIndented (line :: more) = nextIndented more := by
  rw [nextIndented, List.dropWhile_cons_of_pos h]
  rfl

theorem nextIndented_cons_of_not_blank (h : Text.isBlankLine line = false) :
    nextIndented (line :: more) = isIndented line := by
  rw [nextIndented, List.dropWhile_cons_of_neg (by simp [h])]
  rfl

theorem nextIndented_append (h : nextIndented more = nextIndented rest) (lines : List (List Char)) :
    nextIndented (lines ++ more) = nextIndented (lines ++ rest) := by
  induction lines with
  | nil => exact h
  | cons line lines ih =>
    cases hblank : Text.isBlankLine line with
    | true => rw [List.cons_append, List.cons_append, nextIndented_cons_of_blank hblank,
        nextIndented_cons_of_blank hblank, ih]
    | false => rw [List.cons_append, List.cons_append, nextIndented_cons_of_not_blank hblank,
        nextIndented_cons_of_not_blank hblank]

theorem keep_of_not_blank (h : Text.isBlankLine line = false) :
    keep fenced indented last (line :: more) =
      line :: keep (fenced != isFence line) (isIndented line) (some line) more := by
  rw [keep]
  simp [h]

theorem keep_of_fenced (h : (fenced != isFence line) = true) :
    keep fenced indented last (line :: more) =
      line :: keep true (isIndented line) (some line) more := by
  rw [keep]
  simp [h]

theorem keep_of_blank (h : Text.isBlankLine line = true) :
    keep false indented last (line :: more) =
      if !(indented && nextIndented more) && last.all (· == []) then keep false indented last more
      else [] :: keep false indented (some []) more := by
  rw [keep, isFence_eq_false h]
  simp only [h, Bool.false_bne, Bool.not_false, Bool.and_self, if_true]

def fencedAfter (fenced : Bool) (lines : List (List Char)) : Bool :=
  lines.foldl (fun fenced line => fenced != isFence line) fenced

theorem fencedAfter_cons (fenced : Bool) (line : List Char) (lines : List (List Char)) :
    fencedAfter fenced (line :: lines) = fencedAfter (fenced != isFence line) lines := rfl

theorem fencedAfter_append (fenced : Bool) (lines more : List (List Char)) :
    fencedAfter fenced (lines ++ more) = fencedAfter (fencedAfter fenced lines) more :=
  List.foldl_append

theorem fencedAfter_eq (fenced : Bool) (lines : List (List Char)) :
    fencedAfter fenced lines = (fenced != decide (lines.countP isFence % 2 = 1)) := by
  induction lines generalizing fenced with
  | nil => simp [fencedAfter]
  | cons line lines ih =>
    rw [fencedAfter_cons, ih, List.countP_cons]
    cases hline : isFence line with
    | false => simp
    | true =>
      have hparity : decide ((lines.countP isFence + 1) % 2 = 1) =
          !decide (lines.countP isFence % 2 = 1) := by
        rw [← decide_not, decide_eq_decide]
        omega
      simp only [if_true, hparity]
      cases fenced <;> simp

theorem keep_append (h : nextIndented more = nextIndented rest) (fenced indented : Bool)
    (last : Option (List Char)) (lines : List (List Char)) :
    ∃ kept indented' last', last' = kept.getLast?.or last ∧
      keep fenced indented last (lines ++ more) =
        kept ++ keep (fencedAfter fenced lines) indented' last' more ∧
      keep fenced indented last (lines ++ rest) =
        kept ++ keep (fencedAfter fenced lines) indented' last' rest := by
  induction lines generalizing fenced indented last with
  | nil => exact ⟨[], indented, last, rfl, rfl, rfl⟩
  | cons line lines ih =>
    have hnext := nextIndented_append h lines
    simp only [List.cons_append, keep, fencedAfter_cons, hnext]
    -- One line is kept as it is, as an empty one, or not at all.
    by_cases hblank : (Text.isBlankLine line && !(fenced != isFence line)) = true
    · rw [if_pos hblank, if_pos hblank]
      by_cases hdrop :
          (!(indented && nextIndented (lines ++ rest)) && last.all (· == [])) = true
      · rw [if_pos hdrop, if_pos hdrop]
        exact ih _ _ _
      · rw [if_neg hdrop, if_neg hdrop]
        obtain ⟨kept, indented', last', hlast, hmore, hrest⟩ :=
          ih (fenced != isFence line) indented (some [])
        refine ⟨[] :: kept, indented', last', ?_, by rw [hmore]; rfl, by rw [hrest]; rfl⟩
        rw [hlast, List.getLast?_cons]
        cases kept.getLast? <;> rfl
    · rw [if_neg hblank, if_neg hblank]
      obtain ⟨kept, indented', last', hlast, hmore, hrest⟩ :=
        ih (fenced != isFence line) (isIndented line) (some line)
      refine ⟨line :: kept, indented', last', ?_, by rw [hmore]; rfl, by rw [hrest]; rfl⟩
      rw [hlast, List.getLast?_cons]
      cases kept.getLast? <;> rfl

theorem exists_keep_append (fenced indented : Bool) (last : Option (List Char))
    (lines more : List (List Char)) :
    ∃ kept indented' last', last' = kept.getLast?.or last ∧
      keep fenced indented last (lines ++ more) =
        kept ++ keep (fencedAfter fenced lines) indented' last' more := by
  obtain ⟨kept, indented', last', hlast, hkeep, -⟩ :=
    keep_append (rfl : nextIndented more = nextIndented more) fenced indented last lines
  exact ⟨kept, indented', last', hlast, hkeep⟩

theorem keep_leading (h : nextIndented lines = false) (hlast : last.all (· == []) = true) :
    keep false indented last lines = keep false false none lines := by
  induction lines with
  | nil => rfl
  | cons line lines ih =>
    cases hblank : Text.isBlankLine line with
    | true =>
      rw [nextIndented_cons_of_blank hblank] at h
      rw [keep_of_blank hblank, keep_of_blank hblank, h, hlast]
      simpa using ih h
    | false => rw [keep_of_not_blank hblank, keep_of_not_blank hblank]

theorem keep_top_blank (h : Text.isBlankLine line = true) :
    keep false false none (line :: more) = keep false false none more := by
  rw [keep_of_blank h]
  rfl

theorem mem_keep (h : line ∈ keep fenced indented last lines) : line ∈ lines ∨ line = [] := by
  induction lines generalizing fenced indented last with
  | nil => exact .inl h
  | cons next lines ih =>
    rw [keep] at h
    split at h
    · split at h
      · exact (ih h).imp (List.mem_cons_of_mem next) id
      · rcases List.mem_cons.mp h with rfl | h
        · exact .inr rfl
        · exact (ih h).imp (List.mem_cons_of_mem next) id
    · rcases List.mem_cons.mp h with rfl | h
      · exact .inl List.mem_cons_self
      · exact (ih h).imp (List.mem_cons_of_mem next) id

theorem length_keep_le (fenced indented : Bool) (last : Option (List Char))
    (lines : List (List Char)) :
    (Text.unlines (keep fenced indented last lines)).length ≤ (Text.unlines lines).length := by
  induction lines generalizing fenced indented last with
  | nil => exact Nat.le_refl _
  | cons line lines ih =>
    rw [keep, Text.unlines_cons]
    split
    · split
      · have := ih (fenced != isFence line) indented last
        simp only [List.length_append, List.length_cons]
        omega
      · have := ih (fenced != isFence line) indented (some [])
        simp only [Text.unlines_cons, List.length_append, List.length_cons, List.length_nil]
        omega
    · have := ih (fenced != isFence line) (isIndented line) (some line)
      simp only [Text.unlines_cons, List.length_append, List.length_cons]
      omega

def trimmed (lines : List (List Char)) : List (List Char) := lines.rdropWhile (· == [])

theorem tidy_eq (text : List Char) :
    tidy text = Text.unlines (trimmed (keep false false none (Text.lines text))) := by
  have hlines : tidyLines (Text.lines text) = trimmed (keep false false none (Text.lines text)) := rfl
  rw [tidy, hlines]
  cases trimmed (keep false false none (Text.lines text)) with
  | nil => rfl
  | cons line lines => rw [Text.unlines_eq_join (List.cons_ne_nil line lines)]

end ApiPages.Tidy
