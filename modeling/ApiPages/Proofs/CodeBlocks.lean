import ApiPages.Proofs.Blocks
import ApiPages.Template.Filter

/-!
The blocks that example code is laid out as. Main statement: they stand on a page as they were made
exactly if the code closes the fences that its own lines open, and all code without such lines does.
-/
namespace ApiPages.Tidy

open Template

variable {lines : List (List Char)} {line : List Char}

theorem keep_in_fence (h : ∀ line ∈ lines, isFence line = false) (indented : Bool)
    (last : Option (List Char)) :
    keep true indented last (lines ++ [Filter.fence]) = lines ++ [Filter.fence] := by
  induction lines generalizing indented last with
  | nil => rfl
  | cons line lines ih =>
    rw [List.forall_mem_cons] at h
    rw [List.cons_append, keep_of_fenced (by rw [h.1]; rfl), ih h.2]

theorem isFence_fence (lang : List Char) : isFence (Filter.fence ++ lang) = true := rfl

theorem isBlankLine_fence (lang : List Char) : Text.isBlankLine (Filter.fence ++ lang) = false := rfl

theorem closed_fenced {lang : List Char} (h : ∀ line ∈ lines, isFence line = false) :
    Closed ((Filter.fence ++ lang) :: (lines ++ [Filter.fence])) := by
  refine ⟨?_, ?_, List.cons_ne_nil _ _, ?_⟩
  · rw [keep_of_not_blank (isBlankLine_fence lang), isFence_fence]
    exact congrArg _ (keep_in_fence h _ _)
  · rw [fencedAfter_cons, isFence_fence, fencedAfter_append, fencedAfter_of_clear h]
    rfl
  · rw [List.getLast?_cons, List.getLast?_concat]
    simp [Filter.fence]

theorem isFence_indentLine (line : List Char) : isFence (Filter.indentLine line) = isFence line := by
  rw [Filter.indentLine]
  cases hblank : Text.isBlankLine line with
  | true =>
    rw [isFence_eq_false hblank]
    rfl
  | false => rfl

theorem isBlankLine_indentLine (line : List Char) :
    Text.isBlankLine (Filter.indentLine line) = Text.isBlankLine line := by
  rw [Filter.indentLine]
  cases hblank : Text.isBlankLine line with
  | true => rfl
  | false =>
    rw [if_neg Bool.false_ne_true, ← hblank]
    show Text.isBlankLine ([' ', ' ', ' ', ' '] ++ line) = Text.isBlankLine line
    rw [Text.isBlankLine, List.all_append]
    rfl

theorem mem_of_mem_indentLine {c : Char} (hc : c ≠ ' ') (h : c ∈ Filter.indentLine line) :
    c ∈ line := by
  rw [Filter.indentLine] at h
  split at h
  · cases h
  · simpa [hc] using h

def IsSetOff (line : List Char) : Prop :=
  line = [] ∨ Text.isBlankLine line = false ∧ isIndented line = true

theorem isSetOff_indentLine (line : List Char) : IsSetOff (Filter.indentLine line) := by
  rw [IsSetOff, isBlankLine_indentLine, Filter.indentLine]
  cases hblank : Text.isBlankLine line with
  | true => exact .inl rfl
  | false => exact .inr ⟨rfl, rfl⟩

theorem nextIndented_of_isSetOff (h : ∀ line ∈ lines, IsSetOff line)
    (hfilled : ∃ line ∈ lines, Text.isBlankLine line = false) : nextIndented lines = true := by
  induction lines with
  | nil => obtain ⟨line, hmem, -⟩ := hfilled; cases hmem
  | cons line lines ih =>
    rw [List.forall_mem_cons] at h
    rcases h.1 with rfl | ⟨hblank, hindented⟩
    · obtain ⟨other, hmem, hother⟩ := hfilled
      rcases List.mem_cons.mp hmem with rfl | hmem
      · cases hother
      · rw [nextIndented_cons_of_blank rfl]
        exact ih h.2 ⟨other, hmem, hother⟩
    · rw [nextIndented_cons_of_not_blank hblank, hindented]

theorem keep_of_isSetOff (h : ∀ line ∈ lines, IsSetOff line ∧ isFence line = false) {final : List Char}
    (hfinal : Text.isBlankLine final = false) (hfinal' : IsSetOff final ∧ isFence final = false)
    (last : Option (List Char)) :
    keep false true last (lines ++ [final]) = lines ++ [final] := by
  induction lines generalizing last with
  | nil => exact keep_of_not_blank hfinal
  | cons line lines ih =>
    rw [List.forall_mem_cons] at h
    rw [List.cons_append]
    rcases h.1.1 with rfl | ⟨hblank, hindented⟩
    · have hnext : nextIndented (lines ++ [final]) = true := by
        refine nextIndented_of_isSetOff (fun other hmem => ?_) ⟨final, by simp, hfinal⟩
        rcases List.mem_append.mp hmem with hmem | hmem
        · exact (h.2 other hmem).1
        · cases List.mem_singleton.mp hmem
          exact hfinal'.1
      rw [keep_of_blank rfl, hnext]
      simp only [Bool.and_self, Bool.not_true, Bool.false_and, Bool.false_eq_true, if_false]
      rw [ih h.2]
    · rw [keep_of_not_blank hblank, h.1.2, hindented, Bool.false_bne, ih h.2]

theorem closed_setOff {first last : List Char} {middle : List (List Char)}
    (h : ∀ line ∈ lines, isFence line = false) (hfirst : lines.head? = some first)
    (hlast : lines = middle ++ [last]) (hfirstFilled : Text.isBlankLine first = false)
    (hlastFilled : Text.isBlankLine last = false) : Closed (lines.map Filter.indentLine) := by
  have hplain : ∀ line ∈ lines.map Filter.indentLine, IsSetOff line ∧ isFence line = false := by
    intro line hline
    obtain ⟨code, hcode, rfl⟩ := List.mem_map.mp hline
    exact ⟨isSetOff_indentLine code, (isFence_indentLine code).trans (h code hcode)⟩
  rw [← isBlankLine_indentLine] at hfirstFilled hlastFilled
  subst hlast
  refine ⟨?_, fencedAfter_of_clear (fun line hline => (hplain line hline).2) _, by simp, ?_⟩
  · cases middle with
    | nil =>
      exact keep_of_not_blank hlastFilled
    | cons line middle =>
      cases hfirst
      rw [List.cons_append, List.map_cons, List.map_append] at hplain ⊢
      rw [List.forall_mem_cons] at hplain
      have hindented : isIndented (Filter.indentLine first) = true := by
        rcases hplain.1.1 with hnil | hindented
        · rw [hnil] at hfirstFilled
          cases hfirstFilled
        · exact hindented.2
      rw [keep_of_not_blank hfirstFilled, hplain.1.2, hindented, Bool.false_bne]
      congr 1
      exact keep_of_isSetOff (fun line hline => hplain.2 line (List.mem_append_left _ hline))
        hlastFilled (hplain.2 _ (by simp)) _
  · rw [List.map_append, List.map_singleton, List.getLast?_concat]
    intro hnil
    rw [Option.some.inj hnil] at hlastFilled
    cases hlastFilled

section Code

variable {gfm : Bool} {lang code : String}

/-- Code of an example as it is read: without carriage returns and without blanks at its end. What is
set off by spaces also begins in its first line. -/
structure IsCode (gfm : Bool) (code : List Char) : Prop where
  noReturn : '\r' ∉ code
  ends : Text.trimEnd code = code
  starts : gfm = false → (Text.lines code).head?.all Text.isBlankLine = false

theorem toList_codeBlock (lang code : String) :
    (Filter.codeBlock true lang code).toList =
        Filter.fence ++ lang.toList ++ '\n' :: (code.toList ++ '\n' :: Filter.fence) ∧
      (Filter.codeBlock false lang code).toList =
        '\n' :: Text.join ['\n'] ((Text.lines code.toList).map Filter.indentLine) := by
  constructor
  · simp [Filter.codeBlock]
  · simp [Filter.codeBlock]

theorem closed_codeBlock (hlang : '\n' ∉ lang.toList) (hcode : IsCode gfm code.toList)
    (hclear : ∀ line ∈ Text.lines code.toList, isFence line = false) :
    Closed (Text.split '\n' (body (Filter.codeBlock gfm lang code).toList)) := by
  cases gfm with
  | true =>
    have hclear' : ∀ line ∈ Text.split '\n' code.toList, isFence line = false := by
      rcases Text.split_eq_lines hcode.noReturn with h | h
      · rw [h]
        exact hclear
      · rw [h, List.forall_mem_append]
        exact ⟨hclear, fun line hline => List.mem_singleton.mp hline ▸ rfl⟩
    have hfirst : '\n' ∉ Filter.fence ++ lang.toList := by
      rw [List.mem_append, not_or]
      exact ⟨by decide, hlang⟩
    have hfence : Text.split '\n' Filter.fence = [Filter.fence] := rfl
    rw [(toList_codeBlock lang code).1]
    show Closed (Text.split '\n'
      (Filter.fence ++ lang.toList ++ '\n' :: (code.toList ++ '\n' :: Filter.fence)))
    rw [Text.split_append_cons, Text.split_append_cons, Text.split_of_not_mem hfirst, hfence]
    exact closed_fenced hclear'
  | false =>
    obtain ⟨first, hfirst, hfirstFilled⟩ :
        ∃ first, (Text.lines code.toList).head? = some first ∧ Text.isBlankLine first = false := by
      have hstarts := hcode.starts rfl
      cases hhead : (Text.lines code.toList).head? with
      | none =>
        rw [hhead] at hstarts
        cases hstarts
      | some first =>
        rw [hhead] at hstarts
        exact ⟨first, rfl, hstarts⟩
    have hne : code.toList ≠ [] := by
      intro hnil
      rw [hnil] at hfirst
      cases hfirst
    obtain ⟨middle, last, hpieces, hlastFilled⟩ := Text.exists_last_line hcode.ends hne
    have hlines : Text.split '\n' code.toList = Text.lines code.toList := by
      refine (Text.split_eq_lines hcode.noReturn).resolve_right fun hempty => ?_
      rw [hpieces] at hempty
      have hnil : last = [] := List.singleton_inj.mp (List.append_inj' hempty rfl).2
      rw [hnil] at hlastFilled
      cases hlastFilled
    have hjoin : Text.split '\n'
        (Text.join ['\n'] ((Text.lines code.toList).map Filter.indentLine)) =
          (Text.lines code.toList).map Filter.indentLine := by
      apply Text.split_join
      · intro line hline hnewline
        obtain ⟨piece, hpiece, rfl⟩ := List.mem_map.mp hline
        rw [← hlines] at hpiece
        exact Text.not_mem_of_mem_split hpiece (mem_of_mem_indentLine (by decide) hnewline)
      · rw [← hlines, hpieces]
        simp
    rw [(toList_codeBlock lang code).2]
    show Closed (Text.split '\n'
      (Text.join ['\n'] ((Text.lines code.toList).map Filter.indentLine)))
    rw [hjoin]
    exact closed_setOff hclear hfirst (hlines ▸ hpieces) hfirstFilled hlastFilled

theorem return_not_mem_codeBlock (hlang : '\r' ∉ lang.toList) (hcode : '\r' ∉ code.toList) :
    '\r' ∉ (Filter.codeBlock gfm lang code).toList := by
  cases gfm with
  | true =>
    rw [(toList_codeBlock lang code).1]
    simp only [List.mem_append, List.mem_cons, not_or]
    exact ⟨⟨by decide, hlang⟩, by decide, hcode, by decide, by decide⟩
  | false =>
    rw [(toList_codeBlock lang code).2, List.mem_cons, not_or]
    refine ⟨by decide, fun hmem => ?_⟩
    rcases Text.eq_or_mem_of_mem_join hmem with he | ⟨line, hline, hmem⟩
    · exact absurd he (by decide)
    · obtain ⟨piece, hpiece, rfl⟩ := List.mem_map.mp hline
      have hmem := mem_of_mem_indentLine (by decide) hmem
      rcases Text.split_eq_lines hcode with h | h
      · exact hcode (Text.subset_of_mem_split (h ▸ hpiece) hmem)
      · exact hcode (Text.subset_of_mem_split (h ▸ List.mem_append_left _ hpiece) hmem)

/-- The block of an example stands as it was made wherever it is put exactly if it closes its fences
and is left alone by itself, which it does if no line of the code reads like a fence. What follows it
is then laid out as behind a paragraph. -/
theorem code_blocks_stand_iff (hlang : '\r' ∉ lang.toList) (hcode : '\r' ∉ code.toList) :
    ((∀ before after, Apart before after →
        Stands before (Filter.codeBlock gfm lang code).toList after) ↔
      Even (fences (Filter.codeBlock gfm lang code).toList) ∧
        tidy ((Filter.codeBlock gfm lang code).toList ++ ['\n']) =
          body (Filter.codeBlock gfm lang code).toList ++ ['\n']) ∧
    ((∀ line ∈ Text.lines code.toList, isFence line = false) → IsCode gfm code.toList →
      '\n' ∉ lang.toList → ∀ before after, Apart before after →
        Stands before (Filter.codeBlock gfm lang code).toList after) ∧
    ∀ paragraph, IsParagraph paragraph → ∀ before after, Apart before after →
      Stands before paragraph after := by
  have hreturn : '\r' ∉ (Filter.codeBlock gfm lang code).toList :=
    return_not_mem_codeBlock hlang hcode
  refine ⟨stands_iff hreturn, fun hclear hcode hlang before after hapart => ?_,
    fun paragraph hparagraph before after hapart => ?_⟩
  · exact stands_of_closed hreturn (closed_codeBlock hlang hcode hclear) hapart
  · exact stands_of_closed hparagraph.1 hparagraph.closed hapart

end Code

def pausing : String := "run ()\n\n\nstop ()"

theorem code_blocks_stand_iff_pausing :
    Stands "Text.".toList (Filter.codeBlock true "js" pausing).toList "More.".toList ∧
      Stands "Text.".toList (Filter.codeBlock false "js" pausing).toList "More.".toList := by
  have hlang : '\r' ∉ "js".toList ∧ '\n' ∉ "js".toList := by decide
  have hclear : ∀ line ∈ Text.lines pausing.toList, isFence line = false := by decide
  have hapart : Apart "Text.".toList "More.".toList := ⟨by decide, by decide⟩
  have hcode (gfm : Bool) : IsCode gfm pausing.toList :=
    ⟨by decide, by decide, fun _ => by decide⟩
  constructor
  · exact (code_blocks_stand_iff hlang.1 (hcode true).noReturn).2.1 hclear (hcode true) hlang.2 _ _
      hapart
  · exact (code_blocks_stand_iff hlang.1 (hcode false).noReturn).2.1 hclear (hcode false) hlang.2 _ _
      hapart

def backticks : String := "\x60\x60\x60"

theorem fence_line_swallows_page :
    IsCode false backticks.toList ∧ Apart "a".toList "b\n\n\nc".toList ∧
      tidy (between "a".toList (Filter.codeBlock false "js" backticks).toList "b\n\n\nc".toList) =
        "a\n\n    \x60\x60\x60\n\nb\n\n\nc\n".toList ∧
      tidy (between "a".toList "p".toList "b\n\n\nc".toList) = "a\np\n\nb\n\nc\n".toList ∧
      ¬ Stands "a".toList (Filter.codeBlock false "js" backticks).toList "b\n\n\nc".toList := by
  refine ⟨⟨by decide, by decide, fun _ => by decide⟩, ⟨by decide, by decide⟩, by decide, by decide, ?_⟩
  rintro ⟨top, htidy, -⟩
  have hends : '\n' :: behind "b\n\n\nc".toList <:+
      tidy (between "a".toList (Filter.codeBlock false "js" backticks).toList "b\n\n\nc".toList) :=
    ⟨top, htidy.symm⟩
  exact absurd hends (by decide)

end ApiPages.Tidy
