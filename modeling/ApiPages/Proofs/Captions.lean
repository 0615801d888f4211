import ApiPages.Catalogue
import ApiPages.Proofs.Text.Cutting

/-!
Examples with a caption. The caption is an element before the code; it is taken off, and the blanks
behind it go with it. Main statement: a captioned example has its caption, and the code has the text
that it has alone exactly if it is not indented.
-/
namespace ApiPages.Example

def captioned (caption code : List Char) : List Char :=
  "<caption>".toList ++ (caption ++ ("</caption>".toList ++ '\n' :: code))

def BeginsCaption (code : List Char) : Prop :=
  ∃ caption rest, Text.trimStart code =
    "<caption>".toList ++ (caption ++ ("</caption>".toList ++ rest))

variable {caption code : List Char}

theorem caption?_captioned (h : ¬ "</caption>".toList <:+: caption) :
    caption? (captioned caption code) = some (caption, '\n' :: code) := by
  have hopen : Text.after? "<caption>".toList (Text.trimStart (captioned caption code)) =
      some (caption ++ ("</caption>".toList ++ '\n' :: code)) := Text.after?_eq_some_iff.mpr rfl
  rw [caption?, hopen, Option.bind_some]
  exact Text.splitAt?_append (by decide) h ('\n' :: code)

theorem caption?_eq_none (h : ¬ BeginsCaption code) : caption? code = none := by
  rw [Option.eq_none_iff_forall_ne_some]
  rintro ⟨title, rest⟩ hfound
  obtain ⟨inner, hinner, hsplit⟩ := Option.bind_eq_some_iff.mp hfound
  rw [Text.after?_eq_some_iff] at hinner
  have hcut := Text.eq_append_of_splitAt? hsplit
  exact h ⟨title, rest, by rw [hinner, hcut, List.append_assoc]⟩

theorem ofText_captioned (hne : caption ≠ []) (htrim : Text.trim caption = caption)
    (hclose : ¬ "</caption>".toList <:+: caption) :
    ofText (captioned caption code) =
      { caption := some (String.ofList caption), code := String.ofList (Text.trim code) } := by
  have htext : TagValue.text? caption = some (String.ofList caption) := by
    rw [TagValue.text?, Text.nonEmpty?_eq_self hne htrim, Option.map_some]
  have hcode : Text.trimEnd (Text.trimStart ('\n' :: code)) = Text.trim code := by
    rw [Text.trimStart, List.dropWhile_cons_of_pos rfl]
    rfl
  simp only [ofText, caption?_captioned hclose, htext, hcode]

/-- A caption is read as it is, and leaves the code as it is alone exactly if that is not indented. -/
theorem ofText_captioned_iff (hne : caption ≠ []) (htrim : Text.trim caption = caption)
    (hclose : ¬ "</caption>".toList <:+: caption) (hcode : Text.isBlankLine code = false)
    (hbare : ¬ BeginsCaption code) :
    (ofText code).caption = none ∧
      (ofText (captioned caption code)).caption = some (String.ofList caption) ∧
      ((ofText (captioned caption code)).code = (ofText code).code ↔
        ∀ c ∈ code.head?, Text.isBlank c = false) := by
  have hplain : ofText code = { code := String.ofList (Text.trimEnd code) } := by
    simp only [ofText, caption?_eq_none hbare]
  rw [ofText_captioned hne htrim hclose, hplain]
  refine ⟨rfl, rfl, ?_⟩
  rw [String.ofList_inj]
  exact Text.trim_eq_trimEnd_iff hcode

theorem not_beginsCaption {c : Char} {rest : List Char} (htext : Text.trimStart code = c :: rest)
    (hc : c ≠ '<') : ¬ BeginsCaption code := by
  rintro ⟨title, behind, heq⟩
  rw [htext] at heq
  exact hc (List.cons.inj heq).1

def chain : List Char := "start()\n  .then(log) // <caption>\n\n  .end()\n".toList

theorem ofText_captioned_iff_chain :
    ¬ "</caption>".toList <:+: "A <b>chain</b>".toList ∧ ¬ BeginsCaption chain ∧
      ((ofText (captioned "A <b>chain</b>".toList chain)).code = (ofText chain).code ↔
        ∀ c ∈ chain.head?, Text.isBlank c = false) := by
  have hclose : ¬ "</caption>".toList <:+: "A <b>chain</b>".toList := by decide +kernel
  have hbare : ¬ BeginsCaption chain := not_beginsCaption (c := 's') rfl (by decide)
  exact ⟨hclose, hbare,
    (ofText_captioned_iff (by decide) (by decide) hclose (by decide +kernel) hbare).2.2⟩

def links : List Char := "  .then(log)\n  .end()".toList

theorem captioned_links_lose_indent :
    ¬ "</caption>".toList <:+: "Links".toList ∧ ¬ BeginsCaption links ∧
      (ofText links).code = "  .then(log)\n  .end()" ∧
      (ofText (captioned "Links".toList links)).code = ".then(log)\n  .end()" :=
  ⟨by decide +kernel, not_beginsCaption (c := '.') rfl (by decide), by decide +kernel,
    by decide +kernel⟩

end ApiPages.Example
