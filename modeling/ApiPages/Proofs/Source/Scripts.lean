import Mathlib.Data.List.Forall2
import ApiPages.Proofs.Source.Continuation
import ApiPages.Proofs.Source.Layout
import ApiPages.Source.Html

/-!
The scripts of a page on their lines. A page is searched from left to right for script elements; of
what lies outside their bodies only the newlines are kept. Main statement: the scripts of a page
hold the bodies of its elements in their order with nothing but newlines around them, every
character of a body on the line that it has on the page, so that a doc comment of the scripts is
found on the line of the page where it opens.
-/
namespace ApiPages.Source

def Caseless (word text : List Char) : Prop :=
  List.Forall₂ (fun l c => standsFor l c = true) word text

/-- A tag that opens a script element: its name ends, and the first closing bracket ends the tag. -/
def IsOpenTag (tag : List Char) : Prop :=
  ∃ name attributes, tag = name ++ attributes ++ ['>'] ∧ Caseless "<script".toList name ∧
    '>' ∉ attributes ∧ ∀ c ∈ attributes.head?, Text.isWordChar c = false

def IsCloseTagLed (text : List Char) : Prop :=
  ∃ name blanks rest, text = name ++ blanks ++ '>' :: rest ∧ Caseless "</script".toList name ∧
    ∀ c ∈ blanks, Text.isBlank c = true

/-- A script element at the head of a text: its body ends at the first tag that closes it. -/
structure Element (text tag body rest : List Char) : Prop where
  parts : text = tag ++ body ++ rest
  opens : IsOpenTag tag
  closes : IsCloseTagLed rest
  first : ∀ s c t, body = s ++ c :: t → ¬ IsCloseTagLed (c :: t ++ rest)

/-- The parts of a text when its elements are searched for from left to right. -/
inductive Searched : List Char → List Piece → Prop
  | nil : Searched [] []
  | skip {c : Char} {cs : List Char} {ps : List Piece}
      (hnone : ∀ tag body rest, ¬ Element (c :: cs) tag body rest) (hps : Searched cs ps) :
      Searched (c :: cs) (.outside [c] :: ps)
  | element {text tag body rest : List Char} {ps : List Piece} (h : Element text tag body rest)
      (hps : Searched rest ps) : Searched text (.outside tag :: .script body :: ps)

inductive Spaced : List (List Char) → List Char → Prop
  | nil {gap : List Char} (hgap : ∀ c ∈ gap, c = '\n') : Spaced [] gap
  | cons {gap text rest : List Char} {texts : List (List Char)} (hgap : ∀ c ∈ gap, c = '\n')
      (hrest : Spaced texts rest) : Spaced (text :: texts) (gap ++ text ++ rest)

namespace Piece

def text : Piece → List Char
  | .outside text => text
  | .script body => body

def body? : Piece → Option (List Char)
  | .outside _ => none
  | .script body => some body

end Piece

def scriptBodies (page : List Char) : List (List Char) := (pieces page).filterMap Piece.body?

/-- A character of a body: `above` is what stands before it among the scripts, and `lead` what stands
before it on the page. -/
def Holds (ps : List Piece) (c : Char) (above lead : List Char) : Prop :=
  ∃ before s t after, ps = before ++ .script (s ++ c :: t) :: after ∧
    above = before.flatMap Piece.kept ++ s ∧ lead = before.flatMap Piece.text ++ s

theorem afterCaseless?_eq_some_iff {word cs rest : List Char} :
    afterCaseless? word cs = some rest ↔ ∃ name, cs = name ++ rest ∧ Caseless word name := by
  induction word generalizing cs with
  | nil =>
    simp only [afterCaseless?, Option.some.injEq, Caseless, List.forall₂_nil_left_iff]
    constructor
    · rintro rfl
      exact ⟨[], rfl, rfl⟩
    · rintro ⟨_, rfl, rfl⟩
      rfl
  | cons l word ih =>
    cases cs with
    | nil =>
      simp only [afterCaseless?, reduceCtorEq, false_iff, not_exists, not_and]
      intro name hname hcaseless
      obtain ⟨rfl, -⟩ := List.append_eq_nil_iff.mp hname.symm
      cases hcaseless
    | cons c cs =>
      simp only [afterCaseless?]
      split
      · rename_i hc
        rw [ih]
        constructor
        · rintro ⟨name, rfl, hcaseless⟩
          exact ⟨c :: name, rfl, .cons hc hcaseless⟩
        · rintro ⟨name, hname, hcaseless⟩
          obtain ⟨d, name, -, hword, rfl⟩ := List.forall₂_cons_left_iff.mp hcaseless
          exact ⟨name, (List.cons.inj hname).2, hword⟩
      · rename_i hc
        simp only [reduceCtorEq, false_iff, not_exists, not_and]
        intro name hname hcaseless
        obtain ⟨d, name, hd, -, rfl⟩ := List.forall₂_cons_left_iff.mp hcaseless
        obtain ⟨rfl, -⟩ := List.cons.inj hname
        exact hc hd

theorem eq_append_of_openTag? {text tag rest : List Char} (h : openTag? text = some (tag, rest)) :
    text = tag ++ rest ∧ IsOpenTag tag := by
  simp only [openTag?] at h
  split at h
  · rename_i c behind hafter
    obtain ⟨name, rfl, hname⟩ := afterCaseless?_eq_some_iff.mp hafter
    split at h
    · cases h
    · rename_i hword
      split at h
      · rename_i attributes behind' hspan
        obtain ⟨rfl, rfl⟩ := Prod.mk.inj (Option.some.inj h)
        rw [List.span_eq_takeWhile_dropWhile, Prod.mk.injEq] at hspan
        obtain ⟨hattributes, hbehind⟩ := hspan
        have hcut : c :: behind = attributes ++ '>' :: behind' := by
          rw [← hattributes, ← hbehind, List.takeWhile_append_dropWhile]
        have hbracket : '>' ∉ attributes := by
          rw [← hattributes]
          exact fun hmem => by simpa using List.mem_takeWhile_imp hmem
        have hlength : name.length = 7 := hname.length_eq.symm
        rw [hcut, List.take_left' hlength]
        refine ⟨by simp, name, attributes, rfl, hname, hbracket, fun d hd => ?_⟩
        cases attributes with
        | nil => cases hd
        | cons e attributes =>
          obtain rfl := Option.some.inj hd
          obtain ⟨rfl, -⟩ := List.cons.inj hcut
          exact Bool.eq_false_iff.mpr hword
      · cases h
  · cases h

theorem openTag?_append {tag : List Char} (h : IsOpenTag tag) (rest : List Char) :
    openTag? (tag ++ rest) = some (tag, rest) := by
  obtain ⟨name, attributes, rfl, hname, hbracket, hhead⟩ := h
  have hafter : afterCaseless? "<script".toList (name ++ (attributes ++ '>' :: rest)) =
      some (attributes ++ '>' :: rest) := afterCaseless?_eq_some_iff.mpr ⟨name, rfl, hname⟩
  have hspan : (attributes ++ '>' :: rest).span (· ≠ '>') = (attributes, '>' :: rest) :=
    Text.span_append (fun c hc => by simpa using ne_of_mem_of_not_mem hc hbracket) (by simp)
  obtain ⟨c, behind, hcons, hc⟩ :
      ∃ c behind, attributes ++ '>' :: rest = c :: behind ∧ Text.isWordChar c = false := by
    cases attributes with
    | nil => exact ⟨'>', rest, rfl, by decide⟩
    | cons c attributes => exact ⟨c, _, rfl, hhead c rfl⟩
  have htext : name ++ attributes ++ ['>'] ++ rest = name ++ (attributes ++ '>' :: rest) := by simp
  rw [htext, openTag?, hafter]
  rw [hcons] at hspan ⊢
  simp only [hc, Bool.false_eq_true, if_false, hspan]
  have hlength : name.length = 7 := hname.length_eq.symm
  rw [List.take_left' hlength]

theorem atCloseTag_iff {text : List Char} : atCloseTag text = true ↔ IsCloseTagLed text := by
  constructor
  · intro h
    rw [atCloseTag] at h
    split at h
    · rename_i rest hafter
      obtain ⟨name, rfl, hname⟩ := afterCaseless?_eq_some_iff.mp hafter
      obtain ⟨behind, hbehind⟩ := List.head?_eq_some_iff.mp (beq_iff_eq.mp h)
      refine ⟨name, rest.takeWhile Text.isBlank, behind, ?_, hname, fun c => List.mem_takeWhile_imp⟩
      rw [List.append_assoc, ← hbehind, Text.trimStart, List.takeWhile_append_dropWhile]
    · cases h
  · rintro ⟨name, blanks, behind, rfl, hname, hblanks⟩
    have hafter : afterCaseless? "</script".toList (name ++ (blanks ++ '>' :: behind)) =
        some (blanks ++ '>' :: behind) := afterCaseless?_eq_some_iff.mpr ⟨name, rfl, hname⟩
    have htrim : Text.trimStart (blanks ++ '>' :: behind) = '>' :: behind := by
      rw [Text.trimStart_append_of_blank (List.all_eq_true.mpr hblanks)]
      exact Text.trimStart_eq_self_iff.mpr fun c hc => by
        obtain rfl := Option.some.inj hc
        decide
    rw [atCloseTag, List.append_assoc, hafter]
    simp only [htrim]
    rfl

theorem bodyOf?_eq_some_iff {text body rest : List Char} :
    bodyOf? text = some (body, rest) ↔ text = body ++ rest ∧ IsCloseTagLed rest ∧
      ∀ s c t, body = s ++ c :: t → ¬ IsCloseTagLed (c :: t ++ rest) := by
  induction text generalizing body with
  | nil =>
    simp only [bodyOf?, reduceCtorEq, false_iff, not_and]
    intro hnil hclose
    obtain ⟨-, rfl⟩ := List.append_eq_nil_iff.mp hnil.symm
    exact absurd (atCloseTag_iff.mpr hclose) (by decide)
  | cons c cs ih =>
    simp only [bodyOf?]
    by_cases hclose : atCloseTag (c :: cs) = true
    · rw [if_pos hclose, Option.some.injEq, Prod.mk.injEq]
      constructor
      · rintro ⟨rfl, rfl⟩
        exact ⟨rfl, atCloseTag_iff.mp hclose, fun s d t hnil => by simp at hnil⟩
      · rintro ⟨htext, -, hfirst⟩
        cases body with
        | nil => exact ⟨rfl, htext⟩
        | cons d body =>
          rw [htext] at hclose
          exact absurd (atCloseTag_iff.mp hclose) (hfirst [] d body rfl)
    · rw [if_neg hclose, Option.map_eq_some_iff]
      constructor
      · rintro ⟨⟨inner, behind⟩, hinner, heq⟩
        cases heq
        obtain ⟨rfl, hcloses, hfirst⟩ := ih.mp hinner
        refine ⟨rfl, hcloses, fun s d t hcut => ?_⟩
        rcases List.cons_eq_append_iff.mp hcut with ⟨rfl, hhead⟩ | ⟨s, rfl, hlater⟩
        · rw [hhead]
          exact fun hled => hclose (atCloseTag_iff.mpr hled)
        · exact hfirst s d t hlater
      · rintro ⟨htext, hcloses, hfirst⟩
        cases body with
        | nil =>
          rw [htext] at hclose
          exact absurd (atCloseTag_iff.mpr hcloses) hclose
        | cons d body =>
          obtain ⟨rfl, rfl⟩ := List.cons.inj htext
          refine ⟨(body, rest), ih.mpr ⟨rfl, hcloses, fun s e t hcut => ?_⟩, rfl⟩
          exact hfirst (c :: s) e t (by rw [hcut]; rfl)

theorem element_iff {text tag body rest : List Char} :
    Element text tag body rest ↔
      ∃ behind, openTag? text = some (tag, behind) ∧ bodyOf? behind = some (body, rest) := by
  constructor
  · rintro ⟨rfl, hopens, hcloses, hfirst⟩
    rw [List.append_assoc]
    exact ⟨_, openTag?_append hopens _, bodyOf?_eq_some_iff.mpr ⟨rfl, hcloses, hfirst⟩⟩
  · rintro ⟨behind, htag, hbody⟩
    obtain ⟨rfl, hopens⟩ := eq_append_of_openTag? htag
    obtain ⟨rfl, hcloses, hfirst⟩ := bodyOf?_eq_some_iff.mp hbody
    exact ⟨(List.append_assoc ..).symm, hopens, hcloses, hfirst⟩

theorem Element.length_lt {text tag body rest : List Char} (h : Element text tag body rest) :
    rest.length < text.length := by
  obtain ⟨name, attributes, rfl, -⟩ := h.opens
  rw [h.parts]
  simp only [List.length_append, List.length_singleton]
  omega

theorem searched_piecesFrom {n : Nat} {text : List Char} (h : text.length ≤ n) :
    Searched text (piecesFrom n text) := by
  induction n generalizing text with
  | zero =>
    obtain rfl := List.length_eq_zero_iff.mp (Nat.le_zero.mp h)
    exact .nil
  | succ n ih =>
    cases text with
    | nil => exact .nil
    | cons c cs =>
      have hskip : Searched cs (piecesFrom n cs) := ih (Nat.le_of_succ_le_succ h)
      simp only [piecesFrom]
      split
      · rename_i tag behind htag
        split
        · rename_i body rest hbody
          have hfound : Element (c :: cs) tag body rest := element_iff.mpr ⟨behind, htag, hbody⟩
          exact .element hfound (ih (Nat.le_of_lt_succ (Nat.lt_of_lt_of_le hfound.length_lt h)))
        · rename_i hbody
          refine .skip (fun tag' body rest hfound => ?_) hskip
          obtain ⟨behind', htag', hbody'⟩ := element_iff.mp hfound
          obtain ⟨-, rfl⟩ := Prod.mk.inj (Option.some.inj (htag.symm.trans htag'))
          rw [hbody] at hbody'
          cases hbody'
      · rename_i htag
        refine .skip (fun tag body rest hfound => ?_) hskip
        obtain ⟨behind, htag', -⟩ := element_iff.mp hfound
        rw [htag] at htag'
        cases htag'

theorem searched_pieces (page : List Char) : Searched page (pieces page) :=
  searched_piecesFrom (Nat.le_refl _)

theorem Element.eq {text tag tag' body body' rest rest' : List Char}
    (h : Element text tag body rest) (h' : Element text tag' body' rest') :
    tag = tag' ∧ body = body' ∧ rest = rest' := by
  obtain ⟨behind, htag, hbody⟩ := element_iff.mp h
  obtain ⟨behind', htag', hbody'⟩ := element_iff.mp h'
  obtain ⟨rfl, rfl⟩ := Prod.mk.inj (Option.some.inj (htag.symm.trans htag'))
  obtain ⟨rfl, rfl⟩ := Prod.mk.inj (Option.some.inj (hbody.symm.trans hbody'))
  exact ⟨rfl, rfl, rfl⟩

theorem Searched.eq {text : List Char} {ps ps' : List Piece} (h : Searched text ps)
    (h' : Searched text ps') : ps = ps' := by
  induction h generalizing ps' with
  | nil =>
    cases h' with
    | nil => rfl
    | element helement => exact absurd helement.length_lt (Nat.not_lt_zero _)
  | skip hnone hps ih =>
    cases h' with
    | skip hnone' hps' => rw [ih hps']
    | element helement => exact absurd helement (hnone _ _ _)
  | element helement hps ih =>
    cases h' with
    | nil => exact absurd helement.length_lt (Nat.not_lt_zero _)
    | skip hnone' hps' => exact absurd helement (hnone' _ _ _)
    | element helement' hps' =>
      obtain ⟨rfl, rfl, rfl⟩ := helement.eq helement'
      rw [ih hps']

theorem Searched.exists_element {text body : List Char} {ps : List Piece} (h : Searched text ps)
    (hbody : .script body ∈ ps) : ∃ text tag rest, Element text tag body rest := by
  induction h with
  | nil => exact absurd hbody List.not_mem_nil
  | skip hnone hps ih => exact ih (by simpa using hbody)
  | element helement hps ih =>
    rcases List.mem_cons.mp hbody with hbody | hbody
    · cases hbody
    rcases List.mem_cons.mp hbody with hbody | hbody
    · obtain rfl := Piece.script.inj hbody
      exact ⟨_, _, _, helement⟩
    · exact ih hbody

theorem exists_element_of_mem_scriptBodies {page body : List Char} (h : body ∈ scriptBodies page) :
    ∃ text tag rest, Element text tag body rest := by
  obtain ⟨piece, hpiece, hbody⟩ := List.mem_filterMap.mp h
  cases piece with
  | outside text => cases hbody
  | script body' =>
    obtain rfl := Option.some.inj hbody
    exact (searched_pieces page).exists_element hpiece

theorem exists_of_mem_caseless {word text : List Char} (h : Caseless word text) {c : Char}
    (hc : c ∈ text) : ∃ l ∈ word, standsFor l c = true := by
  induction h with
  | nil => exact absurd hc List.not_mem_nil
  | cons hhead htail ih =>
    rcases List.mem_cons.mp hc with rfl | hc
    · exact ⟨_, List.mem_cons_self, hhead⟩
    · obtain ⟨l, hl, hstands⟩ := ih hc
      exact ⟨l, List.mem_cons_of_mem _ hl, hstands⟩

theorem eq_bracket_of_standsFor {c : Char} (h : standsFor '<' c = true) : c = '<' := by
  have hlower : c.toLower = '<' := by simpa [standsFor] using h
  delta Char.toLower at hlower
  split at hlower
  · rename_i hletter
    have hcode : (c.toNat + 32) % 2 ^ 32 = 60 := congrArg Char.toNat hlower
    have hfirst : 65 ≤ c.toNat := UInt32.le_iff_toNat_le.mp hletter.1
    have hlast : c.toNat ≤ 90 := UInt32.le_iff_toNat_le.mp hletter.2
    omega
  · exact hlower

theorem IsCloseTagLed.head {text : List Char} (h : IsCloseTagLed text) :
    ∃ rest, text = '<' :: rest := by
  obtain ⟨name, blanks, rest, rfl, hname, -⟩ := h
  have hletters : "</script".toList = '<' :: "/script".toList := by decide
  rw [hletters] at hname
  obtain ⟨c, name, hc, -, rfl⟩ := List.forall₂_cons_left_iff.mp hname
  exact ⟨_, by rw [eq_bracket_of_standsFor hc]; rfl⟩

theorem IsCloseTagLed.of_bracket {c : Char} {text behind : List Char}
    (h : IsCloseTagLed (c :: text ++ '<' :: behind)) (behind' : List Char) :
    IsCloseTagLed (c :: text ++ behind') := by
  obtain ⟨name, blanks, rest, hcut, hname, hblanks⟩ := h
  have htag : name ++ blanks ++ '>' :: rest = name ++ blanks ++ ['>'] ++ rest := by simp
  rw [htag] at hcut
  rcases List.append_eq_append_iff.mp hcut with ⟨extra, hextra, hrest⟩ | ⟨left, hleft, -⟩
  · cases extra with
    | nil =>
      refine ⟨name, blanks, behind', ?_, hname, hblanks⟩
      rw [← List.append_nil (c :: text), ← hextra]
      simp
    | cons d extra =>
      obtain ⟨rfl, -⟩ := List.cons.inj hrest
      have hletters : "</script".toList = ['<', '/', 's', 'c', 'r', 'i', 'p', 't'] := by decide
      rw [hletters] at hname
      obtain ⟨e, name, -, hmore, rfl⟩ := List.forall₂_cons_left_iff.mp hname
      have hmem : '<' ∈ name ++ blanks ++ ['>'] := by
        have htail : name ++ blanks ++ ['>'] = text ++ '<' :: extra := (List.cons.inj hextra).2
        rw [htail]
        simp
      rcases List.mem_append.mp hmem with hmem | hmem
      · rcases List.mem_append.mp hmem with hmem | hmem
        · obtain ⟨l, hl, hstands⟩ := exists_of_mem_caseless hmore hmem
          have hnone : ['/', 's', 'c', 'r', 'i', 'p', 't'].all (!standsFor · '<') = true := by decide
          have hno := List.all_eq_true.mp hnone l hl
          rw [hstands] at hno
          cases hno
        · exact absurd (hblanks _ hmem) (by decide)
      · exact absurd (List.mem_singleton.mp hmem) (by decide)
  · refine ⟨name, blanks, left ++ behind', ?_, hname, hblanks⟩
    rw [hleft]
    simp

theorem Searched.text_eq {text : List Char} {ps : List Piece} (h : Searched text ps) :
    ps.flatMap Piece.text = text := by
  induction h with
  | nil => rfl
  | skip hnone hps ih => rw [List.flatMap_cons, ih, Piece.text, List.singleton_append]
  | element helement hps ih =>
    rw [List.flatMap_cons, List.flatMap_cons, ih, helement.parts, List.append_assoc]
    rfl

theorem spaced_append_gap {texts : List (List Char)} {gap text : List Char}
    (hgap : ∀ c ∈ gap, c = '\n') (h : Spaced texts text) : Spaced texts (gap ++ text) := by
  cases h with
  | nil hrest => exact .nil (List.forall_mem_append.mpr ⟨hgap, hrest⟩)
  | cons hmore hrest =>
    rw [← List.append_assoc, ← List.append_assoc]
    exact .cons (List.forall_mem_append.mpr ⟨hgap, hmore⟩) hrest

namespace Piece

theorem newline_of_mem_kept {text : List Char} : ∀ c ∈ (outside text).kept, c = '\n' := by
  intro c hc
  simpa using (List.mem_filter.mp hc).2

theorem newlines_kept (p : Piece) : Text.newlines p.kept = Text.newlines p.text := by
  cases p with
  | outside text => exact List.count_filter (by simp)
  | script body => rfl

theorem newlines_flatMap_kept (ps : List Piece) :
    Text.newlines (ps.flatMap kept) = Text.newlines (ps.flatMap text) := by
  induction ps with
  | nil => rfl
  | cons p ps ih =>
    rw [List.flatMap_cons, List.flatMap_cons, Text.newlines_append, Text.newlines_append,
      newlines_kept, ih]

theorem spaced_kept (ps : List Piece) : Spaced (ps.filterMap body?) (ps.flatMap kept) := by
  induction ps with
  | nil => exact .nil (by simp)
  | cons p ps ih =>
    cases p with
    | outside text => exact spaced_append_gap newline_of_mem_kept ih
    | script body => exact @Spaced.cons [] body _ _ (by simp) ih

end Piece

section Holds

variable {ps : List Piece} {c : Char} {above lead : List Char}

theorem Holds.newlines (h : Holds ps c above lead) : Text.newlines above = Text.newlines lead := by
  obtain ⟨before, s, t, after, -, rfl, rfl⟩ := h
  rw [Text.newlines_append, Text.newlines_append, Piece.newlines_flatMap_kept]

theorem Holds.text (h : Holds ps c above lead) :
    ∃ rest, ps.flatMap Piece.text = lead ++ c :: rest := by
  obtain ⟨before, s, t, after, rfl, -, rfl⟩ := h
  exact ⟨t ++ after.flatMap Piece.text, by simp [Piece.text]⟩

theorem Holds.kept (h : Holds ps c above lead) :
    ∃ rest, ps.flatMap Piece.kept = above ++ c :: rest := by
  obtain ⟨before, s, t, after, rfl, rfl, -⟩ := h
  exact ⟨t ++ after.flatMap Piece.kept, by simp [Piece.kept]⟩

theorem exists_holds {rest : List Char} (h : ps.flatMap Piece.kept = above ++ c :: rest)
    (hc : c ≠ '\n') : ∃ lead, Holds ps c above lead := by
  induction ps generalizing above with
  | nil => simp at h
  | cons p ps ih =>
    rw [List.flatMap_cons] at h
    rcases List.append_eq_append_iff.mp h with ⟨above, rfl, hrest⟩ | ⟨own, hown, hrest⟩
    · obtain ⟨lead, before, s, t, after, rfl, rfl, rfl⟩ := ih hrest
      exact ⟨p.text ++ (before.flatMap Piece.text ++ s), p :: before, s, t, after, rfl, by simp,
        by simp⟩
    · cases own with
      | nil =>
        obtain ⟨lead, before, s, t, after, rfl, habove, rfl⟩ := @ih [] hrest.symm
        refine ⟨p.text ++ (before.flatMap Piece.text ++ s), p :: before, s, t, after, rfl, ?_,
          by simp⟩
        rw [List.append_nil] at hown
        rw [List.flatMap_cons, List.append_assoc, ← habove, hown, List.append_nil]
      | cons d own =>
        obtain ⟨rfl, -⟩ := List.cons.inj hrest
        cases p with
        | outside text =>
          exact absurd (Piece.newline_of_mem_kept c (by rw [hown]; simp)) hc
        | script body =>
          exact ⟨above, [], above, own, ps, by rw [← hown]; rfl, rfl, rfl⟩

end Holds

theorem Laid.exists_stands {before text : List Char} {bs : List Block} (h : Laid before text bs) :
    ∀ b ∈ bs, ∃ front behind, before ++ text = front ++ b.comment ++ behind ∧
      b.Stands front behind := by
  induction h with
  | nil => simp
  | @cons before gap behind b bs hb hbs ih =>
    refine List.forall_mem_cons.mpr ⟨⟨_, _, by simp, hb⟩, fun b' hb' => ?_⟩
    obtain ⟨front, behind', htext, hstands⟩ := ih b' hb'
    exact ⟨front, behind', by rw [← htext]; simp, hstands⟩

theorem laid_of_scan {file : String} {text : List Char} {blocks : List Block}
    (h : scan file text = .ok blocks) : Laid [] text blocks := by
  obtain ⟨-, rfl⟩ := scan_eq_ok_iff.mp h
  exact laid_blocks Lexer.reads_start {} text

theorem Block.Stands.holds {ps : List Piece} {b : Block} {above behind : List Char}
    (h : b.Stands above behind) (hplace : ps.flatMap Piece.kept = above ++ b.comment ++ behind)
    {s t : List Char} {c : Char} (hcomment : b.comment = s ++ c :: t) (hc : c ≠ '\n') :
    ∃ lead, Holds ps c (above ++ s) lead ∧ b.line + Text.newlines s = 1 + Text.newlines lead := by
  have hcut : ps.flatMap Piece.kept = above ++ s ++ c :: (t ++ behind) := by
    rw [hplace, hcomment]
    simp
  obtain ⟨lead, hholds⟩ := exists_holds hcut hc
  refine ⟨lead, hholds, ?_⟩
  rw [h.line, ← hholds.newlines, Text.newlines_append, Nat.add_assoc]

/-- The scripts of a page are the bodies of its elements, each character on the line that it has on
the page, and so are the comments of their blocks. -/
theorem scripts_keep_lines (page : List Char) :
    Searched page (pieces page) ∧ (pieces page).flatMap Piece.text = page ∧
    Text.newlines (scripts page) = Text.newlines page ∧ Spaced (scriptBodies page) (scripts page) ∧
    (∀ c above lead, Holds (pieces page) c above lead →
      (∃ rest, scripts page = above ++ c :: rest) ∧ (∃ rest, page = lead ++ c :: rest) ∧
        Text.newlines above = Text.newlines lead) ∧
    ∀ file blocks, scan file (scripts page) = .ok blocks → Laid [] (scripts page) blocks ∧
      ∀ b ∈ blocks, ∃ above behind, scripts page = above ++ b.comment ++ behind ∧
        b.Stands above behind ∧ ∀ s c t, b.comment = s ++ c :: t → c ≠ '\n' →
          ∃ lead, Holds (pieces page) c (above ++ s) lead ∧
            b.line + Text.newlines s = 1 + Text.newlines lead := by
  have hsearched := searched_pieces page
  have hpage := hsearched.text_eq
  refine ⟨hsearched, hpage, ?_, Piece.spaced_kept _, fun c above lead h => ?_,
    fun file blocks h => ?_⟩
  · rw [scripts, Piece.newlines_flatMap_kept, hpage]
  · have htext := h.text
    rw [hpage] at htext
    exact ⟨h.kept, htext, h.newlines⟩
  · have hlaid := laid_of_scan h
    refine ⟨hlaid, fun b hb => ?_⟩
    obtain ⟨above, behind, hplace, hstands⟩ := hlaid.exists_stands b hb
    exact ⟨above, behind, hplace, hstands, fun s c t => hstands.holds hplace⟩

end ApiPages.Source
