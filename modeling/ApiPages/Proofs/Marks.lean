import ApiPages.Proofs.Links
import ApiPages.Proofs.Text.Marks

/-!
What a page shows of entries without backticks and bars. Names, anchors and running text stay
without them; types get bars between them, each behind a backslash.
-/
namespace ApiPages

open Text (Unmarked Harmless)

def TypeExpr.texts (t : TypeExpr) : List String := t.names

def Param.texts (p : Param) : List String :=
  p.name :: (p.type.toList.flatMap TypeExpr.texts ++ p.description.toList ++ p.default.toList)

def Returned.texts (r : Returned) : List String :=
  r.type.toList.flatMap TypeExpr.texts ++ r.description.toList

def CustomTag.texts (t : CustomTag) : List String := [t.tag, t.value]

def Tags.textsByTag (t : Tags) : List (List String) := [
  t.description.toList, t.classdesc.toList, t.summary.toList, t.params.flatMap Param.texts,
  t.properties.flatMap Param.texts, t.returns.flatMap Returned.texts,
  t.exceptions.flatMap Returned.texts, t.type.toList.flatMap TypeExpr.texts, t.deprecated.toList,
  t.since.toList, t.version.toList, t.see, t.todo, t.author, t.augments, t.mixes, t.fires,
  t.default.toList, t.category.toList, t.custom.flatMap CustomTag.texts]

def Example.texts (e : Example) : List String := e.code :: e.caption.toList

def Place.texts (p : Place) : List String := [p.filename, p.folder]

def Entry.texts (e : Entry) : List String :=
  e.id :: e.name :: e.longname :: (e.memberof.toList ++ e.tags.textsByTag.flatten ++
    e.examples.flatMap Example.texts ++ e.place.toList.flatMap Place.texts)

def AllUnmarked (texts : List String) : Prop := ∀ text ∈ texts, Unmarked text.toList

instance (texts : List String) : Decidable (AllUnmarked texts) :=
  List.decidableBAll (fun text : String => Unmarked text.toList) texts

theorem allUnmarked_append {texts more : List String} :
    AllUnmarked (texts ++ more) ↔ AllUnmarked texts ∧ AllUnmarked more := List.forall_mem_append

theorem AllUnmarked.map {texts : List String} (h : AllUnmarked texts) {set : String → String}
    (hset : ∀ text, Unmarked text.toList → Unmarked (set text).toList) :
    AllUnmarked (texts.map set) :=
  List.forall_mem_map.mpr fun text htext => hset text (h text htext)

theorem AllUnmarked.optionMap {text : Option String} (h : AllUnmarked text.toList)
    {set : String → String} (hset : ∀ text, Unmarked text.toList → Unmarked (set text).toList) :
    AllUnmarked (text.map set).toList := by
  rw [Option.toList_map]
  exact h.map hset

section Running

variable {known : List Entry} {text : String}

theorem unmarked_sanitize (h : Unmarked text.toList) : Unmarked (sanitize text).toList := by
  have hreplaced {replacements : List (String × String)}
      (hnew : ∀ r ∈ replacements, Unmarked r.2.toList) {cs : List Char} (hcs : Unmarked cs) :
      Unmarked (replacements.foldl
        (fun cs r => Text.replace r.1.toList r.2.toList cs) cs) := by
    induction replacements generalizing cs with
    | nil => exact hcs
    | cons r replacements ih =>
      obtain ⟨hr, hnew⟩ := List.forall_mem_cons.mp hnew
      exact ih hnew (hcs.replace hr)
  rw [sanitize, String.toList_ofList]
  exact hreplaced (by decide) h

theorem unmarked_escapeHtml (h : Unmarked text.toList) : Unmarked (escapeHtml text).toList := by
  rw [escapeHtml, String.toList_ofList]
  intro c hc
  obtain ⟨d, hd, hc⟩ := List.mem_flatMap.mp hc
  split_ifs at hc with hamp hless hgreater
  · exact (by decide : Unmarked "&amp;".toList) c hc
  · exact (by decide : Unmarked "&lt;".toList) c hc
  · exact (by decide : Unmarked "&gt;".toList) c hc
  · rw [List.mem_singleton.mp hc]
    exact h d hd

theorem unmarked_code (h : Unmarked text.toList) :
    Unmarked ("<code>" ++ escapeHtml text ++ "</code>").toList :=
  (Unmarked.concat (by decide) (unmarked_escapeHtml h)).concat (by decide)

theorem unmarked_anchor {e : Entry} (h : AllUnmarked e.texts) : Unmarked e.anchor.toList := by
  have hid : Unmarked e.id.toList := h e.id List.mem_cons_self
  have hlongname : Unmarked e.longname.toList := h e.longname (by simp [Entry.texts])
  rw [Entry.anchor]
  split_ifs
  · exact (Unmarked.concat (by decide) (unmarked_sanitize hlongname)).concat (by decide)
  · exact unmarked_sanitize hlongname
  · exact unmarked_sanitize hid

variable (hknown : ∀ e ∈ known, AllUnmarked e.texts)

include hknown

theorem unmarked_anchorOf? {anchor : String}
    (h : anchorOf? known text = some anchor) : Unmarked anchor.toList := by
  obtain ⟨e, he, rfl⟩ := Option.map_eq_some_iff.mp h
  exact unmarked_anchor (hknown e (List.mem_of_find?_eq_some he))

theorem unmarked_linkedName (h : Unmarked text.toList) :
    Unmarked (linkedName known text).toList := by
  have hcode := unmarked_code h
  rw [linkedName]
  cases hanchor : anchorOf? known text with
  | none => exact hcode
  | some anchor =>
    have hlink := (Unmarked.concat (by decide : Unmarked "[".toList) hcode).concat
      (by decide : Unmarked "](#".toList)
    exact (hlink.concat (unmarked_anchorOf? hknown hanchor)).concat (by decide)

theorem harmless_linkedType {t : TypeExpr} (h : AllUnmarked t.texts) :
    Harmless (linkedType known t).toList := by
  refine Harmless.intercalate (by decide) fun linked hlinked => ?_
  obtain ⟨name, hname, rfl⟩ := List.mem_map.mp hlinked
  exact (unmarked_linkedName hknown (h name hname)).harmless

end Running

namespace InlineLink

variable {known : List Entry} {cs rest : List Char} {code : Bool} {l : InlineLink}

theorem unmarked_afterTag? (h : afterTag? cs = some (code, rest)) (hcs : Unmarked cs) :
    Unmarked rest := by
  obtain ⟨⟨word, mode⟩, -, htag⟩ := List.exists_of_findSome?_eq_some h
  simp only at htag
  split at htag
  · next c behind hafter =>
    split_ifs at htag
    cases htag
    exact ((hcs.behind hafter).of_subset (List.subset_cons_self c behind)).trimStart
  · cases htag

theorem unmarked_afterSeparator (h : Unmarked cs) : Unmarked (afterSeparator cs) := by
  have htrimmed := h.trimStart
  rw [afterSeparator]
  split
  · next behind hbar => exact (htrimmed.of_subset (by simp [hbar])).trimStart
  · exact htrimmed

theorem unmarked_read? (h : read? cs = some (l, rest)) (hcs : Unmarked cs) :
    Unmarked l.target ∧ Unmarked l.label ∧ Unmarked rest := by
  obtain ⟨⟨code, behind⟩, htag, h⟩ := Option.bind_eq_some_iff.mp h
  have hbehind := unmarked_afterTag? htag hcs
  simp only [List.span_eq_takeWhile_dropWhile] at h
  split at h
  · cases h
  · obtain ⟨⟨label, after⟩, hlabel, h⟩ := Option.bind_eq_some_iff.mp h
    cases h
    have hcut := Unmarked.cut (unmarked_afterSeparator
      (hbehind.of_subset (List.dropWhile_subset _))) hlabel
    exact ⟨hbehind.of_subset (List.takeWhile_subset _), hcut.1.trim, hcut.2⟩

theorem unmarked_readLabelled? (h : readLabelled? cs = some (l, rest)) (hcs : Unmarked cs) :
    Unmarked l.target ∧ Unmarked l.label ∧ Unmarked rest := by
  obtain ⟨inner, hinner, h⟩ := Option.bind_eq_some_iff.mp h
  obtain ⟨⟨label, behind⟩, hlabel, h⟩ := Option.bind_eq_some_iff.mp h
  simp only at h
  split at h
  · cases h
  · obtain ⟨⟨link, after⟩, hlink, h⟩ := Option.bind_eq_some_iff.mp h
    cases h
    have hcut := (hcs.behind hinner).cut hlabel
    have hread := unmarked_read? hlink hcut.2
    exact ⟨hread.1, hcut.1.trim, hread.2.2⟩

theorem unmarked_shown (hknown : ∀ e ∈ known, AllUnmarked e.texts) (htarget : Unmarked l.target)
    (hlabel : Unmarked l.label) : Unmarked (l.shown known) := by
  have hplain : Unmarked (if l.label = [] then l.target else l.label) := by
    split_ifs <;> assumption
  have hcode {cs : List Char} (hcs : Unmarked cs) :
      Unmarked ("<code>".toList ++ cs ++ "</code>".toList) := by
    rw [Text.unmarked_append, Text.unmarked_append]
    exact ⟨⟨by decide, hcs⟩, by decide⟩
  have htext : Unmarked (if l.code then
      "<code>".toList ++ (if l.label = [] then l.target else l.label) ++ "</code>".toList
      else if l.label = [] then l.target else l.label) := by
    split
    · exact hcode hplain
    · exact hplain
  have hlink {label address : List Char} (between : List Char) (hbetween : Unmarked between)
      (hlabel : Unmarked label) (haddress : Unmarked address) :
      Unmarked ('[' :: label ++ between ++ address ++ [')']) := by
    have hopen : Unmarked ('[' :: label) :=
      Text.unmarked_append.mpr ⟨(by decide : Unmarked ['[']), hlabel⟩
    simp only [Text.unmarked_append]
    exact ⟨⟨⟨hopen, hbetween⟩, haddress⟩, by decide⟩
  rw [shown]
  by_cases haddress : Text.contains "://".toList l.target
  · simp only [if_pos haddress]
    exact hlink _ (by decide) htext htarget
  · simp only [if_neg haddress]
    cases hanchor : anchorOf? known (String.ofList l.target) with
    | some anchor => exact hlink _ (by decide) htext (unmarked_anchorOf? hknown hanchor)
    | none => exact hcode (unmarked_escapeHtml (by rwa [String.toList_ofList]))

end InlineLink

section Linking

variable {known : List Entry} {text : String} (hknown : ∀ e ∈ known, AllUnmarked e.texts)

include hknown

theorem unmarked_linkifyFrom (n : Nat) {cs : List Char} (h : Unmarked cs) :
    Unmarked (linkifyFrom known n cs) := by
  fun_induction linkifyFrom known n cs with
  | case1 cs => exact h
  | case2 => exact h
  | case3 n c cs l rest hread ih =>
    obtain ⟨htarget, hlabel, hrest⟩ : Unmarked l.target ∧ Unmarked l.label ∧ Unmarked rest := by
      rcases Option.or_eq_some_iff.mp hread with hread | ⟨-, hread⟩
      · exact InlineLink.unmarked_readLabelled? hread h
      · exact InlineLink.unmarked_read? hread h
    exact Text.unmarked_append.mpr ⟨InlineLink.unmarked_shown hknown htarget hlabel, ih hrest⟩
  | case4 n c cs hread ih =>
    rw [Unmarked, List.forall_mem_cons] at h ⊢
    exact ⟨h.1, ih h.2⟩

theorem unmarked_linkify (h : Unmarked text.toList) :
    Unmarked (linkify known text).toList := by
  rw [linkify, String.toList_ofList]
  exact unmarked_linkifyFrom hknown _ h

end Linking

section Entries

variable {known : List Entry} {e : Entry} {p : Param} {r : Returned}

theorem AllUnmarked.name (h : AllUnmarked e.texts) : Unmarked e.name.toList :=
  h e.name (by simp [Entry.texts])

theorem AllUnmarked.tag (h : AllUnmarked e.texts) {texts : List String}
    (htexts : texts ∈ e.tags.textsByTag) : AllUnmarked texts := by
  intro text htext
  have hmem : text ∈ e.tags.textsByTag.flatten := List.mem_flatten.mpr ⟨texts, htexts, htext⟩
  exact h text (by simp [Entry.texts, hmem])

theorem AllUnmarked.note (h : AllUnmarked e.texts) {note : Option String} {text : String}
    (hnote : note = some text) (hmem : note.toList ∈ e.tags.textsByTag) : Unmarked text.toList :=
  h.tag hmem text (by simp [hnote])

theorem AllUnmarked.param (h : AllUnmarked e.texts)
    (hp : p ∈ e.tags.params ∨ p ∈ e.tags.properties) : AllUnmarked p.texts := by
  intro text htext
  rcases hp with hp | hp
  · exact h.tag (by simp [Tags.textsByTag]) text (List.mem_flatMap.mpr ⟨p, hp, htext⟩)
  · exact h.tag (by simp [Tags.textsByTag]) text (List.mem_flatMap.mpr ⟨p, hp, htext⟩)

theorem AllUnmarked.returned (h : AllUnmarked e.texts)
    (hr : r ∈ e.tags.returns ∨ r ∈ e.tags.exceptions) : AllUnmarked r.texts := by
  intro text htext
  rcases hr with hr | hr
  · exact h.tag (by simp [Tags.textsByTag]) text (List.mem_flatMap.mpr ⟨r, hr, htext⟩)
  · exact h.tag (by simp [Tags.textsByTag]) text (List.mem_flatMap.mpr ⟨r, hr, htext⟩)

theorem unmarked_kindName (kind : Kind) : Unmarked kind.name.toList := by
  cases kind <;> decide

theorem unmarked_scopeMark (e : Entry) : Unmarked e.scopeMark.toList := by
  rw [Entry.scopeMark]
  split <;> decide

theorem unmarked_shownName (h : Unmarked p.name.toList) : Unmarked p.shownName.toList := by
  have hname : Unmarked (if p.repeated then "..." ++ p.name else p.name).toList := by
    split
    · exact Unmarked.concat (by decide) h
    · exact h
  rw [Param.shownName]
  by_cases hoptional : p.optional
  · rw [if_pos hoptional]
    exact (Unmarked.concat (by decide) hname).concat (by decide)
  · rw [if_neg hoptional]
    exact hname

theorem unmarked_paramSignature {params : List Param} (h : ∀ p ∈ params, AllUnmarked p.texts) :
    Unmarked (paramSignature params).toList := by
  refine Unmarked.intercalate (by decide) fun shown hshown => ?_
  obtain ⟨p, hp, rfl⟩ := List.mem_map.mp hshown
  exact unmarked_shownName (h p (List.mem_of_mem_filter hp) p.name List.mem_cons_self)

theorem unmarked_signature (h : AllUnmarked e.texts) : Unmarked (e.signature .plain).toList := by
  have hname := h.name
  have hparams : Unmarked ("(" ++ paramSignature e.tags.params ++ ")").toList :=
    (Unmarked.concat (by decide) (unmarked_paramSignature fun p hp => h.param (.inl hp))).concat
      (by decide)
  rw [Entry.signature, NameFormat.apply]
  split
  · exact (Unmarked.concat (by decide) hname).concat hparams
  · exact hname.concat hparams
  · exact (Unmarked.concat (by decide) hname).concat (by decide)
  · exact hname

theorem unmarked_lowerFirst {name : String} (h : Unmarked name.toList) :
    Unmarked (Entry.lowerFirst name).toList := by
  rw [Entry.lowerFirst]
  split
  · decide
  · next c cs hname =>
    rw [hname, ← List.singleton_append, Text.unmarked_append] at h
    rw [String.toList_ofList, Text.unmarked_append]
    exact ⟨Text.unmarked_lowerChar h.1, h.2⟩

variable (hknown : ∀ e ∈ known, AllUnmarked e.texts)

include hknown

theorem harmless_signatureType (h : AllUnmarked e.texts) :
    Harmless (e.signatureType known).toList := by
  have hreturns : ∀ t ∈ e.tags.returns.filterMap (·.type), AllUnmarked t.texts := by
    intro t ht text htext
    obtain ⟨r, hr, hrt⟩ := List.mem_filterMap.mp ht
    exact h.returned (.inl hr) text (by simp [Returned.texts, hrt, htext])
  have htype : ∀ t ∈ e.tags.type, AllUnmarked t.texts := by
    intro t ht
    rw [Option.mem_def] at ht
    exact h.tag (by simp [Tags.textsByTag, ht])
  rw [Entry.signatureType]
  cases e.kind
  case function | constructor =>
    cases htypes : e.tags.returns.filterMap (·.type) with
    | nil => exact Text.harmless_nil
    | cons t types =>
      refine Harmless.concat (by decide) (Harmless.intercalate (by decide) fun linked hlinked => ?_)
      obtain ⟨t, ht, rfl⟩ := List.mem_map.mp hlinked
      exact harmless_linkedType hknown (hreturns t (htypes ▸ ht))
  case member | constant | typedef =>
    cases hvalue : e.tags.type with
    | none => exact Text.harmless_nil
    | some t => exact Harmless.concat (by decide) (harmless_linkedType hknown (htype t hvalue))
  all_goals exact Text.harmless_nil

theorem unmarked_headingLead : Unmarked (e.headingLead known).toList := by
  rw [Entry.headingLead]
  split
  · decide
  · split
    · decide
    · next parent hparent =>
      obtain ⟨name, -, hdocumented⟩ := Option.bind_eq_some_iff.mp hparent
      have hname := (hknown parent (List.mem_of_find?_eq_some hdocumented)).name
      refine Unmarked.concat ?_ (unmarked_scopeMark e)
      split
      · exact unmarked_lowerFirst hname
      · exact hname

theorem harmless_heading (h : AllUnmarked e.texts) :
    Harmless (e.heading known .plain).toList :=
  ((unmarked_headingLead hknown).concat (unmarked_signature h)).harmless.concat
    (harmless_signatureType hknown h)

theorem harmless_rowText (h : AllUnmarked e.texts) :
    Harmless (MemberIndex.rowText known .plain e).toList := by
  have hmark : Unmarked (if e.isConstructor then "" else e.scopeMark).toList := by
    split
    · decide
    · exact unmarked_scopeMark e
  have hname := (Unmarked.concat (by decide : Unmarked "[".toList) hmark).concat
    (unmarked_signature h)
  have hlink := (hname.concat (by decide : Unmarked "](#".toList)).concat (unmarked_anchor h)
  exact (hlink.concat (by decide)).harmless.concat (harmless_signatureType hknown h)

end Entries

end ApiPages
