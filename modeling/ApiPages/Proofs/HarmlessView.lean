import ApiPages.Proofs.Marks

/-!
The page of entries without backticks and bars before it is laid out. Where no table is in effect,
everything that its sections and indexes show is harmless.
-/
namespace ApiPages

open Text (Unmarked Harmless)

namespace Section

variable {known : List Entry} {e : Entry} {p : Param} {r : Returned}

theorem unmarked_kindWord (isMember : Bool) (e : Entry) :
    Unmarked (kindWord isMember e).toList := by
  rw [kindWord]
  split
  · cases isMember <;> decide
  · cases e.tags.isEnum <;> cases isMember <;> decide
  · exact unmarked_kindName _

theorem unmarked_customLine {t : CustomTag} (h : AllUnmarked t.texts) :
    Unmarked (customLine t).toList := by
  have hvalue : Unmarked t.value.toList := h t.value (by simp [CustomTag.texts])
  have htag : Unmarked t.tag.toList := h t.tag List.mem_cons_self
  rw [customLine]
  cases hcs : t.tag.toList with
  | nil => exact Unmarked.concat (by decide) hvalue
  | cons c cs =>
    rw [hcs, ← List.singleton_append, Text.unmarked_append] at htag
    have hlabel : Unmarked (String.ofList (c.toUpper :: cs)).toList := by
      rw [String.toList_ofList, ← List.singleton_append, Text.unmarked_append]
      exact ⟨Text.unmarked_toUpper htag.1, htag.2⟩
    exact ((Unmarked.concat (by decide) hlabel).concat (by decide)).concat hvalue

theorem harmless_getD {text : Option α} {set : α → String}
    (h : ∀ x ∈ text, Harmless (set x).toList) : Harmless ((text.map set).getD "").toList := by
  cases text with
  | none => exact Text.harmless_nil
  | some x => exact h x rfl

variable (hknown : ∀ e ∈ known, AllUnmarked e.texts)

include hknown

theorem unmarked_parentLink {memberof : String}
    (h : Unmarked memberof.toList) : Unmarked (parentLink known e memberof).toList := by
  rw [parentLink]
  split
  · next parent hparent =>
    obtain ⟨name, -, hdocumented⟩ := Option.bind_eq_some_iff.mp hparent
    have htexts := hknown parent (List.mem_of_find?_eq_some hdocumented)
    have hopen := (Unmarked.concat (by decide : Unmarked "[<code>".toList)
      (unmarked_escapeHtml htexts.name)).concat (by decide : Unmarked "</code>](#".toList)
    exact (hopen.concat (unmarked_anchor htexts)).concat (by decide)
  · exact unmarked_code h

theorem unmarked_kindLine (h : AllUnmarked e.texts) :
    AllUnmarked (kindLine known e).toList := by
  have hscope : Unmarked ((e.scope.map fun s => s.name ++ " ").getD "").toList := by
    cases e.scope with
    | none => decide
    | some scope => cases scope <;> decide
  intro line hline
  rw [Option.mem_toList, kindLine] at hline
  split at hline
  · cases hline
  · split at hline
    · cases hline
      exact Unmarked.concat (by decide) (unmarked_kindWord false e)
    · next memberof hmemberof =>
      have hname : Unmarked memberof.toList := h memberof (by simp [Entry.texts, hmemberof])
      have hlink : Unmarked (parentLink known e memberof).toList := unmarked_parentLink hknown hname
      split at hline
      · cases hline
        exact Unmarked.concat (by decide) hlink
      · cases hline
        have hkind := (Unmarked.concat (by decide : Unmarked "**Kind**: ".toList) hscope).concat
          (unmarked_kindWord true e)
        exact (hkind.concat (by decide)).concat hlink

theorem unmarked_namesLine {label : String} (hlabel : Unmarked label.toList)
    {names : List String} (h : AllUnmarked names) :
    AllUnmarked (namesLine known label names) := by
  rw [namesLine]
  split
  · exact List.forall_mem_nil _
  · have hlead := (Unmarked.concat (by decide : Unmarked "**".toList) hlabel).concat
      (by decide : Unmarked "**: ".toList)
    refine List.forall_mem_singleton.mpr (hlead.concat (Unmarked.intercalate (by decide) ?_))
    exact h.map fun name => unmarked_linkedName hknown

theorem unmarked_seeLine {see : String} (h : Unmarked see.toList) :
    Unmarked (seeLine known see).toList := by
  rw [seeLine]
  refine Unmarked.concat (by decide) ?_
  split
  · exact unmarked_linkify hknown h
  · exact unmarked_linkedName hknown h

theorem unmarked_factLines (h : AllUnmarked e.texts) : AllUnmarked (factLines known e) := by
  have hnames {label : String} {names : List String} (hlabel : Unmarked label.toList)
      (hnames : names ∈ e.tags.textsByTag) : AllUnmarked (namesLine known label names) :=
    unmarked_namesLine hknown hlabel (h.tag hnames)
  have hlabelled {text : Option String} (label : String) (hlabel : Unmarked label.toList)
      (htext : text.toList ∈ e.tags.textsByTag) : AllUnmarked (text.map (label ++ ·)).toList :=
    (h.tag htext).optionMap fun text => hlabel.concat
  simp only [factLines, allUnmarked_append, and_assoc]
  refine ⟨unmarked_kindLine hknown h, hnames (by decide) (by simp [Tags.textsByTag]),
    hnames (by decide) (by simp [Tags.textsByTag]), hnames (by decide) (by simp [Tags.textsByTag]),
    ?readonly, ?default, ?access, hlabelled _ (by decide) (by simp [Tags.textsByTag]),
    hlabelled _ (by decide) (by simp [Tags.textsByTag]),
    hlabelled _ (by decide) (by simp [Tags.textsByTag]), ?author, ?see, ?todo, ?custom⟩
  case readonly => cases e.tags.readonly <;> decide
  case default =>
    exact AllUnmarked.optionMap (h.tag (by simp [Tags.textsByTag])) fun text htext =>
      Unmarked.concat (Unmarked.concat (by decide) (unmarked_escapeHtml htext)) (by decide)
  case access =>
    cases e.tags.access with
    | none => decide
    | some access => cases access <;> decide
  case author =>
    exact AllUnmarked.map (h.tag (by simp [Tags.textsByTag])) fun text htext =>
      Unmarked.concat (by decide) (unmarked_escapeHtml htext)
  case see =>
    exact AllUnmarked.map (h.tag (by simp [Tags.textsByTag])) fun text => unmarked_seeLine hknown
  case todo =>
    exact AllUnmarked.map (h.tag (by simp [Tags.textsByTag])) fun text htext =>
      Unmarked.concat (by decide) (unmarked_linkify hknown htext)
  case custom =>
    intro line hline
    obtain ⟨t, ht, rfl⟩ := List.mem_map.mp hline
    refine unmarked_customLine fun text htext => ?_
    exact h.tag (by simp [Tags.textsByTag]) text (List.mem_flatMap.mpr ⟨t, ht, htext⟩)

theorem harmless_returnedText (h : AllUnmarked r.texts) :
    Harmless (returnedText known r).toList := by
  have htype : Harmless ((r.type.map (linkedType known)).getD "").toList := by
    refine harmless_getD fun t ht => harmless_linkedType hknown fun text htext => ?_
    exact h text (by simp [Returned.texts, Option.mem_def.mp ht, htext])
  have hdescription : Harmless ((r.description.map (linkify known)).getD "").toList := by
    refine harmless_getD fun text htext => (unmarked_linkify hknown ?_).harmless
    exact h text (by simp [Returned.texts, Option.mem_def.mp htext])
  rw [returnedText]
  split_ifs
  · exact hdescription
  · exact htype
  · exact (htype.concat (by decide)).concat hdescription

theorem unmarked_deprecation {note : String} (h : Unmarked note.toList) :
    Unmarked (deprecation known note).toList := by
  rw [deprecation]
  split
  · next text htext =>
    rw [Text.nonEmpty?] at htext
    split at htext
    · cases htext
    · cases htext
      refine Unmarked.concat (by decide) (unmarked_linkify hknown ?_)
      rw [String.toList_ofList]
      exact h.trim
  · decide

end Section

structure Formats.Tableless (f : Formats) : Prop where
  moduleIndex : f.moduleIndex ≠ .table
  globalIndex : f.globalIndex ≠ .table
  paramList : f.paramList = .list
  propertyList : f.propertyList = .list

theorem tableless_of {o : RenderOptions} (h : o.gfm = false) : (Formats.of o).Tableless := by
  have hindex (f : IndexFormat) : f.inEffect false ≠ .table := by cases f <;> decide
  rw [Formats.of, h]
  exact ⟨hindex _, hindex _, rfl, rfl⟩

structure ParamRow.IsHarmless (r : ParamRow) : Prop where
  name : Harmless r.name.toList
  type : Harmless r.type.toList
  default : Harmless r.default.toList
  description : Harmless r.description.toList

structure IndexRow.IsHarmless (r : IndexRow) : Prop where
  name : Harmless r.name.toList
  anchor : Harmless r.anchor.toList
  suffix : Harmless r.suffix.toList
  summary : Harmless r.summary.toList

structure IndexGroup.IsHarmless (g : IndexGroup) : Prop where
  title : Harmless g.title.toList
  rows : ∀ r ∈ g.rows, r.IsHarmless

structure Section.IsHarmless (s : Section) : Prop where
  anchor : Harmless s.anchor.toList
  heading : Harmless s.heading.toList
  deprecated : ∀ text ∈ s.deprecated, Harmless text.toList
  description : ∀ text ∈ s.description, Harmless text.toList
  facts : ∀ text ∈ s.facts, Harmless text.toList
  returns : ∀ text ∈ s.returns, Harmless text.toList
  throws : ∀ text ∈ s.throws, Harmless text.toList
  params : ∀ r ∈ s.params, r.IsHarmless
  properties : ∀ r ∈ s.properties, r.IsHarmless
  memberIndex : ∀ r ∈ s.memberIndex, Harmless r.text.toList
  examples : ∀ x ∈ s.examples, AllUnmarked x.texts

structure View.IsHarmless (v : View) : Prop where
  indexHeading : Harmless v.indexHeading.toList
  moduleIndex : ∀ r ∈ v.moduleIndex, r.IsHarmless
  globalIndex : ∀ g ∈ v.globalIndex, g.IsHarmless
  sections : ∀ s ∈ v.sections, s.IsHarmless

section Pages

variable {entries : List Entry} {o : RenderOptions}

theorem unmarked_firstParagraph {text : String} (h : Unmarked text.toList) :
    Unmarked (firstParagraph text).toList := by
  rw [firstParagraph, String.toList_ofList]
  refine Unmarked.trim ?_
  cases hcut : Text.splitAt? ['\n', '\n'] text.toList with
  | none => exact h
  | some parts =>
    rw [Text.eq_append_of_splitAt? hcut, List.append_assoc, Text.unmarked_append] at h
    exact h.1

theorem exists_kind_of_mem_globalIndex {g : IndexGroup} (h : g ∈ globalIndex entries o) :
    ∃ kind : Kind, g.title = kind.plural := by
  obtain ⟨kind, -, hgroup⟩ := List.mem_filterMap.mp h
  refine ⟨kind, ?_⟩
  rw [indexGroup?] at hgroup
  split at hgroup
  · cases hgroup
  · cases hgroup
    rfl

variable (hentries : ∀ e ∈ entries, AllUnmarked e.texts)

include hentries

theorem isHarmless_paramRow {p : Param} (h : AllUnmarked p.texts) :
    (Section.paramRow entries .list p).IsHarmless where
  name := (unmarked_shownName (h p.name List.mem_cons_self)).harmless
  type := Section.harmless_getD fun t ht => harmless_linkedType hentries fun text htext =>
    h text (by simp [Param.texts, Option.mem_def.mp ht, htext])
  default := Section.harmless_getD fun text htext =>
    (unmarked_code (h text (by simp [Param.texts, Option.mem_def.mp htext]))).harmless
  description := Section.harmless_getD fun text htext =>
    (unmarked_linkify hentries (h text (by simp [Param.texts, Option.mem_def.mp htext]))).harmless

theorem isHarmless_indexRow {e : Entry} (he : e ∈ entries) :
    (IndexRow.of entries .plain false e).IsHarmless where
  name := (unmarked_signature (hentries e he)).harmless
  anchor := (unmarked_anchor (hentries e he)).harmless
  suffix := harmless_signatureType hentries (hentries e he)
  summary := Section.harmless_getD fun text htext => by
    have hunmarked := (hentries e he).note htext (by simp [Tags.textsByTag])
    exact (unmarked_firstParagraph (unmarked_linkify hentries hunmarked)).harmless

theorem harmless_memberIndex (hplain : o.nameFormat = .plain) {node : Node}
    (h : Outline.Reached entries node) :
    ∀ r ∈ MemberIndex.of entries o node, Harmless r.text.toList := by
  intro r hr
  cases View.rowOf_of_mem_memberIndex h r hr with
  | label g depth =>
    have hlabel : Harmless ("_" ++ g.label ++ "_").toList := by cases g <;> decide
    exact hlabel
  | @owner owner howner =>
    have htexts := hentries owner.1 (List.fst_mem_of_mem_zipIdx howner.mem)
    have hlink := (Unmarked.concat (by decide : Unmarked "[".toList) htexts.name).concat
      (by decide : Unmarked "](#".toList)
    rw [hplain]
    exact ((hlink.concat (unmarked_anchor htexts)).concat (by decide)).harmless
  | @member kid hkid depth =>
    rw [hplain]
    exact harmless_rowText hentries (hentries kid.1 (List.fst_mem_of_mem_zipIdx hkid.mem))

theorem isHarmless_section (hgfm : o.gfm = false) (hplain : o.nameFormat = .plain) {node : Node}
    (hnode : Outline.Reached entries node) (level : Nat) :
    (Section.of entries o node level).IsHarmless := by
  have htexts := hentries node.1 (List.fst_mem_of_mem_zipIdx hnode.mem)
  constructor
  case anchor => exact (unmarked_anchor htexts).harmless
  case heading =>
    rw [Section.of, hplain]
    exact harmless_heading hentries htexts
  case deprecated =>
    intro text htext
    obtain ⟨note, hnote, rfl⟩ := Option.map_eq_some_iff.mp htext
    have hunmarked := htexts.note hnote (by simp [Tags.textsByTag])
    exact (Section.unmarked_deprecation hentries hunmarked).harmless
  case description =>
    intro text htext
    obtain ⟨note, hnote, rfl⟩ := Option.map_eq_some_iff.mp htext
    have hunmarked := htexts.note hnote (by simp [Tags.textsByTag])
    exact (unmarked_linkify hentries hunmarked).harmless
  case facts =>
    intro line hline
    exact (Section.unmarked_factLines hentries htexts line hline).harmless
  case returns =>
    intro text htext
    obtain ⟨r, hr, rfl⟩ := List.mem_map.mp (List.mem_of_mem_filter htext)
    exact Section.harmless_returnedText hentries (htexts.returned (.inl hr))
  case throws =>
    intro text htext
    obtain ⟨r, hr, rfl⟩ := List.mem_map.mp (List.mem_of_mem_filter htext)
    exact Section.harmless_returnedText hentries (htexts.returned (.inr hr))
  case params =>
    intro row hrow
    obtain ⟨p, hp, rfl⟩ := List.mem_map.mp hrow
    rw [(tableless_of hgfm).paramList]
    exact isHarmless_paramRow hentries (htexts.param (.inl hp))
  case properties =>
    intro row hrow
    obtain ⟨p, hp, rfl⟩ := List.mem_map.mp hrow
    rw [(tableless_of hgfm).propertyList]
    exact isHarmless_paramRow hentries (htexts.param (.inr hp))
  case memberIndex => exact harmless_memberIndex hentries hplain hnode
  case examples =>
    intro x hx text htext
    have hcode : text ∈ node.1.examples.flatMap Example.texts := List.mem_flatMap.mpr ⟨x, hx, htext⟩
    exact htexts text (by simp [Entry.texts, hcode])

theorem isHarmless_view (hgfm : o.gfm = false) (hplain : o.nameFormat = .plain) :
    (View.of entries o).IsHarmless := by
  have hmem {e : Entry} (he : e ∈ (Outline.top entries).map (·.1)) : e ∈ entries := by
    obtain ⟨node, hnode, rfl⟩ := List.mem_map.mp he
    exact List.fst_mem_of_mem_zipIdx (Outline.mem_top.mp hnode).1
  constructor
  case indexHeading =>
    refine Unmarked.harmless fun c hc => ?_
    rw [View.of, String.toList_ofList] at hc
    rw [List.eq_of_mem_replicate hc]
    decide
  case moduleIndex =>
    intro r hr
    obtain ⟨e, he, -, rfl⟩ := mem_moduleIndex.mp hr
    rw [hplain, decide_eq_false (tableless_of hgfm).moduleIndex]
    exact isHarmless_indexRow hentries (hmem he)
  case globalIndex =>
    intro g hg
    constructor
    case title =>
      obtain ⟨kind, hkind⟩ := exists_kind_of_mem_globalIndex hg
      rw [hkind]
      cases kind <;> decide
    case rows =>
      intro r hr
      obtain ⟨e, he, -, rfl⟩ := mem_globalIndex.mp ⟨g, hg, hr⟩
      rw [hplain, decide_eq_false (tableless_of hgfm).globalIndex]
      exact isHarmless_indexRow hentries (hmem he)
  case sections =>
    intro s hs
    obtain ⟨visited, hvisited, rfl⟩ := List.mem_map.mp hs
    exact isHarmless_section hentries hgfm hplain (Outline.reached_of_mem_walk _ hvisited).1 _

end Pages

end ApiPages
