import ApiPages.Proofs.HarmlessView
import ApiPages.Proofs.Template.Laying

/-!
The default layout, template by template. On a page that shows nothing but harmless texts, with
tables and fences off, every template runs without a fault and leaves a harmless text.
-/
namespace ApiPages.Template

open Text (Harmless Unmarked)

section Filters

variable {s : Stage} {path : String}

theorem value_heading {n : Nat} (h : s.lookup path = .ok (.whole n)) :
    value s (.filtered (.path path) "heading" []) = .ok (.string (Filter.heading n)) := by
  refine value_filtered h rfl (by rw [argValues]) ?_
  simp [Filter.apply, Filter.numberArg, Json.whole, Except.map]

theorem value_nest {n : Nat} (h : s.lookup path = .ok (.whole n)) :
    value s (.filtered (.path path) "nest" []) = .ok (.string (Filter.nest n)) := by
  refine value_filtered h rfl (by rw [argValues]) ?_
  simp [Filter.apply, Filter.numberArg, Json.whole, Except.map]

theorem value_codeBlock {code lang : String} {gfm : Bool} (h : s.lookup path = .ok (.string code))
    (hlang : s.lookup "options.example_lang" = .ok (.string lang))
    (hgfm : s.lookup "options.gfm" = .ok (.bool gfm)) :
    value s (.filtered (.path path) "code_block"
      [("lang", .path "options.example_lang"), ("gfm", .path "options.gfm")]) =
        .ok (.string (Filter.codeBlock gfm lang code)) := by
  have hargs : argValues s ["lang", "gfm"]
      [("lang", .path "options.example_lang"), ("gfm", .path "options.gfm")] =
        .ok [("lang", .string lang), ("gfm", .bool gfm)] := by
    simp [argValues, value, hlang, hgfm, Except.bind, bind, pure, Except.pure]
  refine value_filtered h rfl hargs ?_
  simp [Filter.apply, Filter.textArg, Filter.arg?, Except.map]

theorem unmarked_replicate {c : Char} (h : Unmarked [c]) (n : Nat) :
    Unmarked (String.ofList (List.replicate n c)).toList := by
  rw [String.toList_ofList]
  intro d hd
  exact h d (List.mem_singleton.mpr (List.eq_of_mem_replicate hd))

theorem harmless_codeBlock {code : String} (h : Harmless code.toList) (lang : String) :
    Harmless (Filter.codeBlock false lang code).toList := by
  have hlines : ∀ line ∈ (Text.lines code.toList).map Filter.indentLine, Harmless line := by
    intro line hline
    obtain ⟨plain, hplain, rfl⟩ := List.mem_map.mp hline
    rw [Filter.indentLine]
    split
    · exact Text.harmless_nil
    · exact Harmless.append (a := [' ', ' ', ' ', ' ']) (by decide) (h.lines plain hplain)
  rw [Filter.codeBlock, String.toList_ofList]
  exact Harmless.append (a := ['\n']) (by decide) (Harmless.join (by decide) hlines)

end Filters

section Sections

variable {v : View} {sec : Section} {s : Stage} {name path : String} {body : List Node}

def Stage.InSection (s : Stage) (v : View) (sec : Section) : Prop :=
  s.Sees v.toJson [("section", sec.toJson)]

variable (hs : s.InSection v sec) (hsec : sec.IsHarmless)

include hs

theorem lays_paramBullets {rows : List ParamRow}
    (hlookup : s.lookup path = .ok (.array (rows.map ParamRow.toJson)))
    (hrows : ∀ r ∈ rows, r.IsHarmless) : s.Lays (Layout.paramBullets path) := by
  refine lays_of_forall ?_
  simp only [Layout.paramBullets, List.forall_mem_cons]
  refine ⟨laysOne_each hlookup fun item hitem i n => ?_, laysOne_text (by decide),
    List.forall_mem_nil _⟩
  obtain ⟨r, hr, rfl⟩ := List.mem_map.mp hitem
  have hrow : (s.inLoop "p" r.toJson i n).Sees v.toJson
      [("p", r.toJson), ("section", sec.toJson)] := hs.inLoop rfl rfl r.toJson i n
  generalize s.inLoop "p" r.toJson i n = s' at hrow ⊢
  have hname : s'.lookup "p.name" = .ok (.string r.name) :=
    hrow.lookup_ok "p" ["name"] (by decide) (by decide) rfl
  have htype : s'.lookup "p.type" = .ok (.string r.type) :=
    hrow.lookup_ok "p" ["type"] (by decide) (by decide) rfl
  have hdefault : s'.lookup "p.default" = .ok (.string r.default) :=
    hrow.lookup_ok "p" ["default"] (by decide) (by decide) rfl
  have hdescription : s'.lookup "p.description" = .ok (.string r.description) :=
    hrow.lookup_ok "p" ["description"] (by decide) (by decide) rfl
  refine lays_of_forall ?_
  simp only [List.forall_mem_cons]
  refine ⟨laysOne_text (by decide), laysOne_put hname (hrows r hr).name,
    laysOne_givenText [Layout.say " "] [] htype (hrows r hr).type ?_ (List.forall_mem_nil _),
    laysOne_givenText [Layout.say " = "] [] hdefault (hrows r hr).default ?_
      (List.forall_mem_nil _),
    laysOne_givenText [Layout.say " - "] [] hdescription (hrows r hr).description ?_
      (List.forall_mem_nil _), laysOne_text (by decide), List.forall_mem_nil _⟩
  all_goals exact laysOne_say (by decide)

include hsec

theorem lays_header : s.Lays Layout.header := by
  have hlevel : s.lookup "section.level" = .ok (.whole sec.level) :=
    hs.lookup_ok "section" ["level"] (by decide) (by decide) rfl
  have hheading : s.lookup "section.heading" = .ok (.string sec.heading) :=
    hs.lookup_ok "section" ["heading"] (by decide) (by decide) rfl
  refine lays_of_forall ?_
  simp only [Layout.header, List.forall_mem_cons]
  refine ⟨laysOne_print (value_heading hlevel) (unmarked_replicate (by decide) _).harmless,
    laysOne_text (by decide), laysOne_put hheading hsec.heading, laysOne_text (by decide),
    List.forall_mem_nil _⟩

theorem lays_facts : s.Lays Layout.facts := by
  have hfacts : s.lookup "section.meta" = .ok (.array (sec.facts.map .string)) :=
    hs.lookup_ok "section" ["meta"] (by decide) (by decide) rfl
  refine lays_singleton ?_
  exact laysOne_lines [] hfacts hsec.facts (hs.variable_ok (by decide) (by decide) rfl rfl)
    fun _ => List.forall_mem_nil _

theorem lays_returns : s.Lays Layout.returns := by
  have hreturns : s.lookup "section.returns" = .ok (.array (sec.returns.map .string)) :=
    hs.lookup_ok "section" ["returns"] (by decide) (by decide) rfl
  refine lays_singleton ?_
  exact laysOne_lines [Layout.say "**Returns**: "] hreturns hsec.returns
    (hs.variable_ok (by decide) (by decide) rfl rfl) fun _ => laysOne_say (by decide)

theorem lays_throws : s.Lays Layout.throws := by
  have hthrows : s.lookup "section.throws" = .ok (.array (sec.throws.map .string)) :=
    hs.lookup_ok "section" ["throws"] (by decide) (by decide) rfl
  refine lays_singleton ?_
  exact laysOne_lines [Layout.say "**Throws**: "] hthrows hsec.throws
    (hs.variable_ok (by decide) (by decide) rfl rfl) fun _ => laysOne_say (by decide)

theorem lays_params (hformats : v.formats.Tableless) : s.Lays Layout.params := by
  have hformat : s.lookup "formats.param_list" = .ok (.string v.formats.paramList.name) :=
    hs.lookup_ok "formats" ["param_list"] (by decide) (by decide) rfl
  have hname : v.formats.paramList.name ≠ "table" := by rw [hformats.paramList]; decide
  have hparams : s.lookup "section.params" = .ok (.array (sec.params.map ParamRow.toJson)) :=
    hs.lookup_ok "section" ["params"] (by decide) (by decide) rfl
  have hbullets : s.Lays (Layout.say "**Params**\n\n" :: Layout.paramBullets "section.params") :=
    (lays_paramBullets hs hparams hsec.params).cons (laysOne_text (by decide))
  refine lays_singleton (laysOne_given fun _ _ _ => ?_)
  refine lays_of_forall ?_
  simp only [List.forall_mem_cons]
  exact ⟨laysOne_untabled hformat hname hbullets, laysOne_text (by decide), List.forall_mem_nil _⟩

theorem lays_properties (hformats : v.formats.Tableless) : s.Lays Layout.properties := by
  have hformat : s.lookup "formats.property_list" = .ok (.string v.formats.propertyList.name) :=
    hs.lookup_ok "formats" ["property_list"] (by decide) (by decide) rfl
  have hname : v.formats.propertyList.name ≠ "table" := by rw [hformats.propertyList]; decide
  have hproperties : s.lookup "section.properties" =
      .ok (.array (sec.properties.map ParamRow.toJson)) :=
    hs.lookup_ok "section" ["properties"] (by decide) (by decide) rfl
  have hbullets := lays_paramBullets hs hproperties hsec.properties
  refine lays_singleton (laysOne_given fun _ _ _ => ?_)
  refine lays_of_forall ?_
  simp only [List.forall_mem_cons]
  exact ⟨laysOne_text (by decide), laysOne_untabled hformat hname hbullets,
    laysOne_text (by decide), List.forall_mem_nil _⟩

theorem lays_memberIndex : s.Lays Layout.memberIndex := by
  have hrows : s.lookup "section.member_index" =
      .ok (.array (sec.memberIndex.map MemberRow.toJson)) :=
    hs.lookup_ok "section" ["member_index"] (by decide) (by decide) rfl
  refine lays_singleton (laysOne_given fun _ _ _ => ?_)
  refine lays_of_forall ?_
  simp only [List.forall_mem_cons]
  refine ⟨laysOne_each hrows fun item hitem i n => ?_, laysOne_text (by decide),
    List.forall_mem_nil _⟩
  obtain ⟨r, hr, rfl⟩ := List.mem_map.mp hitem
  have hrow : (s.inLoop "row" r.toJson i n).Sees v.toJson
      [("row", r.toJson), ("section", sec.toJson)] := hs.inLoop rfl rfl r.toJson i n
  generalize s.inLoop "row" r.toJson i n = s' at hrow ⊢
  have hdepth : s'.lookup "row.depth" = .ok (.whole r.depth) :=
    hrow.lookup_ok "row" ["depth"] (by decide) (by decide) rfl
  have htext : s'.lookup "row.text" = .ok (.string r.text) :=
    hrow.lookup_ok "row" ["text"] (by decide) (by decide) rfl
  refine lays_of_forall ?_
  simp only [List.forall_mem_cons]
  exact ⟨laysOne_print (value_nest hdepth) (unmarked_replicate (by decide) _).harmless,
    laysOne_text (by decide), laysOne_put htext (hsec.memberIndex r hr), laysOne_text (by decide),
    List.forall_mem_nil _⟩

theorem lays_examples (hgfm : v.options.gfm = false) : s.Lays Layout.examples := by
  have hexamples : s.lookup "section.examples" =
      .ok (.array (sec.examples.map Example.codec.encode)) :=
    hs.lookup_ok "section" ["examples"] (by decide) (by decide) rfl
  refine lays_singleton ?_
  refine laysOne_each hexamples fun item hitem i n => ?_
  obtain ⟨⟨caption, code⟩, hx, rfl⟩ := List.mem_map.mp hitem
  have hexample : (s.inLoop "example" (Example.codec.encode ⟨caption, code⟩) i n).Sees v.toJson
      [("example", Example.codec.encode ⟨caption, code⟩), ("section", sec.toJson)] :=
    hs.inLoop rfl rfl _ i n
  generalize s.inLoop "example" (Example.codec.encode ⟨caption, code⟩) i n = s' at hexample ⊢
  have hcode : s'.lookup "example.code" = .ok (.string code) := by
    refine hexample.lookup_ok "example" ["code"] (by decide) (by decide) ?_
    cases caption <;> rfl
  have hlang : s'.lookup "options.example_lang" = .ok (.string v.options.exampleLang) :=
    hexample.lookup_ok "options" ["example_lang"] (by decide) (by decide) rfl
  have hfences : s'.lookup "options.gfm" = .ok (.bool false) := by
    rw [← hgfm]
    exact hexample.lookup_ok "options" ["gfm"] (by decide) (by decide) rfl
  have htexts := hsec.examples _ hx
  have hblock : Harmless (shown (.string (Filter.codeBlock false v.options.exampleLang code))) :=
    harmless_codeBlock (htexts code List.mem_cons_self).harmless _
  refine lays_of_forall ?_
  simp only [List.forall_mem_cons]
  refine ⟨laysOne_text (by decide), ?caption, laysOne_text (by decide),
    laysOne_print (value_codeBlock hcode hlang hfences) hblock, laysOne_text (by decide),
    List.forall_mem_nil _⟩
  case caption =>
    cases caption with
    | none =>
      -- The field of an absent caption is left out, and a condition on it does not hold.
      have hmissing : s'.lookup "example.caption" =
          .error (.missingVariable "example.caption" s'.template) :=
        hexample.lookup_eq "example" ["caption"] (by decide) (by decide)
      refine laysOne_given fun w hw _ => ?_
      rw [hmissing] at hw
      cases hw
    | some caption =>
      have hcaption : s'.lookup "example.caption" = .ok (.string caption) :=
        hexample.lookup_ok "example" ["caption"] (by decide) (by decide) rfl
      exact laysOne_givenText [Layout.say " *("] [Layout.say ")*"] hcaption
        (htexts caption (by simp [Example.texts])).harmless (laysOne_say (by decide))
        (laysOne_say (by decide))

variable {templates : List Named} {depth : Nat}

theorem lays_docs (htemplates : ∀ t ∈ Layout.templates, find? templates t.name = some t)
    (huses : s.Uses templates (depth + 1)) (hformats : v.formats.Tableless)
    (hgfm : v.options.gfm = false) : s.Lays Layout.docs := by
  have hanchor : s.lookup "section.anchor" = .ok (.string sec.anchor) :=
    hs.lookup_ok "section" ["anchor"] (by decide) (by decide) rfl
  have hdeprecated : s.lookup "section.deprecated" =
      .ok (Codec.text.optional.encode sec.deprecated) :=
    hs.lookup_ok "section" ["deprecated"] (by decide) (by decide) rfl
  have hdescription : s.lookup "section.description" =
      .ok (Codec.text.optional.encode sec.description) :=
    hs.lookup_ok "section" ["description"] (by decide) (by decide) rfl
  have hpart {name : String} {nodes : List Node} (ht : ⟨name, nodes⟩ ∈ Layout.templates)
      (h : ∀ s' : Stage, s'.InSection v sec → s'.Lays nodes) : s.LaysOne (.use name) :=
    laysOne_part htemplates huses hs ht fun s' hs' _ => h s' hs'
  refine lays_of_forall ?_
  simp only [Layout.docs, List.forall_mem_cons]
  refine ⟨laysOne_text (by decide), laysOne_put hanchor hsec.anchor, laysOne_text (by decide),
    hpart (by simp [Layout.templates]) fun s' hs' => lays_header hs' hsec, laysOne_text (by decide),
    laysOne_givenNote _ hdeprecated hsec.deprecated (laysOne_say (by decide)),
    laysOne_givenNote _ hdescription hsec.description (laysOne_say (by decide)),
    hpart (by simp [Layout.templates]) fun s' hs' => lays_facts hs' hsec, laysOne_text (by decide),
    hpart (by simp [Layout.templates]) fun s' hs' => lays_returns hs' hsec,
    laysOne_text (by decide),
    hpart (by simp [Layout.templates]) fun s' hs' => lays_throws hs' hsec, laysOne_text (by decide),
    hpart (by simp [Layout.templates]) fun s' hs' => lays_params hs' hsec hformats,
    laysOne_text (by decide),
    hpart (by simp [Layout.templates]) fun s' hs' => lays_properties hs' hsec hformats,
    laysOne_text (by decide),
    hpart (by simp [Layout.templates]) fun s' hs' => lays_memberIndex hs' hsec,
    laysOne_text (by decide),
    hpart (by simp [Layout.templates]) fun s' hs' => lays_examples hs' hsec hgfm,
    laysOne_text (by decide),
    laysOne_given fun _ _ _ => lays_of_forall (laysOne_say (by decide)), laysOne_text (by decide),
    List.forall_mem_nil _⟩

end Sections

section Indexes

variable {v : View} {s : Stage} {bound : List (String × Json)} {path rows : String}
  {suffix : List Node}

theorem laysOne_rowLink {r : IndexRow} (hs : s.Sees v.toJson (("row", r.toJson) :: bound))
    (hr : r.IsHarmless) : ∀ node ∈ Layout.rowLink, s.LaysOne node := by
  have hname : s.lookup "row.name" = .ok (.string r.name) :=
    hs.lookup_ok "row" ["name"] (by decide) (by decide) rfl
  have hanchor : s.lookup "row.anchor" = .ok (.string r.anchor) :=
    hs.lookup_ok "row" ["anchor"] (by decide) (by decide) rfl
  simp only [Layout.rowLink, List.forall_mem_cons]
  exact ⟨laysOne_text (by decide), laysOne_put hname hr.name, laysOne_text (by decide),
    laysOne_put hanchor hr.anchor, laysOne_text (by decide), List.forall_mem_nil _⟩

theorem lays_bullet {r : IndexRow} (hs : s.Sees v.toJson (("row", r.toJson) :: bound))
    (hr : r.IsHarmless) (hsuffix : ∀ node ∈ suffix, s.LaysOne node) :
    s.Lays (Layout.say "* " :: Layout.rowLink ++ suffix ++ [Layout.say "\n"]) := by
  refine lays_of_forall ?_
  simp only [List.forall_mem_append, List.forall_mem_cons]
  exact ⟨⟨⟨laysOne_text (by decide), laysOne_rowLink hs hr⟩, hsuffix⟩, laysOne_text (by decide),
    List.forall_mem_nil _⟩

theorem lays_definition {r : IndexRow} (hs : s.Sees v.toJson (("row", r.toJson) :: bound))
    (hr : r.IsHarmless) (hsuffix : ∀ node ∈ suffix, s.LaysOne node) :
    s.Lays ([Layout.say "<dt><a href=\"#", Layout.put "row.anchor", Layout.say "\">",
        Layout.put "row.name", Layout.say "</a>"] ++ suffix ++
      [Layout.say "</dt>\n<dd>", Layout.given "row.summary" [Layout.say "<p>",
        Layout.put "row.summary", Layout.say "</p>"], Layout.say "\n</dd>\n"]) := by
  have hname : s.lookup "row.name" = .ok (.string r.name) :=
    hs.lookup_ok "row" ["name"] (by decide) (by decide) rfl
  have hanchor : s.lookup "row.anchor" = .ok (.string r.anchor) :=
    hs.lookup_ok "row" ["anchor"] (by decide) (by decide) rfl
  have hsummary : s.lookup "row.summary" = .ok (.string r.summary) :=
    hs.lookup_ok "row" ["summary"] (by decide) (by decide) rfl
  refine lays_of_forall ?_
  simp only [List.forall_mem_append, List.forall_mem_cons]
  refine ⟨⟨⟨laysOne_text (by decide), laysOne_put hanchor hr.anchor, laysOne_text (by decide),
    laysOne_put hname hr.name, laysOne_text (by decide), List.forall_mem_nil _⟩, hsuffix⟩,
    laysOne_text (by decide), ?summary, laysOne_text (by decide), List.forall_mem_nil _⟩
  case summary =>
    exact laysOne_givenText [Layout.say "<p>"] [Layout.say "</p>"] hsummary hr.summary
      (laysOne_say (by decide)) (laysOne_say (by decide))

theorem laysOne_index {format : IndexFormat} (subject : String) {items : List IndexRow}
    (hs : s.Sees v.toJson bound) (hbound : bound.lookup "row" = none)
    (hformat : s.lookup path = .ok (.string format.name)) (htable : format ≠ .table)
    (hrows : s.lookup rows = .ok (.array (items.map IndexRow.toJson)))
    (hitems : ∀ r ∈ items, r.IsHarmless)
    (hsuffix : ∀ r ∈ items, ∀ s' : Stage, s'.Sees v.toJson (("row", r.toJson) :: bound) →
      ∀ node ∈ suffix, s'.LaysOne node) : s.LaysOne (Layout.index path subject rows suffix) := by
  have hloop {body : List Node} (h : ∀ r ∈ items, ∀ s' : Stage,
      s'.Sees v.toJson (("row", r.toJson) :: bound) → s'.Lays body) :
      s.LaysOne (Layout.each "row" rows body) := by
    refine laysOne_each hrows fun item hitem i n => ?_
    obtain ⟨r, hr, rfl⟩ := List.mem_map.mp hitem
    exact h r hr _ (hs.inLoop hbound rfl r.toJson i n)
  have hname : format.name ≠ "table" := by
    cases format with
    | table => exact absurd rfl htable
    | off | grouped | definitions => decide
  refine laysOne_untabled hformat hname (lays_singleton ?_)
  refine laysOne_branch (holds_is hformat "grouped") (fun _ => lays_of_forall ?_)
    fun _ => lays_of_forall ?_
  · simp only [Layout.indexBullets, List.forall_mem_cons]
    exact ⟨hloop fun r hr s' hs' => lays_bullet hs' (hitems r hr) (hsuffix r hr s' hs'),
      laysOne_text (by decide), List.forall_mem_nil _⟩
  · simp only [Layout.indexDefinitions, List.forall_mem_cons]
    exact ⟨laysOne_text (by decide),
      hloop fun r hr s' hs' => lays_definition hs' (hitems r hr) (hsuffix r hr s' hs'),
      laysOne_text (by decide), List.forall_mem_nil _⟩

variable (hs : s.Sees v.toJson []) (hv : v.IsHarmless) (hformats : v.formats.Tableless)

include hs hv hformats

theorem lays_moduleIndex : s.Lays Layout.moduleIndex := by
  have hformat : s.lookup "formats.module_index" = .ok (.string v.formats.moduleIndex.name) :=
    hs.lookup_ok "formats" ["module_index"] (by decide) (by decide) rfl
  have hheading : s.lookup "index_heading" = .ok (.string v.indexHeading) :=
    hs.lookup_ok "index_heading" [] (by decide) (by decide) rfl
  have hrows : s.lookup "module_index" = .ok (.array (v.moduleIndex.map IndexRow.toJson)) :=
    hs.lookup_ok "module_index" [] (by decide) (by decide) rfl
  refine lays_singleton ?_
  refine laysOne_branch (holds_and (holds_path s "module_index") (holds_isNot hformat "none"))
    (fun _ => lays_of_forall ?_) fun _ => lays_of_forall (List.forall_mem_nil _)
  simp only [List.forall_mem_cons]
  exact ⟨laysOne_put hheading hv.indexHeading, laysOne_text (by decide),
    laysOne_index "Module" hs rfl hformat hformats.moduleIndex hrows hv.moduleIndex
      fun _ _ _ _ => List.forall_mem_nil _, laysOne_text (by decide), List.forall_mem_nil _⟩

theorem lays_globalIndex : s.Lays Layout.globalIndex := by
  have hformat : s.lookup "formats.global_index" = .ok (.string v.formats.globalIndex.name) :=
    hs.lookup_ok "formats" ["global_index"] (by decide) (by decide) rfl
  have hgroups : s.lookup "global_index" = .ok (.array (v.globalIndex.map IndexGroup.toJson)) :=
    hs.lookup_ok "global_index" [] (by decide) (by decide) rfl
  refine lays_singleton ?_
  refine laysOne_branch (holds_isNot hformat "none") (fun _ => ?_)
    fun _ => lays_of_forall (List.forall_mem_nil _)
  refine lays_singleton (laysOne_each hgroups fun item hitem i n => ?_)
  obtain ⟨g, hg, rfl⟩ := List.mem_map.mp hitem
  have hgroup : (s.inLoop "group" g.toJson i n).Sees v.toJson [("group", g.toJson)] :=
    hs.inLoop rfl rfl g.toJson i n
  generalize s.inLoop "group" g.toJson i n = s' at hgroup ⊢
  have hformat : s'.lookup "formats.global_index" = .ok (.string v.formats.globalIndex.name) :=
    hgroup.lookup_ok "formats" ["global_index"] (by decide) (by decide) rfl
  have hheading : s'.lookup "index_heading" = .ok (.string v.indexHeading) :=
    hgroup.lookup_ok "index_heading" [] (by decide) (by decide) rfl
  have htitle : s'.lookup "group.title" = .ok (.string g.title) :=
    hgroup.lookup_ok "group" ["title"] (by decide) (by decide) rfl
  have hrows : s'.lookup "group.rows" = .ok (.array (g.rows.map IndexRow.toJson)) :=
    hgroup.lookup_ok "group" ["rows"] (by decide) (by decide) rfl
  have hsuffix : ∀ r ∈ g.rows, ∀ s'' : Stage,
      s''.Sees v.toJson [("row", r.toJson), ("group", g.toJson)] →
        ∀ node ∈ [Layout.put "row.suffix"], s''.LaysOne node := by
    intro r hr s'' hrow
    have hvalue : s''.lookup "row.suffix" = .ok (.string r.suffix) :=
      hrow.lookup_ok "row" ["suffix"] (by decide) (by decide) rfl
    have hr := (hv.globalIndex g hg).rows r hr
    exact List.forall_mem_singleton.mpr (laysOne_put hvalue hr.suffix)
  refine lays_of_forall ?_
  simp only [List.forall_mem_cons]
  exact ⟨laysOne_put hheading hv.indexHeading, laysOne_text (by decide),
    laysOne_put htitle (hv.globalIndex g hg).title, laysOne_text (by decide),
    laysOne_index "Global" hgroup rfl hformat hformats.globalIndex hrows (hv.globalIndex g hg).rows
      hsuffix, laysOne_text (by decide), List.forall_mem_nil _⟩

variable {templates : List Named} {depth : Nat}
  (htemplates : ∀ t ∈ Layout.templates, find? templates t.name = some t)

include htemplates

theorem lays_mainIndex (huses : s.Uses templates (depth + 1)) : s.Lays Layout.mainIndex := by
  refine lays_singleton (laysOne_given fun _ _ _ => ?_)
  refine lays_of_forall ?_
  simp only [List.forall_mem_cons]
  exact ⟨laysOne_part htemplates huses hs (by simp [Layout.templates]) fun s' hs' _ =>
      lays_moduleIndex hs' hv hformats, laysOne_text (by decide),
    laysOne_part htemplates huses hs (by simp [Layout.templates]) fun s' hs' _ =>
      lays_globalIndex hs' hv hformats, laysOne_text (by decide), List.forall_mem_nil _⟩

theorem lays_allDocs (huses : s.Uses templates (depth + 2)) (hgfm : v.options.gfm = false) :
    s.Lays Layout.allDocs := by
  have hsections : s.lookup "sections" = .ok (.array (v.sections.map Section.toJson)) :=
    hs.lookup_ok "sections" [] (by decide) (by decide) rfl
  refine lays_singleton (laysOne_each hsections fun item hitem i n => ?_)
  obtain ⟨sec, hsec, rfl⟩ := List.mem_map.mp hitem
  have hsection : (s.inLoop "section" sec.toJson i n).InSection v sec :=
    hs.inLoop rfl rfl sec.toJson i n
  have hdocs : (s.inLoop "section" sec.toJson i n).LaysOne (.use "docs") :=
    laysOne_part htemplates huses hsection (by simp [Layout.templates]) fun s' hs' huses' =>
      lays_docs hs' (hv.sections sec hsec) htemplates huses' hformats hgfm
  refine lays_of_forall ?_
  simp only [List.forall_mem_cons]
  exact ⟨hdocs, laysOne_text (by decide), List.forall_mem_nil _⟩

theorem lays_whole (huses : s.Uses templates (depth + 3)) (hgfm : v.options.gfm = false) :
    s.Lays Layout.whole := by
  have hindex : s.LaysOne (.use "main-index") :=
    laysOne_part htemplates huses hs (by simp [Layout.templates]) fun s' hs' huses' =>
      lays_mainIndex hs' hv hformats htemplates huses'
  have hdocs : s.LaysOne (.use "all-docs") :=
    laysOne_part htemplates huses hs (by simp [Layout.templates]) fun s' hs' huses' =>
      lays_allDocs hs' hv hformats htemplates huses' hgfm
  refine lays_of_forall ?_
  simp only [Layout.whole, List.forall_mem_cons]
  exact ⟨hindex, laysOne_text (by decide), hdocs, laysOne_text (by decide), List.forall_mem_nil _⟩

end Indexes

end ApiPages.Template
