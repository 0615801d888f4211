import ApiPages.Proofs.Index
import ApiPages.Proofs.Outline

/-!
Where the links of a page lead. An entry that the top leads to has a section, and so has everything
below it; a name is documented by the first entry of that longname, and along a finite chain of
parents the top leads to that entry. Main statement: every anchor that a page uses, in running
text, in the link to a parent, in its indexes and in the member indexes, is the anchor of one of its
sections.
-/
namespace ApiPages.View

open Outline (Reached ancestor? parent? reached_of_ancestor?_eq_none)

def anchors (v : View) : List String := v.sections.map (·.anchor)

variable {entries : List Entry} {o : RenderOptions}

theorem anchors_of (entries : List Entry) (o : RenderOptions) :
    (View.of entries o).anchors =
      ((Outline.walk entries o.topLevel).map (·.1)).map fun node => node.1.anchor := by
  simp [anchors, View.of, Section.of]

theorem anchor_mem_anchors {node : Node} (h : Reached entries node) :
    node.1.anchor ∈ (View.of entries o).anchors := by
  rw [anchors_of]
  exact List.mem_map.mpr ⟨node, Outline.mem_walk_iff.mpr h, rfl⟩

theorem documented?_eq_some {name : String} {e : Entry} (h : documented? entries name = some e) :
    e ∈ entries ∧ e.isConstructor = false ∧ e.longname = name := by
  have he := List.find?_some h
  simp only [Bool.and_eq_true, Bool.not_eq_true', beq_iff_eq] at he
  exact ⟨List.mem_of_find?_eq_some h, he⟩

theorem anchor_mem_of_documented? {name : String} {e : Entry}
    (hfinite : ∀ e ∈ entries, e.isConstructor = false → ∃ n, ancestor? entries n e = none)
    (h : documented? entries name = some e) : e.anchor ∈ (View.of entries o).anchors := by
  obtain ⟨hmem, hplain, -⟩ := documented?_eq_some h
  obtain ⟨i, hi⟩ := Outline.exists_position hmem
  obtain ⟨n, hn⟩ := hfinite e hmem hplain
  have hreached := reached_of_ancestor?_eq_none hi hn (by simp [Outline.isOrphan, hplain])
  exact anchor_mem_anchors hreached

/-- What stands for a name in a type: the name alone, or with a link to an anchor that is listed. -/
inductive LinkedName (known : List Entry) (listed : List String) (name : String) : String → Prop
  | plain (hunknown : anchorOf? known name = none) :
      LinkedName known listed name ("<code>" ++ escapeHtml name ++ "</code>")
  | link {anchor : String} (hknown : anchorOf? known name = some anchor) (hlisted : anchor ∈ listed) :
      LinkedName known listed name
        ("[" ++ ("<code>" ++ escapeHtml name ++ "</code>") ++ "](#" ++ anchor ++ ")")

def suffixTypes (e : Entry) : String × List TypeExpr :=
  match e.kind with
  | .function | .constructor => (" ⇒ ", e.tags.returns.filterMap (·.type))
  | .member | .constant | .typedef => (" : ", e.tags.type.toList)
  | _ => ("", [])

def LinkedSuffix (known : List Entry) (listed : List String) (e : Entry) (suffix : String) : Prop :=
  ∃ shown : List (List String),
    List.Forall₂ (fun type => List.Forall₂ (LinkedName known listed) type.names) (suffixTypes e).2
      shown ∧
    suffix = if shown = [] then "" else
      (suffixTypes e).1 ++ " \\| ".intercalate (shown.map " \\| ".intercalate)

/-- A row of a member index: the label of a group, or a link to an entry whose anchor is listed. -/
inductive LinkedRow (known : List Entry) (o : RenderOptions) (listed : List String) :
    MemberRow → Prop
  | label (g : MemberIndex.Group) (depth : Nat) :
      LinkedRow known o listed ⟨depth, "_" ++ g.label ++ "_"⟩
  | owner (e : Entry) (hknown : e ∈ known) (hanchor : e.anchor ∈ listed) :
      LinkedRow known o listed
        ⟨0, "[" ++ o.nameFormat.apply e.name ++ "](#" ++ e.anchor ++ ")"⟩
  | member (e : Entry) (depth : Nat) (suffix : String) (hknown : e ∈ known)
      (hanchor : e.anchor ∈ listed) (hsuffix : LinkedSuffix known listed e suffix) :
      LinkedRow known o listed
        ⟨depth, "[" ++ (if e.isConstructor then "" else e.scopeMark) ++ e.signature o.nameFormat ++
          "](#" ++ e.anchor ++ ")" ++ suffix⟩

section Suffix

variable {known : List Entry} {listed : List String}
  (hlisted : ∀ name anchor, anchorOf? known name = some anchor → anchor ∈ listed)
include hlisted

theorem linkedName_linkedName (name : String) :
    LinkedName known listed name (linkedName known name) := by
  rw [linkedName]
  cases hanchor : anchorOf? known name with
  | none => exact .plain hanchor
  | some anchor => exact .link hanchor (hlisted name anchor hanchor)

theorem linkedSuffix_signatureType (e : Entry) :
    LinkedSuffix known listed e (e.signatureType known) := by
  have htype : linkedType known = fun type => " \\| ".intercalate (type.names.map (linkedName known)) :=
    rfl
  refine ⟨(suffixTypes e).2.map fun type => type.names.map (linkedName known), ?_, ?_⟩
  · refine List.forall₂_map_right_iff.mpr (List.forall₂_same.mpr fun type _ => ?_)
    refine List.forall₂_map_right_iff.mpr (List.forall₂_same.mpr fun name _ => ?_)
    exact linkedName_linkedName hlisted name
  · cases hkind : e.kind with
    | function | constructor =>
      simp only [Entry.signatureType, suffixTypes, hkind]
      cases e.tags.returns.filterMap (·.type) with
      | nil => rfl
      | cons type types => simp [htype, typeBar, Function.comp_def]
    | member | constant | typedef =>
      simp only [Entry.signatureType, suffixTypes, hkind]
      cases e.tags.type with
      | none => rfl
      | some type => simp [htype]
    | _ =>
      simp only [Entry.signatureType, suffixTypes, hkind]
      rfl

end Suffix

theorem reached_of_mem_children {node kid : Node} (h : Reached entries node)
    (hkid : kid ∈ Outline.children entries.zipIdx node) : Reached entries kid := by
  obtain ⟨hplain, hmem, hmember, hother⟩ := Outline.mem_children.mp hkid
  exact .member h hplain hmem hother hmember

inductive RowOf (entries : List Entry) (o : RenderOptions) : MemberRow → Prop
  | label (g : MemberIndex.Group) (depth : Nat) : RowOf entries o ⟨depth, "_" ++ g.label ++ "_"⟩
  | owner {node : Node} (h : Reached entries node) :
      RowOf entries o
        ⟨0, "[" ++ o.nameFormat.apply node.1.name ++ "](#" ++ node.1.anchor ++ ")"⟩
  | member {node : Node} (h : Reached entries node) (depth : Nat) :
      RowOf entries o ⟨depth, MemberIndex.rowText entries o.nameFormat node.1⟩

def Lawful (entries : List Entry) (o : RenderOptions) : MemberIndex.Task → Prop
  | .row r => RowOf entries o r
  | .node node _ => Reached entries node

theorem lawful_tasks {node : Node} (h : Reached entries node) (depth : Nat) :
    ∀ t ∈ MemberIndex.tasks entries o node depth, Lawful entries o t := by
  intro t ht
  rcases List.mem_append.mp ht with ht | ht
  · obtain ⟨kid, hkid, rfl⟩ := List.mem_map.mp ht
    exact .member (reached_of_mem_children h (List.mem_of_mem_filter hkid)) depth
  · split at ht
    · obtain ⟨g, -, ht⟩ := List.mem_flatMap.mp ht
      rcases List.mem_cons.mp ht with rfl | ht
      · exact .label g depth
      · obtain ⟨kid, hkid, rfl⟩ := List.mem_map.mp ht
        have hmember := List.mem_of_mem_filter hkid
        exact reached_of_mem_children h (List.mem_of_mem_filter hmember)
    · obtain ⟨kid, hkid, rfl⟩ := List.mem_map.mp ht
      exact reached_of_mem_children h (List.mem_of_mem_filter hkid)

theorem rowOf_of_mem_rows {fresh : List Nat} {todo : List MemberIndex.Task}
    (h : ∀ t ∈ todo, Lawful entries o t) :
    ∀ r ∈ MemberIndex.rows entries o fresh todo, RowOf entries o r := by
  fun_induction MemberIndex.rows entries o fresh todo with
  | case1 => simp
  | case2 fresh first todo ih =>
    obtain ⟨hfirst, htodo⟩ := List.forall_mem_cons.mp h
    exact List.forall_mem_cons.mpr ⟨hfirst, ih htodo⟩
  | case3 fresh node depth todo hnode ih =>
    obtain ⟨hreached, htodo⟩ := List.forall_mem_cons.mp h
    refine List.forall_mem_cons.mpr ⟨.member hreached depth, ih ?_⟩
    exact List.forall_mem_append.mpr ⟨lawful_tasks hreached _, htodo⟩
  | case4 fresh node depth todo hnode ih =>
    exact ih fun t ht => h t (List.mem_cons_of_mem _ ht)

theorem rowOf_of_mem_memberIndex {node : Node} (h : Reached entries node) :
    ∀ r ∈ MemberIndex.of entries o node, RowOf entries o r := by
  rw [MemberIndex.of]
  split
  · simp
  · exact List.forall_mem_cons.mpr ⟨.owner h, rowOf_of_mem_rows (lawful_tasks h 1)⟩

def LinkedIndexRow (known : List Entry) (listed : List String) (r : IndexRow) : Prop :=
  r.anchor ∈ listed ∧ ∃ e ∈ known, r.anchor = e.anchor ∧ LinkedSuffix known listed e r.suffix

section Rows

variable (hlisted : ∀ name anchor, anchorOf? entries name = some anchor →
  anchor ∈ (View.of entries o).anchors)
include hlisted

theorem linkedRow_of_rowOf {r : MemberRow} (h : RowOf entries o r) :
    LinkedRow entries o (View.of entries o).anchors r := by
  cases h with
  | label g depth => exact .label g depth
  | owner h => exact .owner _ (List.fst_mem_of_mem_zipIdx h.mem) (anchor_mem_anchors h)
  | @member node h depth =>
    exact .member _ depth _ (List.fst_mem_of_mem_zipIdx h.mem) (anchor_mem_anchors h)
      (linkedSuffix_signatureType hlisted node.1)

theorem linkedIndexRow_of_top {e : Entry} (h : e ∈ (Outline.top entries).map (·.1)) (table : Bool) :
    LinkedIndexRow entries (View.of entries o).anchors
      (IndexRow.of entries o.nameFormat table e) := by
  obtain ⟨node, hnode, rfl⟩ := List.mem_map.mp h
  obtain ⟨hmem, htop⟩ := Outline.mem_top.mp hnode
  exact ⟨anchor_mem_anchors (.top hmem htop), node.1, List.fst_mem_of_mem_zipIdx hmem, rfl,
    linkedSuffix_signatureType hlisted node.1⟩

end Rows

theorem parent?_eq_documented? {e : Entry} {name : String} (h : e.memberof = some name) :
    parent? entries e = documented? entries name := by
  rw [parent?, h, Option.bind_some]

theorem parentLink_eq {e : Entry} {name : String} (h : e.memberof = some name) :
    (∀ anchor, anchorOf? entries name = some anchor → ∃ parent, parent? entries e = some parent ∧
      Section.parentLink entries e name =
        "[<code>" ++ escapeHtml parent.name ++ "</code>](#" ++ anchor ++ ")") ∧
    (anchorOf? entries name = none →
      Section.parentLink entries e name = "<code>" ++ escapeHtml name ++ "</code>") := by
  simp only [Section.parentLink, anchorOf?, parent?_eq_documented? h]
  cases documented? entries name with
  | none => simp
  | some parent =>
    refine ⟨fun anchor hanchor => ⟨parent, rfl, ?_⟩, by simp⟩
    obtain rfl := Option.some.inj hanchor
    rfl

def kindLead (e : Entry) : String :=
  if e.kind = .event then "**Kind**: event emitted by "
  else "**Kind**: " ++ (e.scope.map fun s => s.name ++ " ").getD "" ++ Section.kindWord true e ++ " of "

/-- The line of a section that says its kind, where it names the parent with a link to an anchor that
is listed, or without one. -/
inductive LinkedKindLine (known : List Entry) (listed : List String) (e : Entry) :
    Option String → Prop
  | missing (h : e.kind = .module ∨ e.kind = .constructor) : LinkedKindLine known listed e none
  | alone (h : e.memberof = none) :
      LinkedKindLine known listed e (some ("**Kind**: global " ++ Section.kindWord false e))
  | plain {name : String} (h : e.memberof = some name) (hunknown : anchorOf? known name = none) :
      LinkedKindLine known listed e
        (some (kindLead e ++ ("<code>" ++ escapeHtml name ++ "</code>")))
  | link {name anchor : String} (parent : Entry) (h : e.memberof = some name)
      (hknown : anchorOf? known name = some anchor) (hlisted : anchor ∈ listed) :
      LinkedKindLine known listed e
        (some (kindLead e ++ ("[<code>" ++ escapeHtml parent.name ++ "</code>](#" ++ anchor ++ ")")))

theorem kindLine_eq {e : Entry} {name : String} (hkind : ¬ (e.kind = .module ∨ e.kind = .constructor))
    (h : e.memberof = some name) :
    Section.kindLine entries e = some (kindLead e ++ Section.parentLink entries e name) := by
  rw [Section.kindLine, if_neg hkind, h, kindLead]
  by_cases hevent : e.kind = .event <;> simp only [hevent, if_true, if_false]

theorem linkedKindLine_kindLine {listed : List String}
    (hlisted : ∀ name anchor, anchorOf? entries name = some anchor → anchor ∈ listed) (e : Entry) :
    LinkedKindLine entries listed e (Section.kindLine entries e) := by
  by_cases hkind : e.kind = .module ∨ e.kind = .constructor
  · rw [Section.kindLine, if_pos hkind]
    exact .missing hkind
  · cases hmemberof : e.memberof with
    | none =>
      rw [Section.kindLine, if_neg hkind, hmemberof]
      exact .alone hmemberof
    | some name =>
      rw [kindLine_eq hkind hmemberof]
      cases hanchor : anchorOf? entries name with
      | none =>
        rw [(parentLink_eq hmemberof).2 hanchor]
        exact .plain hmemberof hanchor
      | some anchor =>
        obtain ⟨parent, -, hlink⟩ := (parentLink_eq hmemberof).1 anchor hanchor
        rw [hlink]
        exact .link parent hmemberof hanchor (hlisted name anchor hanchor)

theorem exists_facts_eq (known : List Entry) (e : Entry) :
    ∃ more, Section.factLines known e = (Section.kindLine known e).toList ++ more := by
  simp only [Section.factLines, List.append_assoc]
  exact ⟨_, rfl⟩

/-- No link of a page leads nowhere. -/
theorem links_lead_to_sections (entries : List Entry) (o : RenderOptions)
    (hfinite : ∀ e ∈ entries, e.isConstructor = false → ∃ n, ancestor? entries n e = none) :
    (∀ name anchor, anchorOf? entries name = some anchor → anchor ∈ (View.of entries o).anchors) ∧
      (∀ e name, e.memberof = some name →
        (∀ anchor, anchorOf? entries name = some anchor →
          ∃ parent, parent? entries e = some parent ∧ Section.parentLink entries e name =
            "[<code>" ++ escapeHtml parent.name ++ "</code>](#" ++ anchor ++ ")") ∧
        (anchorOf? entries name = none →
          Section.parentLink entries e name = "<code>" ++ escapeHtml name ++ "</code>")) ∧
      (∀ r ∈ (View.of entries o).moduleIndex,
        LinkedIndexRow entries (View.of entries o).anchors r) ∧
      (∀ g ∈ (View.of entries o).globalIndex, ∀ r ∈ g.rows,
        LinkedIndexRow entries (View.of entries o).anchors r) ∧
      (∀ s ∈ (View.of entries o).sections, ∃ e ∈ entries, s.id = e.id ∧ s.anchor = e.anchor ∧
        ∃ kind more, s.facts = kind.toList ++ more ∧
          LinkedKindLine entries (View.of entries o).anchors e kind) ∧
      ∀ s ∈ (View.of entries o).sections, ∀ r ∈ s.memberIndex,
        LinkedRow entries o (View.of entries o).anchors r := by
  have hlisted : ∀ name anchor, anchorOf? entries name = some anchor →
      anchor ∈ (View.of entries o).anchors := by
    intro name anchor h
    obtain ⟨e, he, rfl⟩ := Option.map_eq_some_iff.mp h
    exact anchor_mem_of_documented? hfinite he
  refine ⟨hlisted, fun e name h => parentLink_eq h, ?_, ?_, ?_, ?_⟩
  · intro r hr
    obtain ⟨e, he, -, rfl⟩ := mem_moduleIndex.mp hr
    exact linkedIndexRow_of_top hlisted he _
  · intro g hg r hr
    obtain ⟨e, he, -, rfl⟩ := mem_globalIndex.mp ⟨g, hg, hr⟩
    exact linkedIndexRow_of_top hlisted he _
  · intro s hs
    obtain ⟨v, hv, rfl⟩ := List.mem_map.mp hs
    have hreached := (Outline.reached_of_mem_walk v hv).1
    obtain ⟨more, hfacts⟩ := exists_facts_eq entries v.1.1
    exact ⟨v.1.1, List.fst_mem_of_mem_zipIdx hreached.mem, rfl, rfl, _, more, hfacts,
      linkedKindLine_kindLine hlisted v.1.1⟩
  · intro s hs r hr
    obtain ⟨v, hv, rfl⟩ := List.mem_map.mp hs
    have hreached := (Outline.reached_of_mem_walk v hv).1
    exact linkedRow_of_rowOf hlisted (rowOf_of_mem_memberIndex hreached r hr)

def sharedName : List Entry :=
  [{ id := "A", kind := .classKind, longname := "A" },
    { id := "A()", kind := .constructor, longname := "A", memberof := some "A" },
    { id := "A_2", kind := .classKind, longname := "A" },
    { id := "A#f", kind := .function, longname := "A#f", memberof := some "A" },
    { id := "B.g", kind := .function, longname := "B.g", memberof := some "B" }]

theorem links_lead_to_sections_sharedName :
    (∀ e ∈ sharedName, e.isConstructor = false → ∃ n, ancestor? sharedName n e = none) ∧
      anchorOf? sharedName "A#f" = some "A+f" ∧ "A+f" ∈ (View.of sharedName {}).anchors := by
  have hfinite : ∀ e ∈ sharedName, e.isConstructor = false →
      ∃ n, ancestor? sharedName n e = none := by
    intro e he _
    refine ⟨2, ?_⟩
    revert e
    decide +kernel
  have hanchor : anchorOf? sharedName "A#f" = some "A+f" := by decide +kernel
  exact ⟨hfinite, hanchor, (links_lead_to_sections sharedName {} hfinite).1 _ _ hanchor⟩

end ApiPages.View
