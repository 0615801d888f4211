import ApiPages.Page.View
import ApiPages.Proofs.Index
import ApiPages.Proofs.Outline
import ApiPages.Proofs.Text.Cells

/-!
The rows of the tables of a page: the indexes and the lists of parameters and properties whose format
in effect is a table. Descriptions and summaries are flattened before they are set, so they stay in
their cells. Names, types and defaults are set as they are, with markup around them. Main statement:
the rows of a page are intact exactly if the names, types and defaults of what they show are.
-/
namespace ApiPages

open Text (FitsCell IsMarkup)

variable {known : List Entry}

theorem fitsCell_escapeHtml (text : String) :
    FitsCell (escapeHtml text).toList ↔ FitsCell text.toList := by
  rw [escapeHtml, String.toList_ofList]
  refine Text.fitsCell_flatMap_iff (fun c => ?_) [] text.toList
  split_ifs with hamp hless hgreater
  · exact .inr ⟨by decide, by rw [hamp]; decide⟩
  · exact .inr ⟨by decide, by rw [hless]; decide⟩
  · exact .inr ⟨by decide, by rw [hgreater]; decide⟩
  · exact .inl rfl

theorem fitsCell_wrapped {before after : String} (hbefore : IsMarkup before.toList)
    (hafter : IsMarkup after.toList) (text : String) :
    FitsCell (before ++ text ++ after).toList ↔ FitsCell text.toList := by
  rw [String.toList_append, String.toList_append, hafter.append_right_iff, hbefore.append_left_iff]

theorem fitsCell_code (text : String) :
    FitsCell ("<code>" ++ escapeHtml text ++ "</code>").toList ↔ FitsCell text.toList := by
  rw [fitsCell_wrapped (by decide) (by decide), fitsCell_escapeHtml]

theorem fitsCell_intercalate {sep : String} (hsep : IsMarkup sep.toList) (texts : List String) :
    FitsCell (sep.intercalate texts).toList ↔ ∀ text ∈ texts, FitsCell text.toList := by
  rw [String.toList_intercalate, hsep.intercalate_iff, List.forall_mem_map]

theorem fitsCell_cell (text : String) : FitsCell (cell text).toList := by
  rw [cell, String.toList_ofList]
  exact Text.fitsCell_escaped_words _

/-- The names of the type stay in their cells, and so do the anchors that they link to. -/
def TypeExpr.Tabular (known : List Entry) (t : TypeExpr) : Prop :=
  ∀ name ∈ t.names, FitsCell name.toList ∧
    ∀ anchor ∈ anchorOf? known name, FitsCell anchor.toList

theorem fitsCell_linkedName (name : String) :
    FitsCell (linkedName known name).toList ↔
      FitsCell name.toList ∧ ∀ anchor ∈ anchorOf? known name, FitsCell anchor.toList := by
  rw [linkedName]
  cases anchorOf? known name with
  | none =>
    rw [fitsCell_code]
    simp
  | some anchor =>
    have hopen : IsMarkup "[".toList := by decide
    have hlink : IsMarkup "](#".toList := by decide
    have hclose : IsMarkup ")".toList := by decide
    simp only [Option.mem_some, forall_eq']
    rw [String.toList_append, hclose.append_right_iff, String.toList_append, String.toList_append,
      hlink.between_iff, String.toList_append, hopen.append_left_iff, fitsCell_code]

theorem isMarkup_typeBar : IsMarkup typeBar.toList := by decide

theorem fitsCell_linkedType (t : TypeExpr) :
    FitsCell (linkedType known t).toList ↔ t.Tabular known := by
  rw [linkedType, fitsCell_intercalate isMarkup_typeBar, List.forall_mem_map]
  simp only [fitsCell_linkedName, TypeExpr.Tabular]

theorem fitsCell_shownName (p : Param) :
    FitsCell p.shownName.toList ↔ FitsCell p.name.toList := by
  have hdots : ∀ name : String, FitsCell ("..." ++ name).toList ↔ FitsCell name.toList := by
    intro name
    rw [String.toList_append]
    exact IsMarkup.append_left_iff (by decide)
  have hbrackets : ∀ name : String, FitsCell ("[" ++ name ++ "]").toList ↔ FitsCell name.toList :=
    fitsCell_wrapped (by decide) (by decide)
  rw [Param.shownName]
  split_ifs <;> simp only [hdots, hbrackets]

theorem fitsCell_getD {α : Type} {set : α → String} {P : α → Prop}
    (hset : ∀ x, FitsCell (set x).toList ↔ P x) (value : Option α) :
    FitsCell ((value.map set).getD "").toList ↔ ∀ x ∈ value, P x := by
  cases value with
  | none => simp
  | some x => simpa using hset x

structure Param.Tabular (known : List Entry) (p : Param) : Prop where
  name : FitsCell p.name.toList
  type : ∀ t ∈ p.type, t.Tabular known
  default : ∀ text ∈ p.default, FitsCell text.toList

def ParamRow.cells (r : ParamRow) : List String := [r.name, r.type, r.default, r.description]

/-- A row of a table stays a row: none of its cells runs into the next one or off the line. -/
def Intact (cells : List String) : Prop := ∀ text ∈ cells, FitsCell text.toList

theorem Section.intact_paramRow (p : Param) :
    Intact (paramRow known .table p).cells ↔ p.Tabular known := by
  have hcells : Intact (paramRow known .table p).cells ↔
      FitsCell p.shownName.toList ∧
        FitsCell ((p.type.map (linkedType known)).getD "").toList ∧
        FitsCell ((p.default.map fun d => "<code>" ++ escapeHtml d ++ "</code>").getD "").toList := by
    simp [Intact, ParamRow.cells, paramRow, fitsCell_cell]
  rw [hcells, fitsCell_shownName, fitsCell_getD fitsCell_linkedType, fitsCell_getD fitsCell_code]
  exact ⟨fun ⟨hname, htype, hdefault⟩ => ⟨hname, htype, hdefault⟩,
    fun h => ⟨h.name, h.type, h.default⟩⟩

namespace Entry

def signatureParams (e : Entry) : List Param :=
  match e.kind with
  | .function | .constructor => e.tags.params.filter fun p => !p.name.toList.contains '.'
  | _ => []

def signatureTypes (e : Entry) : List TypeExpr :=
  match e.kind with
  | .function | .constructor => e.tags.returns.filterMap (·.type)
  | .member | .constant | .typedef => e.tags.type.toList
  | _ => []

structure Tabular (known : List Entry) (e : Entry) : Prop where
  name : FitsCell e.name.toList
  params : ∀ p ∈ e.signatureParams, FitsCell p.name.toList
  types : ∀ t ∈ e.signatureTypes, t.Tabular known

theorem fitsCell_nameFormat (format : NameFormat) (name : String) :
    FitsCell (format.apply name).toList ↔ FitsCell name.toList := by
  cases format with
  | plain => rfl
  | backticks => exact fitsCell_wrapped (by decide) (by decide) name

theorem fitsCell_paramSignature (params : List Param) :
    FitsCell (paramSignature params).toList ↔
      ∀ p ∈ params.filter fun p => !p.name.toList.contains '.', FitsCell p.name.toList := by
  rw [paramSignature, fitsCell_intercalate (by decide), List.forall_mem_map]
  simp only [fitsCell_shownName]

theorem fitsCell_call (name params : String) :
    FitsCell (name ++ ("(" ++ params ++ ")")).toList ↔
      FitsCell name.toList ∧ FitsCell params.toList := by
  have hopen : IsMarkup "(".toList := by decide
  have hclose : IsMarkup ")".toList := by decide
  simp only [String.toList_append]
  rw [← List.append_assoc, hclose.append_right_iff, ← List.append_assoc, hopen.between_iff]

theorem fitsCell_signature (format : NameFormat) (e : Entry) :
    FitsCell (e.signature format).toList ↔
      FitsCell e.name.toList ∧ ∀ p ∈ e.signatureParams, FitsCell p.name.toList := by
  have hnew : FitsCell ("new " ++ e.name).toList ↔ FitsCell e.name.toList := by
    rw [String.toList_append]
    exact IsMarkup.append_left_iff (by decide)
  have hquoted : FitsCell ("\"" ++ e.name ++ "\"").toList ↔ FitsCell e.name.toList :=
    fitsCell_wrapped (by decide) (by decide) _
  rw [signature, fitsCell_nameFormat, signatureParams]
  cases e.kind
  case function | constructor => simp only [fitsCell_call, fitsCell_paramSignature, hnew]
  case event =>
    rw [hquoted]
    simp
  all_goals simp

theorem fitsCell_signatureType (e : Entry) :
    FitsCell (e.signatureType known).toList ↔ ∀ t ∈ e.signatureTypes, t.Tabular known := by
  have hreturns : ∀ types : List TypeExpr,
      FitsCell (" ⇒ " ++ typeBar.intercalate (types.map (linkedType known))).toList ↔
        ∀ t ∈ types, t.Tabular known := by
    intro types
    rw [String.toList_append, IsMarkup.append_left_iff (by decide),
      fitsCell_intercalate isMarkup_typeBar, List.forall_mem_map]
    simp only [fitsCell_linkedType]
  have hvalue : ∀ t : TypeExpr,
      FitsCell (" : " ++ linkedType known t).toList ↔ t.Tabular known := by
    intro t
    rw [String.toList_append, IsMarkup.append_left_iff (by decide), fitsCell_linkedType]
  rw [signatureType, signatureTypes]
  cases e.kind
  case function | constructor =>
    cases e.tags.returns.filterMap (·.type) with
    | nil => simp
    | cons t types => exact hreturns (t :: types)
  case member | constant | typedef =>
    cases e.tags.type with
    | none => simp
    | some t => simpa only [Option.toList_some, List.forall_mem_singleton] using hvalue t
  all_goals simp

end Entry

def IndexRow.cells (r : IndexRow) : List String := [r.name, r.suffix, r.summary]

theorem IndexRow.intact_of (format : NameFormat) (e : Entry) :
    Intact (of known format true e).cells ↔ e.Tabular known := by
  have hcells : Intact (of known format true e).cells ↔
      FitsCell (e.signature format).toList ∧ FitsCell (e.signatureType known).toList := by
    simp [Intact, cells, of, fitsCell_cell]
  rw [hcells, Entry.fitsCell_signature, Entry.fitsCell_signatureType]
  exact ⟨fun ⟨⟨hname, hparams⟩, htypes⟩ => ⟨hname, hparams, htypes⟩,
    fun h => ⟨⟨h.name, h.params⟩, h.types⟩⟩

section Pages

variable {entries : List Entry} {o : RenderOptions}

def Formats.indexOf (f : Formats) (e : Entry) : IndexFormat :=
  if e.kind = .module then f.moduleIndex else f.globalIndex

def Formats.tabled (f : Formats) (e : Entry) : List Param :=
  (if f.paramList = .table then e.tags.params else []) ++
    if f.propertyList = .table then e.tags.properties else []

namespace View

def indexTables (v : View) : List IndexRow :=
  (if v.formats.moduleIndex = .table then v.moduleIndex else []) ++
    if v.formats.globalIndex = .table then v.globalIndex.flatMap (·.rows) else []

def paramTables (v : View) : List ParamRow :=
  v.sections.flatMap fun s =>
    (if v.formats.paramList = .table then s.params else []) ++
      if v.formats.propertyList = .table then s.properties else []

theorem mem_indexTables {r : IndexRow} :
    r ∈ (View.of entries o).indexTables ↔
      ∃ e ∈ (Outline.top entries).map (·.1), (Formats.of o).indexOf e = .table ∧
        IndexRow.of entries o.nameFormat true e = r := by
  have hmodules : (r ∈ if (Formats.of o).moduleIndex = .table then ApiPages.moduleIndex entries o
      else []) ↔ ∃ e ∈ (Outline.top entries).map (·.1),
        (e.kind = .module ∧ (Formats.of o).moduleIndex = .table) ∧
          IndexRow.of entries o.nameFormat true e = r := by
    split
    next htable => simp only [mem_moduleIndex, htable, and_true, decide_true]
    next htable => simp [htable]
  have hglobals : (r ∈ if (Formats.of o).globalIndex = .table then
      (ApiPages.globalIndex entries o).flatMap (·.rows) else []) ↔
        ∃ e ∈ (Outline.top entries).map (·.1),
          (e.kind ≠ .module ∧ (Formats.of o).globalIndex = .table) ∧
            IndexRow.of entries o.nameFormat true e = r := by
    split
    next htable =>
      rw [List.mem_flatMap, mem_globalIndex]
      simp only [htable, and_true, decide_true]
    next htable => simp [htable]
  have hindex : ∀ e : Entry, (Formats.of o).indexOf e = .table ↔
      (e.kind = .module ∧ (Formats.of o).moduleIndex = .table) ∨
        (e.kind ≠ .module ∧ (Formats.of o).globalIndex = .table) := by
    intro e
    by_cases hkind : e.kind = .module <;> simp [Formats.indexOf, hkind]
  simp only [indexTables, View.of, List.mem_append, hindex, or_and_right, and_or_left, exists_or]
  exact or_congr hmodules hglobals

theorem mem_paramTables {r : ParamRow} :
    r ∈ (View.of entries o).paramTables ↔
      ∃ node, Outline.Reached entries node ∧ ∃ p ∈ (Formats.of o).tabled node.1,
        Section.paramRow entries .table p = r := by
  have hrows : ∀ node level, (r ∈ (if (Formats.of o).paramList = .table then
        (Section.of entries o node level).params else []) ++
      if (Formats.of o).propertyList = .table then
        (Section.of entries o node level).properties else []) ↔
      ∃ p ∈ (Formats.of o).tabled node.1, Section.paramRow entries .table p = r := by
    intro node level
    by_cases hparams : (Formats.of o).paramList = .table <;>
      by_cases hproperties : (Formats.of o).propertyList = .table <;>
      simp [Section.of, Formats.tabled, hparams, hproperties, or_and_right, exists_or]
  rw [paramTables, List.mem_flatMap]
  constructor
  · rintro ⟨s, hs, hr⟩
    obtain ⟨v, hv, rfl⟩ := List.mem_map.mp hs
    exact ⟨v.1, (Outline.reached_of_mem_walk v hv).1, (hrows _ _).mp hr⟩
  · rintro ⟨node, hnode, hrow⟩
    have hwalk := (Outline.mem_walk_iff.mpr hnode : node ∈ (Outline.walk entries o.topLevel).map (·.1))
    obtain ⟨v, hv, rfl⟩ := List.mem_map.mp hwalk
    exact ⟨_, List.mem_map_of_mem hv, (hrows _ _).mpr hrow⟩

/-- Descriptions stay in their cells whatever they say, and the rows are intact exactly if the
names, types and defaults behind them stay in their cells as they are. -/
theorem tables_intact_iff (entries : List Entry) (o : RenderOptions) :
    (∀ r ∈ (View.of entries o).indexTables, FitsCell r.summary.toList) ∧
      (∀ r ∈ (View.of entries o).paramTables, FitsCell r.description.toList) ∧
      ((∀ r ∈ (View.of entries o).indexTables, Intact r.cells) ↔
        ∀ e ∈ (Outline.top entries).map (·.1), (Formats.of o).indexOf e = .table →
          e.Tabular entries) ∧
      ((∀ r ∈ (View.of entries o).paramTables, Intact r.cells) ↔
        ∀ node, Outline.Reached entries node → ∀ p ∈ (Formats.of o).tabled node.1,
          p.Tabular entries) := by
  refine ⟨fun r hr => ?_, fun r hr => ?_, ?_, ?_⟩
  · obtain ⟨e, -, -, rfl⟩ := mem_indexTables.mp hr
    exact fitsCell_cell _
  · obtain ⟨node, -, p, -, rfl⟩ := mem_paramTables.mp hr
    exact fitsCell_cell _
  · constructor
    · intro h e he htable
      exact (IndexRow.intact_of o.nameFormat e).mp (h _ (mem_indexTables.mpr ⟨e, he, htable, rfl⟩))
    · intro h r hr
      obtain ⟨e, he, htable, rfl⟩ := mem_indexTables.mp hr
      exact (IndexRow.intact_of o.nameFormat e).mpr (h e he htable)
  · constructor
    · intro h node hnode p hp
      exact (Section.intact_paramRow p).mp (h _ (mem_paramTables.mpr ⟨node, hnode, p, hp, rfl⟩))
    · intro h r hr
      obtain ⟨node, hnode, p, hp, rfl⟩ := mem_paramTables.mp hr
      exact (Section.intact_paramRow p).mpr (h node hnode p hp)

def barred : Param :=
  { name := "keys", type := some ⟨["Array<string|number>"]⟩, optional := true, default := some "a|b" }

def barredFunction : Entry :=
  { id := "f", kind := .function, name := "f", longname := "f", tags := { params := [barred] } }

theorem barred_row_broken :
    ∃ r ∈ (View.of [barredFunction] {}).paramTables,
      r.type = "<code>Array&lt;string|number&gt;</code>" ∧ r.default = "<code>a|b</code>" ∧
        ¬ FitsCell r.type.toList ∧ ¬ FitsCell r.default.toList := by
  have hnode : Outline.Reached [barredFunction] (barredFunction, 0) := .top (by decide) (by decide)
  have hparam : barred ∈ (Formats.of {}).tabled barredFunction := by decide
  refine ⟨_, mem_paramTables.mpr ⟨_, hnode, barred, hparam, rfl⟩, ?_⟩
  decide +kernel

end View

end Pages

end ApiPages
