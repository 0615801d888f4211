import ApiPages.Proofs.Template.Layout
import ApiPages.Proofs.Template.Loading
import ApiPages.Proofs.Tidy

/-!
Pages for readers that know neither fences nor tables. Main statement: with both switched off, the
default template lays out a page for every list of entries, and if no text of the entries has a
backtick or a bar, the page has no line that opens a fence and none that begins a table.
-/
namespace ApiPages

open Text (Harmless)

namespace Template

theorem layOut_standardTemplates {v : View} (hv : v.IsHarmless) (hformats : v.formats.Tableless)
    (hgfm : v.options.gfm = false) (builtins : Builtins) (known : List Entry) :
    ∃ text, layOut builtins standardTemplates v.toJson known depthLimit rootName []
        [.use "main"] = .ok text ∧ Harmless text := by
  obtain ⟨s, hpage, hlocals, huses, hrun⟩ :=
    exists_stage builtins standardTemplates v.toJson known 199 rootName [] [.use "main"]
  have hs : s.Sees v.toJson [] := sees_page hpage hlocals
  have hmain : s.LaysOne (.use "main") :=
    laysOne_part find?_standardTemplates huses hs (by simp [Layout.templates]) fun s' hs' huses' =>
      lays_whole hs' hv hformats find?_standardTemplates huses' hgfm
  rw [depthLimit, hrun]
  exact lays_singleton hmain

end Template

theorem Tidy.harmless_tidy {text : List Char} (h : Harmless text) : Harmless (tidy text) := by
  rw [tidy_eq]
  refine Harmless.unlines fun line hline => ?_
  rcases mem_keep ((List.rdropWhile_prefix _ _).subset hline) with hmem | rfl
  · exact h.lines line hmem
  · exact Text.harmless_nil

theorem Tidy.isFence_of_harmless {line : List Char} (h : Harmless line) : isFence line = false := by
  rw [Bool.eq_false_iff]
  intro hfence
  have hstart := Text.startsWith_iff.mp hfence
  have htick : '\x60' ∈ line :=
    (List.dropWhile_subset _) (hstart.subset List.mem_cons_self)
  exact h.tick_not_mem htick

theorem Text.Harmless.no_delimiter {text : List Char} (h : Harmless text) :
    Text.contains "| --- |".toList text = false := by
  rw [Bool.eq_false_iff]
  intro hdelimiter
  exact absurd (h.chain_within (Text.within_of_contains hdelimiter)) (by decide)

/-- Without fences and tables the default template renders entries that have no backtick and no bar
to a page that has no line of a fence and no delimiter of a table, whatever formats are asked for,
whatever the language of the templates brings along, at any moment. -/
theorem no_fences_no_tables (builtins : Outside → Template.Builtins) (outside : Outside)
    (entries : List Entry) (o : RenderOptions)
    (hentries : ∀ e ∈ entries, AllUnmarked e.texts) (hgfm : o.gfm = false)
    (hplain : o.nameFormat = .plain) (htemplate : o.template = defaultTemplate) :
    ∃ text, render (Template.engine builtins) outside entries o {} = .ok text ∧
      (∀ line ∈ Text.lines text.toList, Tidy.isFence line = false) ∧
      Text.contains "| --- |".toList text.toList = false := by
  obtain ⟨laid, hlaid, hharmless⟩ := Template.layOut_standardTemplates
    (isHarmless_view hentries hgfm hplain) (tableless_of hgfm) hgfm (builtins outside) entries
  have hrender : render (Template.engine builtins) outside entries o {} =
      .ok (String.ofList (Tidy.tidy laid)) := by
    have hroot : ((Template.find? Template.standardTemplates Template.rootName).map (·.nodes)).getD
        [] = [.use "main"] := rfl
    simp only [render, Template.engine, Template.load_default htemplate, bind, Except.bind, hroot,
      hlaid]
    rfl
  have hpage : Harmless (String.ofList (Tidy.tidy laid)).toList := by
    rw [String.toList_ofList]
    exact Tidy.harmless_tidy hharmless
  exact ⟨_, hrender, fun line hline => Tidy.isFence_of_harmless (hpage.lines line hline),
    hpage.no_delimiter⟩

def tabled : RenderOptions :=
  { gfm := false, moduleIndex := .table, globalIndex := .table, paramList := .table,
    propertyList := .table }

def measured : List Entry :=
  [{ id := "module:shape", kind := .module, name := "shape", longname := "module:shape" },
    { id := "module:shape.area", kind := .function, name := "area", longname := "module:shape.area",
      memberof := some "module:shape", scope := some .staticScope
      tags := {
        description := some "The area of a \x7b@link module:shape\x7d."
        params := [{ name := "side", type := some ⟨["number"]⟩, default := some "1" }]
        returns := [{ type := some ⟨["number", "bigint"]⟩ }] }
      examples := [{ code := "area(2)\n// 4" }] }]

theorem no_fences_no_tables_measured :
    (∀ e ∈ measured, AllUnmarked e.texts) ∧ tabled.gfm = false ∧ tabled.nameFormat = .plain ∧
      tabled.template = defaultTemplate ∧
      ∃ text, render (Template.engine fun _ => {}) {} measured tabled {} = .ok text ∧
        (∀ line ∈ Text.lines text.toList, Tidy.isFence line = false) ∧
        Text.contains "| --- |".toList text.toList = false := by
  have hunmarked : ∀ e ∈ measured, AllUnmarked e.texts := by decide +kernel
  exact ⟨hunmarked, rfl, rfl, rfl, no_fences_no_tables _ {} measured tabled hunmarked rfl rfl rfl⟩

end ApiPages
