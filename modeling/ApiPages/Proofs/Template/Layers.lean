import Mathlib.Data.List.Induction
import ApiPages.Proofs.Cache.Keys
import ApiPages.Proofs.Template.Loading

/-!
The layers of a run by name. `Gathered` is one pass over them that keeps the names in order and a
table of what they stand for; what a round of it does to both is what `place` does to a list of
pairs. Main statement: every name is there once, with what the layers say last under it.
-/
namespace ApiPages.Template

/-- The layers say the value under the name, and say nothing under it later. -/
def SaidLast (layers : List (String × α)) (name : String) (value : α) : Prop :=
  ∃ before after, layers = before ++ (name, value) :: after ∧ name ∉ after.map (·.1)

def placed (layers : List (String × α)) : List (String × α) :=
  layers.foldl (fun earlier (name, value) => place name value earlier) []

section Placed

variable {α : Type} {name : String} {value : α} {layers : List (String × α)}

theorem keys_place (name : String) (value : α) (layers : List (String × α)) :
    (place name value layers).map (·.1) =
      if name ∈ layers.map (·.1) then layers.map (·.1) else layers.map (·.1) ++ [name] := by
  by_cases hname : name ∈ layers.map (·.1)
  · rw [if_pos hname]
    induction layers with
    | nil => cases hname
    | cons layer layers ih =>
      by_cases hkey : layer.1 = name
      · simp [place, hkey]
      · rw [List.map_cons, List.mem_cons] at hname
        simp [place, hkey, ih (hname.resolve_left (Ne.symm hkey))]
  · rw [if_neg hname, place_of_not_mem value hname, List.map_append]
    rfl

theorem nodup_keys_place (h : (layers.map (·.1)).Nodup) :
    ((place name value layers).map (·.1)).Nodup := by
  rw [keys_place]
  split
  case isTrue => exact h
  case isFalse hname =>
    refine List.nodup_append.mpr ⟨h, List.pairwise_singleton _ _, fun other hother last hlast => ?_⟩
    rw [List.mem_singleton.mp hlast]
    exact fun heq => hname (heq ▸ hother)

theorem placed_concat (layers : List (String × α)) (layer : String × α) :
    placed (layers ++ [layer]) = place layer.1 layer.2 (placed layers) := by
  rw [placed, List.foldl_append]
  rfl

theorem nodup_keys_placed (layers : List (String × α)) : ((placed layers).map (·.1)).Nodup := by
  induction layers using List.reverseRecOn with
  | nil => exact List.nodup_nil
  | append_singleton layers layer ih =>
    rw [placed_concat]
    exact nodup_keys_place ih

theorem not_mem_keys_iff :
    name ∉ layers.map (·.1) ↔ ∀ layer ∈ layers, (name != layer.1) = true := by
  simp only [List.mem_map, not_exists, not_and, bne_iff_ne, ne_comm, ne_eq]

theorem lookup_eq_some_iff_mem (h : (layers.map (·.1)).Nodup) :
    layers.lookup name = some value ↔ (name, value) ∈ layers := by
  rw [List.lookup_eq_some_iff]
  constructor
  · rintro ⟨before, after, rfl, -⟩
    exact List.mem_append_right _ List.mem_cons_self
  · intro hmem
    obtain ⟨before, after, rfl⟩ := List.append_of_mem hmem
    refine ⟨before, after, rfl, fun layer hlayer => ?_⟩
    rw [List.map_append, List.nodup_append] at h
    have hne := h.2.2 layer.1 (List.mem_map_of_mem hlayer) name List.mem_cons_self
    simpa using Ne.symm hne

theorem lookup_placed (layers : List (String × α)) (name : String) :
    (placed layers).lookup name = layers.reverse.lookup name := by
  -- from the end: the last layer decides for its own name and leaves the others alone
  induction layers using List.reverseRecOn with
  | nil => rfl
  | append_singleton layers layer ih =>
    obtain ⟨other, value⟩ := layer
    rw [placed_concat, lookup_place, List.reverse_append, List.reverse_singleton,
      List.singleton_append, List.lookup_cons, ih]
    by_cases hname : name = other
    · simp [hname]
    · have hb : (name == other) = false := by simpa using hname
      rw [if_neg hname, hb]

theorem lookup_reverse_eq_some_iff :
    layers.reverse.lookup name = some value ↔ SaidLast layers name value := by
  rw [List.lookup_eq_some_iff]
  constructor
  · rintro ⟨after, before, hreverse, hafter⟩
    refine ⟨before.reverse, after.reverse, ?_, ?_⟩
    · rw [← List.reverse_reverse layers, hreverse]
      simp
    · rw [List.map_reverse, List.mem_reverse]
      exact not_mem_keys_iff.mpr hafter
  · rintro ⟨before, after, rfl, hafter⟩
    refine ⟨after.reverse, before.reverse, by simp, fun layer hlayer => ?_⟩
    exact not_mem_keys_iff.mp hafter layer (List.mem_reverse.mp hlayer)

theorem mem_placed_iff : (name, value) ∈ placed layers ↔ SaidLast layers name value := by
  rw [← lookup_eq_some_iff_mem (nodup_keys_placed layers), lookup_placed,
    lookup_reverse_eq_some_iff]

theorem mem_keys_placed (layers : List (String × α)) (name : String) :
    name ∈ (placed layers).map (·.1) ↔ name ∈ layers.map (·.1) := by
  induction layers using List.reverseRecOn with
  | nil => rfl
  | append_singleton layers layer ih =>
    rw [placed_concat, mem_keys_place, ih, List.map_append, List.mem_append, List.map_singleton,
      List.mem_singleton, or_comm]

theorem saidLast_concat (layers : List (String × α)) (name : String) (value other : α) :
    SaidLast (layers ++ [(name, value)]) name other ↔ other = value := by
  rw [← lookup_reverse_eq_some_iff, List.reverse_append, List.reverse_singleton,
    List.singleton_append, List.lookup_cons_self, Option.some.injEq, eq_comm]

end Placed

/-- The names that are seen so far, in order, and what each of them stands for. -/
structure Gathered where
  order : List String := []
  contents : Std.HashMap String Content := {}

namespace Gathered

def add (g : Gathered) (name : String) (content : Content) : Gathered where
  order := if g.contents[name]?.isNone then g.order ++ [name] else g.order
  contents := g.contents.insert name content

def templates? (g : Gathered) : Option (List (String × Content)) :=
  g.order.mapM fun name => g.contents[name]?.map fun content => (name, content)

def ofLayers (layers : List (String × Content)) : Gathered :=
  layers.foldl (fun g (name, content) => g.add name content) {}

structure Holds (g : Gathered) (layers : List (String × Content)) : Prop where
  order : g.order = layers.map (·.1)
  contents : ∀ name, g.contents[name]? = layers.lookup name

variable {g : Gathered} {layers : List (String × Content)}

theorem Holds.add (h : g.Holds layers) (name : String) (content : Content) :
    (g.add name content).Holds (place name content layers) where
  order := by
    -- the table holds nothing under a name exactly if the name is not in the order yet
    have hnew : g.contents[name]?.isNone = true ↔ name ∉ layers.map (·.1) := by
      rw [h.contents, Option.isNone_iff_eq_none, List.lookup_eq_none_iff, not_mem_keys_iff]
    rw [Gathered.add, keys_place, h.order]
    by_cases hname : name ∈ layers.map (·.1)
    · rw [if_neg (hnew.not.mpr (not_not_intro hname)), if_pos hname]
    · rw [if_pos (hnew.mpr hname), if_neg hname]
  contents other := by
    rw [Gathered.add, Std.HashMap.getElem?_insert, lookup_place, h.contents]
    simp only [beq_iff_eq, eq_comm (a := other)]

theorem holds_ofLayers (layers : List (String × Content)) :
    (ofLayers layers).Holds (placed layers) := by
  induction layers using List.reverseRecOn with
  | nil => exact ⟨rfl, fun name => Std.HashMap.getElem?_empty⟩
  | append_singleton layers layer ih =>
    rw [placed_concat, ofLayers, List.foldl_append]
    exact ih.add layer.1 layer.2

theorem Holds.templates? (h : g.Holds layers) (hnames : (layers.map (·.1)).Nodup) :
    g.templates? = some layers := by
  have hfound : ∀ layer ∈ layers, g.contents[layer.1]? = some layer.2 := by
    intro layer hlayer
    rw [h.contents]
    exact (lookup_eq_some_iff_mem hnames).mpr hlayer
  rw [Gathered.templates?, h.order]
  clear h hnames
  induction layers with
  | nil => rfl
  | cons layer layers ih =>
    rw [List.map_cons, List.mapM_cons, ih fun other hother => hfound other (.tail _ hother),
      hfound layer List.mem_cons_self]
    rfl

end Gathered

theorem layered_eq_placed (o : RenderOptions) (user : UserTemplates) :
    layered o user = placed (allLayers o user) := rfl

theorem keys_allLayers (o : RenderOptions) (user : UserTemplates) (name : String) :
    name ∈ (allLayers o user).map (·.1) ↔
      name ∈ Layout.templates.map (·.name) ∨ name ∈ user.files.map (·.name) ∨ name = rootName := by
  simp only [allLayers, List.map_append, List.map_map, List.mem_append, List.map_singleton,
    List.mem_singleton, or_assoc]
  rfl

theorem layered_congr {o o' : RenderOptions} {user user' : UserTemplates}
    (htemplate : o.template = o'.template) (htexts : user.texts = user'.texts) :
    layered o user = layered o' user' := by
  have hroot : allLayers o user' = allLayers o' user' := by
    rw [allLayers, allLayers, htemplate]
  rw [layered, layered, allLayers_congr o htexts, hroot]

/-- One pass over the layout, the files of plugins, partials and helpers and the root gathers every
name of theirs once, with what is said last under it; the root keeps what the options say. Only the
names and contents of the files count, in their order and not in their roles, and so pages with the
same parts in their keys have the same templates. -/
theorem later_layers_win (o : RenderOptions) (user : UserTemplates) :
    (Gathered.ofLayers (allLayers o user)).templates? = some (layered o user) ∧
      ((layered o user).map (·.1)).Nodup ∧
      (∀ name, name ∈ (layered o user).map (·.1) ↔
        name ∈ Layout.templates.map (·.name) ∨ name ∈ user.files.map (·.name) ∨ name = rootName) ∧
      (∀ name content, (name, content) ∈ layered o user ↔
        SaidLast (allLayers o user) name content) ∧
      (∀ content, (rootName, content) ∈ layered o user ↔ content = .text o.template) ∧
      (∀ (o' : RenderOptions) (user' : UserTemplates), o'.template = o.template →
        user'.texts = user.texts → layered o' user' = layered o user) ∧
      ∀ (es es' : List Entry) (o' : RenderOptions) (user' : UserTemplates),
        o'.keyParts es' user' = o.keyParts es user → layered o' user' = layered o user := by
  have hnames : ((layered o user).map (·.1)).Nodup := nodup_keys_placed _
  refine ⟨?_, hnames, ?_, ?_, ?_, ?_, ?_⟩
  · exact (Gathered.holds_ofLayers _).templates? hnames
  · intro name
    rw [layered_eq_placed, mem_keys_placed, keys_allLayers]
  · intro name content
    rw [layered_eq_placed, mem_placed_iff]
  · intro content
    rw [layered_eq_placed, mem_placed_iff, allLayers, saidLast_concat]
  · intro o' user' htemplate htexts
    exact layered_congr htemplate htexts
  · intro es es' o' user' hparts
    obtain ⟨rfl, -, htexts⟩ := RenderOptions.keyParts_inj hparts
    exact layered_congr rfl htexts

def overlaid : UserTemplates where
  plugins := [{ name := "header", path := "plugin/header.tera", content := "plugin" }]
  partials := [{ name := "header", path := "header.tera", content := "partial" }]
  helpers := [{ name := rootName, path := "helper.tera", content := "helper" }]

def overlaidByPlugin : UserTemplates := { plugins := overlaid.files }

def overlaidByHelper : UserTemplates := { helpers := overlaid.files }

theorem later_layers_win_overlaid :
    ("header", .text "partial") ∈ layered {} overlaid ∧
      (rootName, .text defaultTemplate) ∈ layered {} overlaid ∧
      overlaidByPlugin.texts = overlaid.texts ∧
      layered {} overlaidByPlugin = layered {} overlaid ∧
      RenderOptions.keyParts {} [] overlaidByHelper = RenderOptions.keyParts {} [] overlaid ∧
      layered {} overlaidByHelper = layered {} overlaid := by
  obtain ⟨-, -, -, hlast, hroot, hroles, hkeys⟩ := later_layers_win {} overlaid
  have hheader : SaidLast (allLayers {} overlaid) "header" (.text "partial") := by
    refine ⟨Layout.templates.map (fun t => (t.name, .layout t.nodes)) ++
      [("header", .text "plugin")], [(rootName, .text "helper"), (rootName, .text defaultTemplate)],
      rfl, ?_⟩
    decide
  have htexts : overlaidByPlugin.texts = overlaid.texts := by decide
  have hparts : RenderOptions.keyParts {} [] overlaidByHelper =
      RenderOptions.keyParts {} [] overlaid :=
    RenderOptions.keyParts_congr {} [] (by decide)
  exact ⟨(hlast _ _).mpr hheader, (hroot _).mpr rfl, htexts, hroles {} overlaidByPlugin rfl htexts,
    hparts, hkeys [] [] {} overlaidByHelper hparts⟩

end ApiPages.Template
