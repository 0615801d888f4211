import ApiPages.Template.Render

/-!
The templates of a run that nobody adds to: the default layout under its names, and a root that uses
all of it.
-/
namespace ApiPages.Template

theorem place_of_not_mem {name : String} {layers : List (String × α)} (value : α)
    (h : name ∉ layers.map (·.1)) : place name value layers = layers ++ [(name, value)] := by
  induction layers with
  | nil => rfl
  | cons layer layers ih =>
    rw [List.map_cons, List.mem_cons, not_or] at h
    rw [place, if_neg (Ne.symm h.1), ih h.2, List.cons_append]

theorem foldl_place {layers more : List (String × α)} (h : ((layers ++ more).map (·.1)).Nodup) :
    more.foldl (fun layers (name, value) => place name value layers) layers = layers ++ more := by
  induction more generalizing layers with
  | nil => simp
  | cons layer more ih =>
    obtain ⟨name, value⟩ := layer
    have hname : name ∉ layers.map (·.1) := by
      rw [List.map_append, List.nodup_append] at h
      exact fun hmem => h.2.2 _ hmem _ List.mem_cons_self rfl
    rw [List.append_cons] at h ⊢
    rw [← ih h, ← place_of_not_mem value hname]
    rfl

def usesOnly (name : String) : List Node → Bool
  | [.use other] => other == name
  | _ => false

theorem nodesOf?_defaultTemplate : nodesOf? defaultTemplate = some [.use "main"] := by
  have huses : (nodesOf? defaultTemplate).map (usesOnly "main") = some true := by decide +kernel
  obtain ⟨nodes, hnodes, hmain⟩ := Option.map_eq_some_iff.mp huses
  rw [usesOnly.eq_def] at hmain
  split at hmain
  · rw [hnodes, eq_of_beq hmain]
  · cases hmain

def standardTemplates : List Named := Layout.templates ++ [⟨rootName, [.use "main"]⟩]

def standardLayers : List (String × Content) :=
  Layout.templates.map (fun t => (t.name, .layout t.nodes)) ++ [(rootName, .text defaultTemplate)]

theorem layered_default {o : RenderOptions} (h : o.template = defaultTemplate) :
    layered o {} = standardLayers := by
  have hall : allLayers o {} = standardLayers := by
    rw [allLayers, h]
    rfl
  have hnames : (standardLayers.map (·.1)).Nodup := by decide
  rw [layered, hall]
  exact foldl_place (by rwa [List.nil_append])

theorem mapM_ready_standardLayers :
    standardLayers.mapM (fun (name, content) => ready name content) = .ok standardTemplates := by
  have hroot : ready rootName (.text defaultTemplate) = .ok ⟨rootName, [.use "main"]⟩ := by
    rw [ready, Named.read, nodesOf?_defaultTemplate]
    rfl
  simp only [standardLayers, List.mapM_append, List.mapM_cons, hroot]
  rfl

theorem load_default {o : RenderOptions} (h : o.template = defaultTemplate) :
    load (layered o {}) = .ok standardTemplates := by
  rw [load, layered_default h, mapM_ready_standardLayers]
  rfl

theorem find?_standardTemplates :
    ∀ t ∈ Layout.templates, find? standardTemplates t.name = some t := by
  simp only [Layout.templates, List.forall_mem_cons]
  refine ⟨rfl, rfl, rfl, rfl, rfl, rfl, rfl, rfl, rfl, rfl, rfl, rfl, rfl, rfl, ?_⟩
  exact List.forall_mem_nil _

end ApiPages.Template
