import ApiPages.Page.Index

/-!
Which entries the indexes show. A row of the module index belongs to a module at the top of the
outline, and a row of the groups to any other entry there, for every kind has a place in the order of
the groups.
-/
namespace ApiPages

theorem Kind.mem_all (kind : Kind) : kind ∈ Kind.all := by
  cases kind <;> decide

variable {entries : List Entry} {o : RenderOptions}

theorem mem_moduleIndex {r : IndexRow} :
    r ∈ moduleIndex entries o ↔ ∃ e ∈ (Outline.top entries).map (·.1), e.kind = .module ∧
      IndexRow.of entries o.nameFormat ((Formats.of o).moduleIndex = .table) e = r := by
  simp only [moduleIndex, List.mem_map (f := IndexRow.of _ _ _), List.mem_filter, decide_eq_true_eq,
    and_assoc]

theorem mem_indexGroup? {kind : Kind} {r : IndexRow} :
    (∃ g ∈ indexGroup? entries o kind, r ∈ g.rows) ↔
      ∃ e ∈ (Outline.top entries).map (·.1), e.kind = kind ∧
        IndexRow.of entries o.nameFormat ((Formats.of o).globalIndex = .table) e = r := by
  have hmembers : r ∈ (((Outline.top entries).map (·.1)).filter (·.kind = kind)).map
      (IndexRow.of entries o.nameFormat ((Formats.of o).globalIndex = .table)) ↔
        ∃ e ∈ (Outline.top entries).map (·.1), e.kind = kind ∧
          IndexRow.of entries o.nameFormat ((Formats.of o).globalIndex = .table) e = r := by
    simp only [List.mem_map (f := IndexRow.of _ _ _), List.mem_filter, decide_eq_true_eq, and_assoc]
  rw [← hmembers, indexGroup?]
  split
  next hnone => simp [hnone]
  next => simp

theorem mem_globalIndex {r : IndexRow} :
    (∃ g ∈ globalIndex entries o, r ∈ g.rows) ↔
      ∃ e ∈ (Outline.top entries).map (·.1), e.kind ≠ .module ∧
        IndexRow.of entries o.nameFormat ((Formats.of o).globalIndex = .table) e = r := by
  constructor
  · rintro ⟨g, hg, hr⟩
    obtain ⟨kind, hkind, hgroup⟩ := List.mem_filterMap.mp hg
    obtain ⟨e, he, rfl, hrow⟩ := mem_indexGroup?.mp ⟨g, hgroup, hr⟩
    exact ⟨e, he, by simpa using (List.mem_filter.mp hkind).2, hrow⟩
  · rintro ⟨e, he, hplain, hrow⟩
    obtain ⟨g, hgroup, hr⟩ := mem_indexGroup?.mpr ⟨e, he, rfl, hrow⟩
    refine ⟨g, List.mem_filterMap.mpr ⟨e.kind, ?_, hgroup⟩, hr⟩
    exact List.mem_filter.mpr ⟨Kind.mem_all e.kind, by simpa using hplain⟩

end ApiPages
