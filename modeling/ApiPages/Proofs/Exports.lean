import Mathlib.Data.List.Infix
import ApiPages.Proofs.Entries
import ApiPages.Proofs.Text.Cutting

/-!
Which entries are marked as exports. A static entry is marked when the name of its parent begins as
that of a module does, and that is how the names of all begin that stand inside of one. Main
statement: a mark is right exactly if no such name misleads it; and where names are made of parents,
what is static is marked at any depth inside a module, in its classes as well.
-/
namespace ApiPages.Catalogue

def NamesModule (name : String) : Prop := "module:".toList <+: name.toList

instance (name : String) : Decidable (NamesModule name) :=
  inferInstanceAs (Decidable ("module:".toList <+: name.toList))

def IsNamesake (es : List Entry) (e : Entry) : Prop :=
  e.kind ≠ .module ∧ ∃ m ∈ es, m.kind = .module ∧ e.longname = m.longname

instance (es : List Entry) (e : Entry) : Decidable (IsNamesake es e) :=
  inferInstanceAs (Decidable (_ ∧ _))

def IsModuleExport (es : List Entry) (e : Entry) : Prop :=
  e.kind ≠ .module ∧
    ((e.scope = some .staticScope ∧ ∃ m ∈ es, m.kind = .module ∧ e.memberof = some m.longname) ∨
      ∃ m ∈ es, m.kind = .module ∧ e.longname = m.longname)

instance (es : List Entry) (e : Entry) : Decidable (IsModuleExport es e) :=
  inferInstanceAs (Decidable (_ ∧ _))

/-- A static entry whose parent begins as a module does and is none, or the other way round, or
which is a module itself. -/
def IsMisled (es : List Entry) (e : Entry) : Prop :=
  e.scope = some .staticScope ∧ ¬ IsNamesake es e ∧ ∃ parent ∈ es,
    e.memberof = some parent.longname ∧
      ¬ (NamesModule parent.longname ↔ e.kind ≠ .module ∧ parent.kind = .module)

/-- The names of a module and of what stands inside of it, at any depth. -/
inductive Inside (es : List Entry) : String → Prop
  | module {m : Entry} (hm : m ∈ es) (hkind : m.kind = .module) : Inside es m.longname
  | member {e : Entry} {p : String} (he : e ∈ es) (hmember : e.memberof = some p)
      (hparent : Inside es p) : Inside es e.longname

def shown (showPrivate : Bool) (doclets : List Doclet) : List Doclet :=
  doclets.filter (·.isShown showPrivate)

/-- Every parent is shown, and what has members shares its name with no module unless it is one. -/
structure Parented (showPrivate : Bool) (doclets : List Doclet) : Prop where
  parent : ∀ d ∈ shown showPrivate doclets, ∀ p ∈ d.memberof,
    ∃ parent ∈ shown showPrivate doclets, parent.longname = p
  apart : ∀ m ∈ shown showPrivate doclets, m.kind = .module →
    ∀ parent ∈ shown showPrivate doclets, parent.kind ≠ .module → parent.longname = m.longname →
      ∀ d ∈ shown showPrivate doclets, d.memberof ≠ some parent.longname

/-- Names are made of parents: that of a member is its parent, a separator and a label, and one that
begins as a module does and has no parent is that of a module. -/
structure NamedByParents (showPrivate : Bool) (doclets : List Doclet) : Prop where
  module : ∀ d ∈ shown showPrivate doclets, d.kind = .module → NamesModule d.longname
  top : ∀ d ∈ shown showPrivate doclets, d.memberof = none → NamesModule d.longname →
    ∃ m ∈ shown showPrivate doclets, m.kind = .module ∧ m.longname = d.longname
  member : ∀ d ∈ shown showPrivate doclets, ∀ p ∈ d.memberof, ∃ scope : Scope, ∃ label,
    scope ≠ .globalScope ∧ d.longname = p ++ scope.separator ++ label

variable {showPrivate : Bool} {doclets : List Doclet}

theorem mem_modules {es : List Entry} {name : String} :
    name ∈ modules es ↔ ∃ m ∈ es, m.kind = .module ∧ name = m.longname := by
  simp [modules, and_assoc, eq_comm]

theorem modules_of_content {es es' : List Entry}
    (h : es.map Entry.content = es'.map Entry.content) : modules es = modules es' := by
  have hsame (es : List Entry) : modules (es.map Entry.content) = modules es := by
    simp only [modules, List.filter_map, List.map_map]
    rfl
  rw [← hsame es, h, hsame]

theorem isExport_iff {names : List String} {e : Entry} :
    isExport names e = true ↔
      (e.scope = some .staticScope ∧ ∃ p, e.memberof = some p ∧ NamesModule p) ∨
        (e.kind ≠ .module ∧ e.longname ∈ names) := by
  simp [isExport, Text.startsWith_iff, NamesModule, Option.any_eq_true]

theorem isExported_eq {e : Entry} (h : e ∈ ofDoclets showPrivate doclets) :
    e.isExported = isExport (modules (ofDoclets showPrivate doclets)) e := by
  have hmodules : modules (ofDoclets showPrivate doclets) =
      modules ((doclets.filter (·.isShown showPrivate)).flatMap fun d => (Entry.ofDoclet d).parts) := by
    rw [flatMap_filter]
    exact modules_of_content (content_ofDoclets showPrivate doclets)
  rw [hmodules]
  obtain ⟨⟨draft, i⟩, -, rfl⟩ := List.mem_map.mp h
  rfl

theorem isExported_iff {e : Entry} (h : e ∈ ofDoclets showPrivate doclets) :
    e.isExported = true ↔
      (e.scope = some .staticScope ∧ ∃ p, e.memberof = some p ∧ NamesModule p) ∨
        IsNamesake (ofDoclets showPrivate doclets) e := by
  rw [isExported_eq h, isExport_iff, mem_modules]
  rfl

theorem isModuleExport_iff {es : List Entry} {e : Entry} :
    IsModuleExport es e ↔
      (e.scope = some .staticScope ∧ e.kind ≠ .module ∧
        ∃ m ∈ es, m.kind = .module ∧ e.memberof = some m.longname) ∨ IsNamesake es e := by
  rw [IsModuleExport, IsNamesake, and_or_left]
  exact or_congr_left and_left_comm

structure SplitOff (d : Doclet) (e : Entry) : Prop where
  isClass : d.kind = .classKind
  kind : e.kind = .constructor
  scope : e.scope = none
  longname : e.longname = d.longname
  memberof : e.memberof = some d.longname

theorem SplitOff.congr {d : Doclet} {e e' : Entry} (h : SplitOff d e)
    (he : e'.content = e.content) : SplitOff d e' where
  isClass := h.isClass
  kind := (congrArg Entry.kind he).trans h.kind
  scope := (congrArg Entry.scope he).trans h.scope
  longname := (congrArg Entry.longname he).trans h.longname
  memberof := (congrArg Entry.memberof he).trans h.memberof

theorem shows_or_splitOff {d : Doclet} {e : Entry} (h : e ∈ (Entry.ofDoclet d).parts) :
    Shows d e ∨ SplitOff d e := by
  rw [Entry.parts] at h
  split at h
  · rename_i hclass
    rcases List.mem_cons.mp h with rfl | h
    · exact .inl (shows_classPart d)
    · split at h
      · exact absurd h List.not_mem_nil
      · cases List.mem_singleton.mp h
        exact .inr ⟨hclass, rfl, rfl, rfl, rfl⟩
  · cases List.mem_singleton.mp h
    exact .inl (shows_ofDoclet d)

theorem exists_shown_of_mem {e : Entry} (h : e ∈ ofDoclets showPrivate doclets) :
    ∃ d ∈ shown showPrivate doclets, Shows d e ∨ SplitOff d e := by
  obtain ⟨d, hd, hshown, part, hpart, hcontent⟩ := exists_doclet_of_mem h
  exact ⟨d, List.mem_filter.mpr ⟨hd, hshown⟩,
    (shows_or_splitOff hpart).imp (·.congr hcontent.symm) (·.congr hcontent.symm)⟩

theorem exists_shown_of_static {e : Entry} (h : e ∈ ofDoclets showPrivate doclets)
    (hstatic : e.scope = some .staticScope) : ∃ d ∈ shown showPrivate doclets, Shows d e := by
  obtain ⟨d, hd, hshows | hsplit⟩ := exists_shown_of_mem h
  · exact ⟨d, hd, hshows⟩
  · simp [hsplit.scope] at hstatic

theorem exists_entry_of_shown {d : Doclet} (h : d ∈ shown showPrivate doclets) :
    ∃ e ∈ ofDoclets showPrivate doclets, Shows d e := by
  obtain ⟨hd, hshown⟩ := List.mem_filter.mp h
  obtain ⟨⟨part, more⟩, hbecomes, hparts⟩ := exists_becomes d
  have hshows : Shows d part := by cases hbecomes <;> assumption
  have hmade : part ∈ doclets.flatMap (entriesOf showPrivate) := by
    refine List.mem_flatMap.mpr ⟨d, hd, ?_⟩
    rw [entriesOf, if_pos hshown, hparts]
    exact List.mem_cons_self
  have hmem := List.mem_map_of_mem (f := Entry.content) hmade
  rw [← content_ofDoclets] at hmem
  obtain ⟨e, he, hcontent⟩ := List.mem_map.mp hmem
  exact ⟨e, he, hshows.congr hcontent⟩

theorem exists_shown_named {e : Entry} (h : e ∈ ofDoclets showPrivate doclets) :
    ∃ d ∈ shown showPrivate doclets,
      d.longname = e.longname ∧ (d.kind = .module ↔ e.kind = .module) := by
  obtain ⟨d, hd, hshows | hsplit⟩ := exists_shown_of_mem h
  · exact ⟨d, hd, hshows.longname.symm, by rw [hshows.kind]⟩
  · exact ⟨d, hd, hsplit.longname.symm, by simp [hsplit.isClass, hsplit.kind]⟩

theorem Parented.kind_parent_iff (h : Parented showPrivate doclets) {e parent : Entry}
    (he : e ∈ ofDoclets showPrivate doclets) (hstatic : e.scope = some .staticScope)
    (hparent : parent ∈ ofDoclets showPrivate doclets)
    (hmember : e.memberof = some parent.longname) :
    parent.kind = .module ↔
      ∃ m ∈ ofDoclets showPrivate doclets, m.kind = .module ∧ e.memberof = some m.longname := by
  refine ⟨fun hkind => ⟨parent, hparent, hkind, hmember⟩, fun ⟨m, hm, hmodule, hname⟩ => ?_⟩
  have hlongname : parent.longname = m.longname := Option.some.inj (hmember.symm.trans hname)
  obtain ⟨d, hd, hshows⟩ := exists_shown_of_static he hstatic
  obtain ⟨p, hp, hpname, hpkind⟩ := exists_shown_named hparent
  obtain ⟨md, hmd, hmdname, hmdkind⟩ := exists_shown_named hm
  by_contra hother
  refine h.apart md hmd (hmdkind.mpr hmodule) p hp (mt hpkind.mp hother) ?_ d hd ?_
  · rw [hpname, hlongname, hmdname]
  · rw [← hshows.memberof, hmember, hpname]

theorem Parented.isMisled_iff (h : Parented showPrivate doclets) {e parent : Entry}
    (he : e ∈ ofDoclets showPrivate doclets) (hstatic : e.scope = some .staticScope)
    (hnamesake : ¬ IsNamesake (ofDoclets showPrivate doclets) e)
    (hparent : parent ∈ ofDoclets showPrivate doclets)
    (hmember : e.memberof = some parent.longname) :
    IsMisled (ofDoclets showPrivate doclets) e ↔
      ¬ (NamesModule parent.longname ↔ e.kind ≠ .module ∧
        ∃ m ∈ ofDoclets showPrivate doclets, m.kind = .module ∧ e.memberof = some m.longname) := by
  constructor
  · rintro ⟨-, -, q, hq, hqmember, hwrong⟩
    have hlongname : parent.longname = q.longname := Option.some.inj (hmember.symm.trans hqmember)
    rwa [h.kind_parent_iff he hstatic hq hqmember, ← hlongname] at hwrong
  · intro hwrong
    rw [← h.kind_parent_iff he hstatic hparent hmember] at hwrong
    exact ⟨hstatic, hnamesake, parent, hparent, hmember, hwrong⟩

theorem Parented.isExported_iff_isModuleExport (h : Parented showPrivate doclets) {e : Entry}
    (he : e ∈ ofDoclets showPrivate doclets) :
    (e.isExported = true ↔ IsModuleExport (ofDoclets showPrivate doclets) e) ↔
      ¬ IsMisled (ofDoclets showPrivate doclets) e := by
  rw [isExported_iff he, isModuleExport_iff]
  by_cases hnamesake : IsNamesake (ofDoclets showPrivate doclets) e
  · simp [IsMisled, hnamesake]
  by_cases hstatic : e.scope = some .staticScope
  · cases hmember : e.memberof with
    | none => simp [IsMisled, hnamesake, hmember]
    | some p =>
      obtain ⟨d, hd, hshows⟩ := exists_shown_of_static he hstatic
      obtain ⟨pd, hpd, rfl⟩ := h.parent d hd p (hshows.memberof.symm.trans hmember)
      obtain ⟨parent, hparent, hshowsParent⟩ := exists_entry_of_shown hpd
      rw [← hshowsParent.longname] at hmember ⊢
      rw [h.isMisled_iff he hstatic hnamesake hparent hmember, not_not, hmember]
      simp [hnamesake, hstatic]
  · simp [IsMisled, hnamesake, hstatic]

theorem namesModule_of_append {p label : String} {scope : Scope} (hscope : scope ≠ .globalScope)
    (h : NamesModule (p ++ scope.separator ++ label)) : NamesModule p := by
  rw [NamesModule, String.toList_append, String.toList_append, List.append_assoc] at h
  rcases List.prefix_or_prefix_of_prefix h (List.prefix_append _ _) with hwhole | ⟨rest, hrest⟩
  · exact hwhole
  · rw [← hrest, List.prefix_append_right_inj] at h
    cases rest with
    | nil => exact ⟨[], by rw [List.append_nil, ← hrest, List.append_nil]⟩
    | cons c rest =>
      obtain ⟨s, hs, hseparator⟩ : ∃ s ∉ "module:".toList, scope.separator.toList = [s] := by
        cases scope with
        | globalScope => exact absurd rfl hscope
        | staticScope => exact ⟨'.', by decide, rfl⟩
        | instanceScope => exact ⟨'#', by decide, rfl⟩
        | innerScope => exact ⟨'~', by decide, rfl⟩
      rw [hseparator, List.singleton_append, List.cons_prefix_cons] at h
      exact absurd (hrest ▸ List.mem_append_right _ (h.1 ▸ List.mem_cons_self)) hs

namespace NamedByParents

theorem namesModule (h : NamedByParents showPrivate doclets) {name : String}
    (hinside : Inside (ofDoclets showPrivate doclets) name) : NamesModule name := by
  induction hinside with
  | module hm hkind =>
    obtain ⟨d, hd, hname, hmodule⟩ := exists_shown_named hm
    rw [← hname]
    exact h.module d hd (hmodule.mpr hkind)
  | @member e p he hmember _ ih =>
    obtain ⟨d, hd, hshows | hsplit⟩ := exists_shown_of_mem he
    · obtain ⟨scope, label, -, hname⟩ := h.member d hd p (hshows.memberof.symm.trans hmember)
      rw [hshows.longname, hname, NamesModule, String.toList_append, String.toList_append,
        List.append_assoc]
      exact ih.trans (List.prefix_append _ _)
    · rw [hsplit.longname, Option.some.inj (hsplit.memberof.symm.trans hmember)]
      exact ih

theorem inside (h : NamedByParents showPrivate doclets) (hparented : Parented showPrivate doclets)
    {d : Doclet} (hd : d ∈ shown showPrivate doclets) (hname : NamesModule d.longname) :
    Inside (ofDoclets showPrivate doclets) d.longname := by
  induction hn : d.longname.length using Nat.strong_induction_on generalizing d with
  | _ n ih =>
    cases hmember : d.memberof with
    | none =>
      obtain ⟨m, hm, hkind, hsame⟩ := h.top d hd hmember hname
      obtain ⟨e, he, hshows⟩ := exists_entry_of_shown hm
      rw [← hsame, ← hshows.longname]
      exact .module he (hshows.kind.trans hkind)
    | some p =>
      obtain ⟨scope, label, hscope, hlong⟩ := h.member d hd p hmember
      obtain ⟨parent, hparent, rfl⟩ := hparented.parent d hd p hmember
      have hshorter : parent.longname.length < n := by
        have hseparator : 0 < scope.separator.length := by
          cases scope with
          | globalScope => exact absurd rfl hscope
          | staticScope | instanceScope | innerScope => decide
        rw [← hn, hlong, String.length_append, String.length_append]
        omega
      obtain ⟨e, he, hshows⟩ := exists_entry_of_shown hd
      rw [hlong] at hname
      rw [← hshows.longname]
      exact .member he (hshows.memberof.trans hmember)
        (ih _ hshorter hparent (namesModule_of_append hscope hname) rfl)

theorem isExported_iff_inside (h : NamedByParents showPrivate doclets)
    (hparented : Parented showPrivate doclets) {e : Entry}
    (he : e ∈ ofDoclets showPrivate doclets) :
    e.isExported = true ↔
      (e.scope = some .staticScope ∧
        ∃ p, e.memberof = some p ∧ Inside (ofDoclets showPrivate doclets) p) ∨
        IsNamesake (ofDoclets showPrivate doclets) e := by
  rw [isExported_iff he]
  refine or_congr_left (and_congr_right fun hstatic => exists_congr fun p =>
    and_congr_right fun hmember => ⟨fun hname => ?_, h.namesModule⟩)
  obtain ⟨d, hd, hshows⟩ := exists_shown_of_static he hstatic
  obtain ⟨parent, hparent, rfl⟩ := hparented.parent d hd p (hshows.memberof.symm.trans hmember)
  exact h.inside hparented hparent hname

end NamedByParents

/-- The marks are those of the exports of modules exactly where no name of a parent misleads; names
that are made of parents mislead wherever a static member is deeper inside a module. -/
theorem exports_marked_iff (h : Parented showPrivate doclets) :
    (∀ e ∈ ofDoclets showPrivate doclets,
      (e.isExported = true ↔ IsModuleExport (ofDoclets showPrivate doclets) e) ↔
        ¬ IsMisled (ofDoclets showPrivate doclets) e) ∧
      (NamedByParents showPrivate doclets → ∀ e ∈ ofDoclets showPrivate doclets,
        e.isExported = true ↔
          (e.scope = some .staticScope ∧
            ∃ p, e.memberof = some p ∧ Inside (ofDoclets showPrivate doclets) p) ∨
            IsNamesake (ofDoclets showPrivate doclets) e) :=
  ⟨fun _ he => h.isExported_iff_isModuleExport he,
    fun hnamed _ he => hnamed.isExported_iff_inside h he⟩

def shapes : List Doclet :=
  [{ kind := .module, name := "shapes", longname := "module:shapes" },
    { kind := .classKind, name := "Circle", longname := "module:shapes~Circle",
      memberof := some "module:shapes", scope := some .innerScope },
    { kind := .function, name := "create", longname := "module:shapes~Circle.create",
      memberof := some "module:shapes~Circle", scope := some .staticScope }]

theorem parented_shapes : Parented false shapes where
  parent := by decide +kernel
  apart := by decide +kernel

theorem namedByParents_shapes : NamedByParents false shapes where
  module := by decide +kernel
  top := by decide +kernel
  member := by
    have hshown : shown false shapes = shapes := by decide +kernel
    intro d hd p hp
    rw [hshown] at hd
    simp only [shapes, List.mem_cons, List.not_mem_nil, or_false] at hd
    rcases hd with rfl | rfl | rfl
    · cases hp
    · cases hp
      exact ⟨.innerScope, "Circle", by decide, by decide +kernel⟩
    · cases hp
      exact ⟨.staticScope, "create", by decide, by decide +kernel⟩

theorem exports_marked_shapes :
    Parented false shapes ∧ NamedByParents false shapes ∧
      ∃ e ∈ ofDoclets false shapes, e.longname = "module:shapes~Circle.create" ∧
        e.isExported = true ∧ IsMisled (ofDoclets false shapes) e := by
  obtain ⟨hmarks, hinside⟩ := exports_marked_iff parented_shapes
  obtain ⟨c, hc, hcname, hcmember⟩ : ∃ c ∈ ofDoclets false shapes,
      c.longname = "module:shapes~Circle" ∧ c.memberof = some "module:shapes" := by decide +kernel
  obtain ⟨m, hm, hmname, hmkind⟩ : ∃ m ∈ ofDoclets false shapes,
      m.longname = "module:shapes" ∧ m.kind = .module := by decide +kernel
  obtain ⟨e, he, hname, hstatic, hmember, hother⟩ : ∃ e ∈ ofDoclets false shapes,
      e.longname = "module:shapes~Circle.create" ∧ e.scope = some .staticScope ∧
        e.memberof = some "module:shapes~Circle" ∧
          ¬ IsModuleExport (ofDoclets false shapes) e := by decide +kernel
  have hparent : Inside (ofDoclets false shapes) "module:shapes~Circle" :=
    hcname ▸ .member hc hcmember (hmname ▸ .module hm hmkind)
  have hmarked : e.isExported = true :=
    (hinside namedByParents_shapes e he).mpr (.inl ⟨hstatic, _, hmember, hparent⟩)
  refine ⟨parented_shapes, namedByParents_shapes, e, he, hname, hmarked, ?_⟩
  by_contra hright
  exact hother (((hmarks e he).mpr hright).mp hmarked)

theorem exports_not_marked : ¬ ∀ (showPrivate : Bool) (doclets : List Doclet),
    Parented showPrivate doclets → ∀ e ∈ ofDoclets showPrivate doclets,
      (e.isExported = true ↔ IsModuleExport (ofDoclets showPrivate doclets) e) := by
  intro hall
  exact absurd (hall false shapes parented_shapes) (by decide +kernel)

end ApiPages.Catalogue
