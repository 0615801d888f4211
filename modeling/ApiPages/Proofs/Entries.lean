import Mathlib.Data.List.Forall2
import ApiPages.Proofs.Identifiers

/-!
The entries of a page as their doclets make them. Id, position and export mark are given to an entry
by the ones around it; all else is in it as its doclet made it. Main statements: the entries of one
doclet stand together on the page, between those of the doclets before and behind it; and the page is
one entry for each doclet that is shown, in their order, with a constructor behind the entry of every
class that does not hide it and behind no other.
-/
namespace ApiPages

def Entry.content (e : Entry) : Entry := { e with id := "", isExported := false, order := 0 }

theorem Entry.eq_of_content {e e' : Entry} (h : e.content = e'.content) :
    e.kind = e'.kind ∧ e.longname = e'.longname ∧ e.memberof = e'.memberof ∧ e.tags = e'.tags := by
  have hkind := congrArg Entry.kind h
  have hlongname := congrArg Entry.longname h
  have hmemberof := congrArg Entry.memberof h
  have htags := congrArg Entry.tags h
  exact ⟨hkind, hlongname, hmemberof, htags⟩

namespace Catalogue

variable {showPrivate : Bool}

def entriesOf (showPrivate : Bool) (d : Doclet) : List Entry :=
  if d.isShown showPrivate then (Entry.ofDoclet d).parts else []

theorem content_numbered (earlier : List String) (es : List Entry) :
    (numbered earlier es).map Entry.content = es.map Entry.content := by
  induction es generalizing earlier with
  | nil => rfl
  | cons e es ih =>
    rw [numbered, List.map_cons, List.map_cons, ih]
    rfl

theorem flatMap_filter {α β : Type} (p : α → Bool) (f : α → List β) (xs : List α) :
    (xs.filter p).flatMap f = xs.flatMap fun x => if p x then f x else [] := by
  induction xs with
  | nil => rfl
  | cons x xs ih => cases hp : p x <;> simp [hp, ih]

theorem content_ofDoclets (showPrivate : Bool) (doclets : List Doclet) :
    (ofDoclets showPrivate doclets).map Entry.content =
      (doclets.flatMap (entriesOf showPrivate)).map Entry.content := by
  have hmade : (doclets.filter (·.isShown showPrivate)).flatMap
      (fun d => (Entry.ofDoclet d).parts) = doclets.flatMap (entriesOf showPrivate) :=
    flatMap_filter _ _ doclets
  simp only [ofDoclets, List.map_map, hmade]
  exact (map_zipIdx_fst Entry.content _).trans (content_numbered [] _)

theorem ofDoclets_around (showPrivate : Bool) (earlier : List Doclet) (d : Doclet)
    (later : List Doclet) :
    ∃ front own back, ofDoclets showPrivate (earlier ++ d :: later) = front ++ own ++ back ∧
      own.map Entry.content = (entriesOf showPrivate d).map Entry.content := by
  have hcontent := content_ofDoclets showPrivate (earlier ++ d :: later)
  rw [List.flatMap_append, List.flatMap_cons, ← List.append_assoc, List.map_append,
    List.map_append] at hcontent
  obtain ⟨rest, back, hpage, hrest, -⟩ := List.map_eq_append_iff.mp hcontent
  obtain ⟨front, own, hparts, -, hown⟩ := List.map_eq_append_iff.mp hrest
  exact ⟨front, own, back, by rw [hpage, hparts], hown⟩

theorem longnames_parts (d : Doclet) :
    ∀ e ∈ (Entry.ofDoclet d).parts, e.longname = d.longname := by
  intro e he
  rw [Entry.parts] at he
  split at he
  · rcases List.mem_cons.mp he with rfl | he
    · rfl
    · split at he
      · simp at he
      · rw [List.mem_singleton.mp he]
        rfl
  · rw [List.mem_singleton.mp he]
    rfl

theorem exists_doclet_of_mem {doclets : List Doclet} {e : Entry}
    (h : e ∈ ofDoclets showPrivate doclets) :
    ∃ d ∈ doclets, d.isShown showPrivate = true ∧
      ∃ part ∈ (Entry.ofDoclet d).parts, part.content = e.content := by
  have hmem : e.content ∈ (ofDoclets showPrivate doclets).map Entry.content :=
    List.mem_map_of_mem h
  rw [content_ofDoclets] at hmem
  obtain ⟨part, hpart, hcontent⟩ := List.mem_map.mp hmem
  obtain ⟨d, hd, hpart⟩ := List.mem_flatMap.mp hpart
  rw [entriesOf] at hpart
  split at hpart
  · rename_i hshown
    exact ⟨d, hd, hshown, part, hpart, hcontent⟩
  · exact absurd hpart List.not_mem_nil

structure Shows (d : Doclet) (e : Entry) : Prop where
  kind : e.kind = d.kind
  name : e.name = d.name
  longname : e.longname = d.longname
  memberof : e.memberof = d.memberof
  scope : e.scope = d.scope
  place : e.place = d.place
  examples : e.examples.length = d.examples.length

theorem shows_ofDoclet (d : Doclet) : Shows d (Entry.ofDoclet d) :=
  ⟨rfl, rfl, rfl, rfl, rfl, rfl, List.length_map _⟩

theorem shows_classPart (d : Doclet) : Shows d (Entry.ofDoclet d).classPart :=
  ⟨rfl, rfl, rfl, rfl, rfl, rfl, List.length_map _⟩

theorem Shows.congr {d : Doclet} {e e' : Entry} (h : Shows d e) (he : e'.content = e.content) :
    Shows d e' where
  kind := (congrArg Entry.kind he).trans h.kind
  name := (congrArg Entry.name he).trans h.name
  longname := (congrArg Entry.longname he).trans h.longname
  memberof := (congrArg Entry.memberof he).trans h.memberof
  scope := (congrArg Entry.scope he).trans h.scope
  place := (congrArg Entry.place he).trans h.place
  examples := (congrArg (·.examples.length) he).trans h.examples

/-- What becomes of a doclet: its entry alone, or the entry of a class and its constructor, to which
the parameters and the exceptions go. -/
inductive Becomes (d : Doclet) : Entry × Option Entry → Prop
  | alone {e : Entry} (hshows : Shows d e)
      (hwhole : ¬ (d.kind = .classKind ∧ d.tags.hideConstructor = false)) : Becomes d (e, none)
  | split {e made : Entry} (hshows : Shows d e) (hclass : d.kind = .classKind)
      (hopen : d.tags.hideConstructor = false) (hkind : made.kind = .constructor)
      (hlongname : made.longname = e.longname) (hmember : made.memberof = some e.longname)
      (hparams : made.tags.params = d.tags.params ∧ e.tags.params = [])
      (hexceptions : made.tags.exceptions = d.tags.exceptions ∧ e.tags.exceptions = []) :
      Becomes d (e, some made)

def spread (group : Entry × Option Entry) : List Entry := group.1 :: group.2.toList

theorem exists_becomes (d : Doclet) :
    ∃ group, Becomes d group ∧ (Entry.ofDoclet d).parts = spread group := by
  by_cases hclass : d.kind = .classKind
  · have hparts : (Entry.ofDoclet d).parts = (Entry.ofDoclet d).classPart ::
        if d.tags.hideConstructor then [] else [(Entry.ofDoclet d).constructorPart] := if_pos hclass
    cases hhide : d.tags.hideConstructor with
    | true =>
      rw [hhide] at hparts
      exact ⟨(_, none), .alone (shows_classPart d) (by simp [hhide]), hparts⟩
    | false =>
      have hparams : (Entry.ofDoclet d).classPart.tags.params =
          if d.tags.hideConstructor then d.tags.params else [] := rfl
      have hexceptions : (Entry.ofDoclet d).classPart.tags.exceptions =
          if d.tags.hideConstructor then d.tags.exceptions else [] := rfl
      rw [hhide] at hparts hparams hexceptions
      refine ⟨(_, some (Entry.ofDoclet d).constructorPart), ?_, hparts⟩
      exact .split (shows_classPart d) hclass hhide rfl rfl rfl ⟨rfl, hparams⟩ ⟨rfl, hexceptions⟩
  · have hparts : (Entry.ofDoclet d).parts = [Entry.ofDoclet d] := if_neg hclass
    exact ⟨(_, none), .alone (shows_ofDoclet d) (fun h => hclass h.1), hparts⟩

/-- Entries of the same content as those of a doclet are what becomes of it. -/
theorem becomes_of_content {d : Doclet} {own : List Entry}
    (h : own.map Entry.content = (Entry.ofDoclet d).parts.map Entry.content) :
    ∃ group, Becomes d group ∧ own = spread group := by
  obtain ⟨group, hbecomes, hparts⟩ := exists_becomes d
  rw [hparts] at h
  cases hbecomes with
  | alone hshows hwhole =>
    obtain ⟨e, rest, rfl, he, hrest⟩ := List.map_eq_cons_iff.mp h
    cases List.map_eq_nil_iff.mp hrest
    exact ⟨(e, none), .alone (hshows.congr he) hwhole, rfl⟩
  | split hshows hclass hopen hkind hlongname hmember hparams hexceptions =>
    obtain ⟨e, rest, rfl, he, hrest⟩ := List.map_eq_cons_iff.mp h
    obtain ⟨made, rest, rfl, hmade, hnil⟩ := List.map_eq_cons_iff.mp hrest
    cases List.map_eq_nil_iff.mp hnil
    obtain ⟨-, hname, -, htags⟩ := Entry.eq_of_content he
    obtain ⟨hmadeKind, hmadeName, hmadeMember, hmadeTags⟩ := Entry.eq_of_content hmade
    refine ⟨(e, some made), .split (hshows.congr he) hclass hopen ?_ ?_ ?_ ?_ ?_, rfl⟩
    · rw [hmadeKind, hkind]
    · rw [hmadeName, hname, hlongname]
    · rw [hmadeMember, hname, hmember]
    · rw [hmadeTags, htags]
      exact hparams
    · rw [hmadeTags, htags]
      exact hexceptions

theorem exists_groups {doclets : List Doclet} {es : List Entry} (h : es.map Entry.content =
    (doclets.flatMap fun d => (Entry.ofDoclet d).parts).map Entry.content) :
    ∃ groups, es = groups.flatMap spread ∧ List.Forall₂ Becomes doclets groups := by
  induction doclets generalizing es with
  | nil => exact ⟨[], List.map_eq_nil_iff.mp h, .nil⟩
  | cons d doclets ih =>
    rw [List.flatMap_cons, List.map_append] at h
    obtain ⟨own, back, rfl, hown, hback⟩ := List.map_eq_append_iff.mp h
    obtain ⟨group, hbecomes, rfl⟩ := becomes_of_content hown
    obtain ⟨groups, rfl, hgroups⟩ := ih hback
    exact ⟨group :: groups, rfl, .cons hbecomes hgroups⟩

theorem isShown_eq (showPrivate : Bool) (d : Doclet) :
    d.isShown showPrivate = decide (d.longname ≠ "" ∧ d.undocumented = false ∧ d.ignored = false ∧
      d.kind ≠ .package ∧ d.kind ≠ .file ∧
        (showPrivate = true ∨ d.tags.access ≠ some .privateAccess)) := by
  rw [Doclet.isShown, Bool.eq_iff_iff]
  simp [and_assoc, and_comm, and_left_comm]

/-- The page is what becomes of the doclets that are shown, one by one and in their order. -/
theorem ofDoclets_eq_spread (showPrivate : Bool) (doclets : List Doclet) :
    (∃ groups, ofDoclets showPrivate doclets = groups.flatMap spread ∧
      List.Forall₂ Becomes
        (doclets.filter fun d => d.longname ≠ "" ∧ d.undocumented = false ∧ d.ignored = false ∧
          d.kind ≠ .package ∧ d.kind ≠ .file ∧
            (showPrivate = true ∨ d.tags.access ≠ some .privateAccess)) groups) ∧
      ∀ i e, (ofDoclets showPrivate doclets)[i]? = some e → e.order = UInt64.ofNat i := by
  constructor
  · have hshown : (doclets.filter fun d => d.isShown showPrivate) =
        doclets.filter fun d => d.longname ≠ "" ∧ d.undocumented = false ∧ d.ignored = false ∧
          d.kind ≠ .package ∧ d.kind ≠ .file ∧
            (showPrivate = true ∨ d.tags.access ≠ some .privateAccess) :=
      congrArg (doclets.filter ·) (funext (isShown_eq showPrivate))
    have hcontent := content_ofDoclets showPrivate doclets
    rw [← hshown]
    apply exists_groups
    rw [hcontent]
    exact congrArg (·.map Entry.content) (flatMap_filter _ _ doclets).symm
  · intro i e he
    obtain ⟨made, hmade, rfl⟩ := Option.map_eq_some_iff.mp ((List.getElem?_map ..).symm.trans he)
    obtain ⟨draft, -, rfl⟩ := Option.map_eq_some_iff.mp ((List.getElem?_zipIdx ..).symm.trans hmade)
    rw [Nat.zero_add]

end Catalogue

end ApiPages
