import Mathlib.Data.List.Forall2
import ApiPages.Extract.Input

/-!
Many inputs. Each is read with names of its own, so an input adds the same doclets wherever it
stands in a list of inputs. Main statement: the doclets of a list are those of its inputs, each
taken alone, in order, with one package doclet behind them that lists their paths; the first input
that cannot be read is the failure of the whole list.
-/
namespace ApiPages

section Traversal

variable {α β ε : Type} {f : α → Except ε β} {x : α} {xs : List α} {e : ε}

theorem mapM_cons_eq_ok_iff {ys : List β} :
    (x :: xs).mapM f = .ok ys ↔ ∃ y more, f x = .ok y ∧ xs.mapM f = .ok more ∧ ys = y :: more := by
  rw [List.mapM_cons]
  cases hx : f x with
  | error e => simp [bind, Except.bind]
  | ok y =>
    cases hxs : xs.mapM f with
    | error e => simp [bind, Except.bind]
    | ok more => simp [bind, Except.bind, pure, Except.pure, eq_comm]

theorem mapM_cons_eq_error_iff :
    (x :: xs).mapM f = .error e ↔
      f x = .error e ∨ (∃ y, f x = .ok y) ∧ xs.mapM f = .error e := by
  rw [List.mapM_cons]
  cases hx : f x with
  | error e' => simp [bind, Except.bind]
  | ok y => cases hxs : xs.mapM f <;> simp [bind, Except.bind, pure, Except.pure]

theorem mapM_eq_ok_iff {ys : List β} :
    xs.mapM f = .ok ys ↔ List.Forall₂ (fun x y => f x = .ok y) xs ys := by
  induction xs generalizing ys with
  | nil =>
    rw [List.forall₂_nil_left_iff, List.mapM_nil]
    exact ⟨fun h => (Except.ok.inj h).symm, fun h => congrArg Except.ok h.symm⟩
  | cons x xs ih =>
    rw [mapM_cons_eq_ok_iff, List.forall₂_cons_left_iff]
    simp only [ih]

theorem mem_of_mapM_eq_ok {ys : List β} (h : xs.mapM f = .ok ys) :
    ∀ y ∈ ys, ∃ x ∈ xs, f x = .ok y := by
  rw [mapM_eq_ok_iff] at h
  induction h with
  | nil => simp
  | cons hx _ ih =>
    refine List.forall_mem_cons.mpr ⟨⟨_, List.mem_cons_self, hx⟩, fun y hy => ?_⟩
    obtain ⟨x, hmem, hx⟩ := ih y hy
    exact ⟨x, List.mem_cons_of_mem _ hmem, hx⟩

theorem isOk_mapM_iff : (∃ ys, xs.mapM f = .ok ys) ↔ ∀ x ∈ xs, ∃ y, f x = .ok y := by
  induction xs with
  | nil => exact iff_of_true ⟨[], rfl⟩ (by simp)
  | cons x xs ih =>
    rw [List.forall_mem_cons, ← ih]
    constructor
    · rintro ⟨ys, hys⟩
      obtain ⟨y, more, hy, hmore, -⟩ := mapM_cons_eq_ok_iff.mp hys
      exact ⟨⟨y, hy⟩, more, hmore⟩
    · rintro ⟨⟨y, hy⟩, more, hmore⟩
      exact ⟨y :: more, mapM_cons_eq_ok_iff.mpr ⟨y, more, hy, hmore, rfl⟩⟩

theorem mapM_eq_error_iff :
    xs.mapM f = .error e ↔ ∃ before x after, xs = before ++ x :: after ∧
      (∀ y ∈ before, ∃ b, f y = .ok b) ∧ f x = .error e := by
  induction xs with
  | nil => simp [pure, Except.pure]
  | cons x xs ih =>
    rw [mapM_cons_eq_error_iff, ih]
    constructor
    · rintro (hx | ⟨hx, before, y, after, rfl, hbefore, hy⟩)
      · exact ⟨[], x, xs, rfl, by simp, hx⟩
      · exact ⟨x :: before, y, after, rfl, List.forall_mem_cons.mpr ⟨hx, hbefore⟩, hy⟩
    · rintro ⟨before, y, after, heq, hbefore, hy⟩
      cases before with
      | nil =>
        obtain ⟨rfl, -⟩ := List.cons.inj heq
        exact .inl hy
      | cons z before =>
        obtain ⟨rfl, rfl⟩ := List.cons.inj heq
        obtain ⟨hx, hbefore⟩ := List.forall_mem_cons.mp hbefore
        exact .inr ⟨hx, before, y, after, rfl, hbefore, hy⟩

end Traversal

variable {html : Bool} {inputs : List Input} {i : Input} {p : Problem}

namespace Input

theorem doclets_eq_ok_iff {found : List Doclet} :
    i.doclets html = .ok found ↔ ∃ blocks, Source.scan i.label (i.code html) = .ok blocks ∧
      found = FileDoclets.ofBlocks (Origin.of i.path) blocks := by
  rw [doclets]
  cases Source.scan i.label (i.code html) with
  | error p => simp [Except.map]
  | ok blocks => simp [Except.map, eq_comm]

theorem isOk_doclets_iff :
    (∃ found, i.doclets html = .ok found) ↔ ∃ blocks, Source.scan i.label (i.code html) = .ok blocks := by
  constructor
  · rintro ⟨found, hfound⟩
    obtain ⟨blocks, hblocks, -⟩ := doclets_eq_ok_iff.mp hfound
    exact ⟨blocks, hblocks⟩
  · rintro ⟨blocks, hblocks⟩
    exact ⟨_, doclets_eq_ok_iff.mpr ⟨blocks, hblocks, rfl⟩⟩

theorem doclets_eq_error_iff : i.doclets html = .error p ↔ Source.scan i.label (i.code html) = .error p := by
  rw [doclets]
  cases Source.scan i.label (i.code html) <;> simp [Except.map]

end Input

theorem extract_eq_ok_iff {ds : List Doclet} :
    extract html inputs = .ok ds ↔ ∃ parts,
      List.Forall₂ (fun i part => i.doclets html = .ok part) inputs parts ∧
        ds = parts.flatten ++ [Doclet.package (inputs.filterMap (·.path))] := by
  simp only [extract, ← mapM_eq_ok_iff]
  cases inputs.mapM (Input.doclets html) with
  | error p => simp [bind, Except.bind]
  | ok parts => simp [bind, Except.bind, pure, Except.pure, eq_comm]

theorem isOk_extract_iff :
    (∃ ds, extract html inputs = .ok ds) ↔
      ∀ i ∈ inputs, ∃ blocks, Source.scan i.label (i.code html) = .ok blocks := by
  have hall : (∃ parts, inputs.mapM (Input.doclets html) = .ok parts) ↔
      ∀ i ∈ inputs, ∃ part, i.doclets html = .ok part := isOk_mapM_iff
  simp only [Input.isOk_doclets_iff] at hall
  rw [← hall]
  simp only [extract]
  cases inputs.mapM (Input.doclets html) <;> simp [bind, Except.bind, pure, Except.pure]

theorem extract_eq_error_iff :
    extract html inputs = .error p ↔ inputs.mapM (Input.doclets html) = .error p := by
  simp only [extract]
  cases inputs.mapM (Input.doclets html) <;> simp [bind, Except.bind, pure, Except.pure]

theorem extract_singleton {part : List Doclet} :
    extract html [i] = .ok (part ++ [Doclet.package i.path.toList]) ↔ i.doclets html = .ok part := by
  have hpaths : [i].filterMap (·.path) = i.path.toList := by cases hpath : i.path <;> simp [hpath]
  rw [extract_eq_ok_iff, hpaths]
  constructor
  · rintro ⟨parts, hparts, heq⟩
    obtain ⟨part', more, hpart, hmore, rfl⟩ := List.forall₂_cons_left_iff.mp hparts
    obtain rfl := List.forall₂_nil_left_iff.mp hmore
    obtain ⟨rfl, -⟩ := List.append_inj' heq rfl
    simpa using hpart
  · intro hpart
    exact ⟨[part], .cons hpart .nil, by simp⟩

/-- A list of inputs is read if each of them is, and fails as the first one that does not; the
doclets are those of each input alone, made from nothing but its own comments, and one package
doclet of all paths. -/
theorem extract_each_alone (html : Bool) (inputs : List Input) :
    ((∃ ds, extract html inputs = .ok ds) ↔
      ∀ i ∈ inputs, ∃ blocks, Source.scan i.label (i.code html) = .ok blocks) ∧
    (∀ p, extract html inputs = .error p ↔ ∃ before i after, inputs = before ++ i :: after ∧
      (∀ j ∈ before, ∃ blocks, Source.scan j.label (j.code html) = .ok blocks) ∧
      Source.scan i.label (i.code html) = .error p) ∧
    ∀ ds, extract html inputs = .ok ds ↔ ∃ parts,
      List.Forall₂ (fun i part =>
        extract html [i] = .ok (part ++ [Doclet.package i.path.toList]) ∧
        ∃ blocks, Source.scan i.label (i.code html) = .ok blocks ∧
          part = FileDoclets.ofBlocks (Origin.of i.path) blocks) inputs parts ∧
      ds = parts.flatten ++ [Doclet.package (inputs.filterMap (·.path))] := by
  have herror (p : Problem) : extract html inputs = .error p ↔ _ :=
    extract_eq_error_iff.trans mapM_eq_error_iff
  simp only [Input.isOk_doclets_iff, Input.doclets_eq_error_iff] at herror
  refine ⟨isOk_extract_iff, herror, fun ds => ?_⟩
  have hpart (i : Input) (part : List Doclet) : i.doclets html = .ok part ↔
      extract html [i] = .ok (part ++ [Doclet.package i.path.toList]) ∧
      ∃ blocks, Source.scan i.label (i.code html) = .ok blocks ∧
        part = FileDoclets.ofBlocks (Origin.of i.path) blocks := by
    rw [extract_singleton]
    exact ⟨fun h => ⟨h, Input.doclets_eq_ok_iff.mp h⟩, And.left⟩
  rw [extract_eq_ok_iff]
  simp only [hpart]

end ApiPages
