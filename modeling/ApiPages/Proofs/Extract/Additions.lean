import ApiPages.Extract.FileDoclets

/-!
What the comments of a file add to its doclets. One comment joins the doclet of the class whose
constructor it stands on, adds a doclet under an identity of its own, or adds nothing. Over a whole
file the doclets have the identities that were added, in order, and the names known at its end are
what was learned from them.
-/
namespace ApiPages

section ChangeLast

variable {α β : Type} {p : α → Bool} {f : α → α}

theorem changeLast?_eq_none_iff {l : List α} :
    changeLast? p f l = none ↔ ∀ a ∈ l, p a = false := by
  induction l with
  | nil => simp [changeLast?]
  | cons a as ih =>
    simp only [changeLast?, List.forall_mem_cons]
    cases hrest : changeLast? p f as with
    | some as' =>
      have hsome : ¬ ∀ a ∈ as, p a = false := fun h => by simp [ih.mpr h] at hrest
      simp [hsome]
    | none =>
      have hall := ih.mp hrest
      cases hp : p a with
      | true => simp
      | false => simpa using hall

theorem map_changeLast? {g : α → β} (hg : ∀ a, g (f a) = g a) {l l' : List α}
    (h : changeLast? p f l = some l') : l'.map g = l.map g := by
  induction l generalizing l' with
  | nil => simp [changeLast?] at h
  | cons a as ih =>
    simp only [changeLast?] at h
    cases hrest : changeLast? p f as with
    | some as' =>
      simp only [hrest, Option.some.injEq] at h
      rw [← h, List.map_cons, List.map_cons, ih hrest]
    | none =>
      simp only [hrest] at h
      split at h
      · rw [← Option.some.inj h, List.map_cons, List.map_cons, hg]
      · cases h

end ChangeLast

structure Heading where
  kind : Kind
  name : String
  longname : String
  memberof : Option String
  scope : Option Scope
  deriving DecidableEq, Repr

def Doclet.heading (d : Doclet) : Heading := ⟨d.kind, d.name, d.longname, d.memberof, d.scope⟩

def Identity.heading (i : Identity) : Heading :=
  ⟨i.kind, String.ofList i.name, String.ofList i.longname, i.memberof.map String.ofList, i.scope⟩

theorem Doclet.heading_withConstructor (d : Doclet) (c : Comment) :
    (d.withConstructor c).heading = d.heading := rfl

theorem Doclet.kind_addTag (d : Doclet) (tag : Tag) : (d.addTag tag).kind = d.kind := rfl

theorem Doclet.kind_describe (d : Doclet) (c : Comment) : (d.describe c).kind = d.kind := by
  have hfold (tags : List Tag) (start : Doclet) : (tags.foldl addTag start).kind = start.kind := by
    induction tags generalizing start with
    | nil => rfl
    | cons tag tags ih => rw [List.foldl_cons, ih, kind_addTag]
  exact hfold c.tags _

theorem Doclet.heading_of (origin : Origin) (block : Source.Block) (c : Comment)
    (code : Source.Declaration) (i : Identity) :
    (Doclet.of origin block c code i).heading = i.heading := by
  have hkind : (Doclet.of origin block c code i).kind = i.kind := Doclet.kind_describe _ c
  rw [Doclet.heading, hkind]
  rfl

namespace FileDoclets

def declared (block : Source.Block) : Source.Declaration :=
  (block.code.map (Source.Declaration.ofLine block.enclosing)).getD {}

def remark (block : Source.Block) : Comment := Comment.ofRaw block.comment

/-- The comment stands on the constructor of a class that has a doclet. -/
def Joins (f : FileDoclets) (block : Source.Block) : Prop :=
  (declared block).isConstructor = true ∧ ∃ owner, (declared block).parent = some owner ∧
    ∃ d ∈ f.doclets, d.kind = .classKind ∧ d.longname = String.ofList (f.naming.resolve owner)

def added? (f : FileDoclets) (block : Source.Block) : Option Identity :=
  match f.mergeConstructor? (remark block) (declared block) with
  | some _ => none
  | none => Identity.of? f.naming f.origin (remark block) (asClass (declared block))

variable {f : FileDoclets} {block : Source.Block}

theorem mergeConstructor?_eq (f : FileDoclets) (c : Comment) (code : Source.Declaration) :
    f.mergeConstructor? c code =
      (if code.isConstructor then code.parent else none).bind fun owner =>
        (changeLast? (fun d => d.kind = .classKind &&
          d.longname == String.ofList (f.naming.resolve owner)) (·.withConstructor c) f.doclets).map
          fun doclets => { f with doclets := doclets } := by
  unfold mergeConstructor?
  split
  · cases code.parent with
    | none => rfl
    | some owner => exact Option.map_eq_bind.symm
  · rfl

theorem mergeConstructor?_eq_none_iff {c : Comment} :
    f.mergeConstructor? c (declared block) = none ↔ ¬ f.Joins block := by
  rw [mergeConstructor?_eq, Joins]
  cases hcon : (declared block).isConstructor with
  | false => simp
  | true =>
    cases hparent : (declared block).parent with
    | none => simp
    | some owner => simp [changeLast?_eq_none_iff]

theorem mergeConstructor?_eq_some {c : Comment} {code : Source.Declaration} {g : FileDoclets}
    (h : f.mergeConstructor? c code = some g) :
    g.origin = f.origin ∧ g.naming = f.naming ∧
      g.doclets.map Doclet.heading = f.doclets.map Doclet.heading := by
  rw [mergeConstructor?_eq, Option.bind_eq_some_iff] at h
  obtain ⟨owner, -, h⟩ := h
  obtain ⟨doclets, hchange, rfl⟩ := Option.map_eq_some_iff.mp h
  exact ⟨rfl, rfl, map_changeLast? (fun d => Doclet.heading_withConstructor d c) hchange⟩

theorem add_of_merge {g : FileDoclets}
    (h : f.mergeConstructor? (remark block) (declared block) = some g) : f.add block = g := by
  simp only [remark, declared] at h
  simp only [add, h]

theorem add_of_identity {i : Identity}
    (hmerge : f.mergeConstructor? (remark block) (declared block) = none)
    (h : Identity.of? f.naming f.origin (remark block) (asClass (declared block)) = some i) :
    f.add block =
      { f with
        naming := f.naming.learn i
        doclets := f.doclets ++
          [Doclet.of f.origin block (remark block) (asClass (declared block)) i] } := by
  simp only [remark, declared] at h hmerge ⊢
  simp only [add, hmerge, h]

theorem add_of_no_identity (hmerge : f.mergeConstructor? (remark block) (declared block) = none)
    (h : Identity.of? f.naming f.origin (remark block) (asClass (declared block)) = none) :
    f.add block = f := by
  simp only [remark, declared] at h hmerge
  simp only [add, hmerge, h]

/-- What one comment does to the doclets and names of its file. -/
theorem add_cases (f : FileDoclets) (block : Source.Block) :
    (f.Joins block ∧ f.added? block = none ∧ (f.add block).origin = f.origin ∧
      (f.add block).naming = f.naming ∧
      (f.add block).doclets.map Doclet.heading = f.doclets.map Doclet.heading) ∨
    (¬ f.Joins block ∧ f.added? block = none ∧ f.add block = f) ∨
    ∃ i, ¬ f.Joins block ∧ f.added? block = some i ∧ f.add block =
      { f with
        naming := f.naming.learn i
        doclets := f.doclets ++
          [Doclet.of f.origin block (remark block) (asClass (declared block)) i] } := by
  rw [added?]
  cases hmerge : f.mergeConstructor? (remark block) (declared block) with
  | some g =>
    have hjoins : f.Joins block := Classical.byContradiction fun hnot => by
      simp [mergeConstructor?_eq_none_iff.mpr hnot] at hmerge
    rw [add_of_merge hmerge]
    exact .inl ⟨hjoins, rfl, mergeConstructor?_eq_some hmerge⟩
  | none =>
    have hapart := mergeConstructor?_eq_none_iff.mp hmerge
    refine .inr ?_
    cases hidentity : Identity.of? f.naming f.origin (remark block) (asClass (declared block)) with
    | none => exact .inl ⟨hapart, rfl, add_of_no_identity hmerge hidentity⟩
    | some i => exact .inr ⟨i, hapart, rfl, add_of_identity hmerge hidentity⟩

theorem added?_of_not_joins (h : ¬ f.Joins block) :
    f.added? block = Identity.of? f.naming f.origin (remark block) (asClass (declared block)) := by
  rw [added?, mergeConstructor?_eq_none_iff.mpr h]

theorem naming_add (f : FileDoclets) (block : Source.Block) :
    (f.add block).naming = (f.added? block).toList.foldl Naming.learn f.naming := by
  rcases add_cases f block with ⟨_, hnone, _, h, _⟩ | ⟨_, hnone, h⟩ | ⟨i, _, hsome, h⟩
  · rw [h, hnone]
    rfl
  · rw [h, hnone]
    rfl
  · rw [h, hsome]
    rfl

theorem headings_add (f : FileDoclets) (block : Source.Block) :
    (f.add block).doclets.map Doclet.heading =
      f.doclets.map Doclet.heading ++ (f.added? block).toList.map Identity.heading := by
  rcases add_cases f block with ⟨_, hnone, _, _, h⟩ | ⟨_, hnone, h⟩ | ⟨i, _, hsome, h⟩
  · rw [h, hnone]
    simp
  · rw [h, hnone]
    simp
  · rw [h, hsome]
    simp [Doclet.heading_of]

theorem appends_iff :
    (∃ d, (f.add block).doclets = f.doclets ++ [d]) ↔ (f.added? block).isSome = true := by
  constructor
  · rintro ⟨d, hd⟩
    have hlength := congrArg List.length (headings_add f block)
    rw [hd] at hlength
    cases hadded : f.added? block with
    | some i => rfl
    | none => simp [hadded] at hlength
  · intro hsome
    rcases add_cases f block with ⟨_, hnone, _⟩ | ⟨_, hnone, _⟩ | ⟨i, _, _, h⟩
    · simp [hnone] at hsome
    · simp [hnone] at hsome
    · exact ⟨_, congrArg FileDoclets.doclets h⟩

def identities (f : FileDoclets) : List Source.Block → List Identity
  | [] => []
  | block :: blocks => (f.added? block).toList ++ (f.add block).identities blocks

theorem identities_append (f : FileDoclets) (xs ys : List Source.Block) :
    f.identities (xs ++ ys) = f.identities xs ++ (xs.foldl add f).identities ys := by
  induction xs generalizing f with
  | nil => rfl
  | cons x xs ih => simp [identities, ih]

theorem naming_run (f : FileDoclets) (blocks : List Source.Block) :
    (blocks.foldl add f).naming = (f.identities blocks).foldl Naming.learn f.naming := by
  induction blocks generalizing f with
  | nil => rfl
  | cons block blocks ih => rw [List.foldl_cons, ih, naming_add, identities, List.foldl_append]

theorem headings_run (f : FileDoclets) (blocks : List Source.Block) :
    (blocks.foldl add f).doclets.map Doclet.heading =
      f.doclets.map Doclet.heading ++ (f.identities blocks).map Identity.heading := by
  induction blocks generalizing f with
  | nil => simp [identities]
  | cons block blocks ih =>
    rw [List.foldl_cons, ih, headings_add, identities, List.map_append, List.append_assoc]

def upTo (origin : Origin) (blocks : List Source.Block) : FileDoclets :=
  blocks.foldl add { origin := origin }

theorem upTo_concat (origin : Origin) (blocks : List Source.Block) (block : Source.Block) :
    upTo origin (blocks ++ [block]) = (upTo origin blocks).add block := by
  simp [upTo]

theorem naming_upTo (origin : Origin) (blocks : List Source.Block) :
    (upTo origin blocks).naming =
      (identities { origin := origin } blocks).foldl Naming.learn {} :=
  naming_run { origin := origin } blocks

theorem identities_around {origin : Origin} {before : List Source.Block} {i : Identity}
    (h : (upTo origin before).added? block = some i) (after : List Source.Block) :
    identities { origin := origin } (before ++ block :: after) =
      identities { origin := origin } before ++
        i :: identities (upTo origin (before ++ [block])) after := by
  rw [identities_append, identities, ← upTo, h, upTo_concat]
  rfl

theorem headings_ofBlocks (origin : Origin) (blocks : List Source.Block) :
    (ofBlocks origin blocks).map Doclet.heading =
      (identities { origin := origin } blocks).map Identity.heading :=
  headings_run { origin := origin } blocks

theorem length_ofBlocks (origin : Origin) (blocks : List Source.Block) :
    (ofBlocks origin blocks).length = (identities { origin := origin } blocks).length := by
  simpa using congrArg List.length (headings_ofBlocks origin blocks)

/-- The doclet that a comment adds keeps its place and what it is called to the end of the file. -/
theorem ofBlocks_at {origin : Origin} {before : List Source.Block} {i : Identity}
    (h : (before.foldl add { origin := origin }).added? block = some i)
    (after : List Source.Block) :
    ∃ d, (ofBlocks origin (before ++ block :: after))[(ofBlocks origin before).length]? = some d ∧
      d.heading = i.heading := by
  have hheadings := headings_ofBlocks origin (before ++ block :: after)
  rw [identities_around h] at hheadings
  have hat := congrArg (fun hs => hs[(ofBlocks origin before).length]?) hheadings
  simp only [List.getElem?_map, length_ofBlocks, List.getElem?_append_right (Nat.le_refl _),
    Nat.sub_self, List.getElem?_cons_zero, Option.map_some] at hat
  obtain ⟨d, hd, hheading⟩ := Option.map_eq_some_iff.mp hat
  exact ⟨d, by rw [length_ofBlocks]; exact hd, hheading⟩

end FileDoclets

end ApiPages
