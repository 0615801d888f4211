import ApiPages.Proofs.Extract.Joins
import ApiPages.Proofs.Extract.Members

/-!
The doclet of a class with the comments on its constructors that join it. It keeps the texts of all of
them in two fields: the description is the last text, and the class description is the first one as
soon as there are two. Its access is the first one that any of the comments gives.
-/
namespace ApiPages

def Comment.told (c : Comment) : Doclet := ({} : Doclet).describe c

def Comment.text (c : Comment) : Option String := c.told.tags.description

namespace Doclet

structure Alike (d d' : Doclet) : Prop where
  description : d.tags.description = d'.tags.description
  classdesc : d.tags.classdesc = d'.tags.classdesc
  hideConstructor : d.tags.hideConstructor = d'.tags.hideConstructor
  access : d.tags.access = d'.tags.access
  ignored : d.ignored = d'.ignored
  undocumented : d.undocumented = d'.undocumented

theorem Alike.addTag {d d' : Doclet} (h : d.Alike d') (tag : Tag) :
    (d.addTag tag).Alike (d'.addTag tag) := by
  obtain ⟨hdescription, hclassdesc, hhide, haccess, hignored, hundocumented⟩ := h
  unfold Doclet.addTag Tags.add
  repeat' split
  all_goals
    constructor <;>
      simp only [hdescription, hclassdesc, hhide, haccess, hignored, hundocumented]

theorem Alike.describe {d d' : Doclet} (h : d.Alike d') (c : Comment) :
    (d.describe c).Alike (d'.describe c) := by
  have hfold (tags : List Tag) : ∀ {a a' : Doclet}, a.Alike a' →
      (tags.foldl Doclet.addTag a).Alike (tags.foldl Doclet.addTag a') := by
    induction tags with
    | nil => exact fun ha => ha
    | cons tag tags ih => exact fun ha => ih (ha.addTag tag)
  exact hfold c.tags ⟨rfl, h.classdesc, h.hideConstructor, h.access, h.ignored, h.undocumented⟩

theorem undocumented_told (c : Comment) : c.told.undocumented = false := by
  have hfold (tags : List Tag) (d : Doclet) :
      (tags.foldl Doclet.addTag d).undocumented = d.undocumented := by
    induction tags generalizing d with
    | nil => rfl
    | cons tag tags ih => rw [List.foldl_cons, ih, Doclet.addTag]
  exact hfold c.tags _

theorem alike_of {i : Identity} (hkind : i.kind = .classKind) (origin : Origin)
    (block : Source.Block) (c : Comment) (code : Source.Declaration) :
    (Doclet.of origin block c code i).Alike c.told := by
  let start : Doclet :=
    { kind := i.kind, exported := code.exported
      tags := { async := code.async, generator := code.generator } }
  have hblank : start.Alike {} := ⟨rfl, rfl, rfl, rfl, rfl, rfl⟩
  have htold : (start.describe c).Alike c.told := hblank.describe c
  have hclass : (start.describe c).kind = .classKind := (kind_describe start c).trans hkind
  have hdescription : (Doclet.of origin block c code i).tags.description =
      (start.describe c).tags.description := by
    change ((start.describe c).complete c code).tags.description = _
    simp [complete, hclass]
  exact ⟨hdescription.trans htold.description, htold.classdesc, htold.hideConstructor,
    htold.access, htold.ignored, htold.undocumented⟩

variable {d : Doclet} {texts : List String}

theorem access_foldl (d : Doclet) (cs : List Comment) :
    (cs.foldl withConstructor d).tags.access =
      d.tags.access.or (cs.findSome? fun c => c.told.tags.access) := by
  induction cs generalizing d with
  | nil => simp
  | cons c cs ih =>
    have hstep : (d.withConstructor c).tags.access = d.tags.access.or c.told.tags.access := rfl
    rw [List.foldl_cons, ih, hstep, Option.or_assoc, List.findSome?_cons]
    cases c.told.tags.access <;> rfl

theorem hideConstructor_foldl (d : Doclet) (cs : List Comment) :
    (cs.foldl withConstructor d).tags.hideConstructor =
      (d.tags.hideConstructor || cs.any fun c => c.told.tags.hideConstructor) := by
  induction cs generalizing d with
  | nil => simp
  | cons c cs ih =>
    have hstep : (d.withConstructor c).tags.hideConstructor =
        (d.tags.hideConstructor || c.told.tags.hideConstructor) := rfl
    rw [List.foldl_cons, ih, hstep, Bool.or_assoc, List.any_cons]

structure Keeps (d : Doclet) (texts : List String) : Prop where
  classdesc : d.tags.classdesc = texts.dropLast.head?
  description : d.tags.description = texts.getLast?

theorem head?_dropLast_or {α : Type} (xs : List α) :
    xs.dropLast.head?.or xs.getLast? = xs.head? := by
  cases xs with
  | nil => rfl
  | cons x xs => cases xs <;> simp

theorem Keeps.withConstructor (h : d.Keeps texts) (c : Comment) :
    (d.withConstructor c).Keeps (texts ++ c.text.toList) := by
  have hclassdesc : (d.withConstructor c).tags.classdesc =
      if c.text.isSome then d.tags.classdesc.or d.tags.description else d.tags.classdesc := rfl
  have hdescription : (d.withConstructor c).tags.description =
      if c.text.isSome then c.text else d.tags.description := rfl
  cases htext : c.text with
  | none =>
    rw [htext] at hclassdesc hdescription
    rw [Option.toList_none, List.append_nil]
    exact ⟨hclassdesc.trans h.classdesc, hdescription.trans h.description⟩
  | some text =>
    rw [htext] at hclassdesc hdescription
    refine ⟨?_, ?_⟩
    · have hfirst : (d.withConstructor c).tags.classdesc = texts.head? := by
        rw [hclassdesc, Option.isSome_some, if_pos rfl, h.classdesc, h.description,
          head?_dropLast_or]
      rw [hfirst]
      simp
    · rw [hdescription]
      simp

theorem Keeps.foldl (h : d.Keeps texts) (cs : List Comment) :
    (cs.foldl Doclet.withConstructor d).Keeps (texts ++ cs.filterMap Comment.text) := by
  induction cs generalizing d texts with
  | nil => simpa using h
  | cons c cs ih =>
    have hmore := ih (h.withConstructor c)
    have htexts : texts ++ c.text.toList ++ cs.filterMap Comment.text =
        texts ++ (c :: cs).filterMap Comment.text := by
      cases htext : c.text <;> simp [htext]
    rwa [htexts] at hmore

theorem Keeps.of_alike {c : Comment} (h : d.Alike c.told) (hclassdesc : c.told.tags.classdesc = none) :
    d.Keeps c.text.toList := by
  refine ⟨?_, ?_⟩
  · rw [h.classdesc, hclassdesc]
    cases c.text <;> rfl
  · rw [h.description, ← Comment.text]
    cases c.text <;> rfl

end Doclet

namespace FileDoclets

open Source (Block)

variable {i : Identity} {origin : Origin} {before after : List Block} {block : Block}

theorem alike_made (hkind : i.kind = .classKind) (origin : Origin) (block : Block) :
    (made origin block i).Alike (remark block).told :=
  Doclet.alike_of hkind origin block _ _

def texts (origin : Origin) (before : List Block) (block : Block) (after : List Block) :
    List String :=
  (remark block :: joined origin before block after).filterMap Comment.text

def access? (origin : Origin) (before : List Block) (block : Block) (after : List Block) :
    Option Access :=
  (remark block).told.tags.access.or
    ((joined origin before block after).findSome? fun c => c.told.tags.access)

theorem keeps_final (hkind : i.kind = .classKind)
    (hclassdesc : (remark block).told.tags.classdesc = none) :
    (final origin before block i after).Keeps (texts origin before block after) := by
  have hmade := Doclet.Keeps.of_alike (alike_made hkind origin block) hclassdesc
  have hfinal := hmade.foldl (joined origin before block after)
  have htexts : (remark block).text.toList ++
      (joined origin before block after).filterMap Comment.text =
        texts origin before block after := by
    cases htext : (remark block).text <;> simp [texts, htext]
  rwa [htexts] at hfinal

theorem access_final (hkind : i.kind = .classKind) :
    (final origin before block i after).tags.access = access? origin before block after := by
  rw [final, Doclet.access_foldl, (alike_made hkind origin block).access, access?]

theorem hideConstructor_final (hkind : i.kind = .classKind) :
    (final origin before block i after).tags.hideConstructor =
      (remark block :: joined origin before block after).any fun c =>
        c.told.tags.hideConstructor := by
  rw [final, Doclet.hideConstructor_foldl, (alike_made hkind origin block).hideConstructor,
    List.any_cons]

end FileDoclets

end ApiPages
