import ApiPages.Proofs.Entries
import ApiPages.Proofs.Extract.ClassDoclet
import ApiPages.Proofs.Extract.Coherence

/-!
A class on the page. The comments of a class and of its constructors are one doclet and become two
entries again. Main statements: the first text goes to the class and the last one, if there are two,
to the constructor, so a constructor's text returns to it only where the class has a text of its
own; and a class is on the page unless the first access that any of its comments gives is private.
-/
namespace ApiPages

theorem getLast?_tail {α : Type} (xs : List α) :
    (if xs.dropLast.head?.isSome then xs.getLast? else none) = xs.tail.getLast? := by
  cases xs with
  | nil => rfl
  | cons x xs => cases xs <;> simp

namespace Entry

variable {d : Doclet} {texts : List String}

theorem description_classPart (h : d.Keeps texts) :
    (ofDoclet d).classPart.tags.description = texts.head? := by
  have hpart : (ofDoclet d).classPart.tags.description =
      d.tags.classdesc.or d.tags.description := rfl
  rw [hpart, h.classdesc, h.description, Doclet.head?_dropLast_or]

theorem description_constructorPart (h : d.Keeps texts) :
    (ofDoclet d).constructorPart.tags.description = texts.tail.getLast? := by
  have hpart : (ofDoclet d).constructorPart.tags.description =
      if d.tags.classdesc.isSome then d.tags.description else none := rfl
  rw [hpart, h.classdesc, h.description, getLast?_tail]

theorem parts_of_class (hkind : d.kind = .classKind) (hhide : d.tags.hideConstructor = false) :
    (ofDoclet d).parts = [(ofDoclet d).classPart, (ofDoclet d).constructorPart] := by
  have hclass : (ofDoclet d).kind = .classKind := hkind
  have hopen : (ofDoclet d).tags.hideConstructor = false := hhide
  simp [parts, hclass, hopen]

theorem classPart_mem_parts (hkind : d.kind = .classKind) :
    (ofDoclet d).classPart ∈ (ofDoclet d).parts := by
  have hclass : (ofDoclet d).kind = .classKind := hkind
  simp [parts, hclass]

theorem class_of_mem_parts {part : Entry} (h : part ∈ (ofDoclet d).parts)
    (hpart : part.kind = .classKind) : d.kind = .classKind ∧ part.longname = d.longname := by
  refine ⟨?_, Catalogue.longnames_parts d part h⟩
  by_contra hkind
  have hparts : (ofDoclet d).parts = [ofDoclet d] := if_neg hkind
  rw [hparts, List.mem_singleton] at h
  rw [h] at hpart
  exact hkind hpart

end Entry

namespace Catalogue

open FileDoclets (access? added? final joined ofBlocks remark shapeBlock shapeIdentity texts upTo)
open Source (Block)

variable {origin : Origin} {before after : List Block} {block : Block} {i : Identity}

theorem isShown_final (hkind : i.kind = .classKind) (hlongname : i.longname ≠ [])
    (showPrivate : Bool) :
    (final origin before block i after).isShown showPrivate =
      (!(remark block).told.ignored &&
        (showPrivate || access? origin before block after != some .privateAccess)) := by
  have hmade := FileDoclets.alike_made hkind origin block
  have hignored : (final origin before block i after).ignored = (remark block).told.ignored := by
    rw [final, Doclet.foldl_withConstructor Doclet.ignored fun _ _ => rfl]
    exact hmade.ignored
  have hundocumented : (final origin before block i after).undocumented = false := by
    rw [final, Doclet.foldl_withConstructor Doclet.undocumented fun _ _ => rfl]
    exact hmade.undocumented.trans (Doclet.undocumented_told _)
  have hne : (String.ofList i.longname != "") = true := by simpa using hlongname
  have hpage : (Kind.classKind != .package && Kind.classKind != .file) = true := by decide
  simp only [Doclet.isShown, hignored, hundocumented, FileDoclets.longname_final,
    FileDoclets.kind_final, hkind, hne, FileDoclets.access_final hkind, Bool.not_false,
    Bool.true_and, Bool.and_true, Bool.and_assoc]
  rw [← Bool.and_assoc (Kind.classKind != .package), hpage, Bool.true_and]

theorem exists_around (hadded : (upTo origin before).added? block = some i) (after : List Block)
    (earlier later : List Doclet) :
    ∃ front back, earlier ++ ofBlocks origin (before ++ block :: after) ++ later =
      front ++ final origin before block i after :: back := by
  have hplace := FileDoclets.getElem?_ofBlocks hadded after
  obtain ⟨front, back, hfile⟩ := List.append_of_mem (List.mem_of_getElem? hplace)
  exact ⟨earlier ++ front, back ++ later, by simp [hfile]⟩

theorem isShown_final_iff (hkind : i.kind = .classKind) (hlongname : i.longname ≠ [])
    (hkept : (remark block).told.ignored = false)
    (hopen : (remark block).told.tags.access ≠ some .privateAccess) :
    (final origin before block i after).isShown false = true ↔
      (remark block).told.tags.access.isSome = true ∨
        (joined origin before block after).findSome? (·.told.tags.access) ≠
          some .privateAccess := by
  rw [isShown_final hkind hlongname, hkept, access?]
  cases haccess : (remark block).told.tags.access with
  | none => simp
  | some access =>
    have hother : access ≠ .privateAccess := by simpa [haccess] using hopen
    simp [hother]

/-- The texts of a class comment and of the comments on its constructors: the first one is that of
the class, the last one that of its constructor if there are two. So the one text of a constructor
returns to it exactly if the class has a text too. -/
theorem texts_return_iff (showPrivate : Bool) (earlier later : List Doclet)
    (hadded : (upTo origin before).added? block = some i) (hkind : i.kind = .classKind)
    (hclassdesc : (remark block).told.tags.classdesc = none)
    (hhide : ∀ c ∈ remark block :: joined origin before block after,
      c.told.tags.hideConstructor = false)
    (hshown : (final origin before block i after).isShown showPrivate = true) :
    ∃ front c new back,
      ofDoclets showPrivate (earlier ++ ofBlocks origin (before ++ block :: after) ++ later) =
        front ++ c :: new :: back ∧
      c.kind = .classKind ∧ c.longname = String.ofList i.longname ∧
      new.kind = .constructor ∧ new.memberof = some c.longname ∧
      c.tags.description = (texts origin before block after).head? ∧
      new.tags.description = (texts origin before block after).tail.getLast? ∧
      ∀ text, (joined origin before block after).filterMap Comment.text = [text] →
        (c.tags.description = (remark block).text ∧ new.tags.description = some text ↔
          (remark block).text.isSome = true) := by
  have hclass : (final origin before block i after).kind = .classKind :=
    (FileDoclets.kind_final origin before block i after).trans hkind
  have hlong := FileDoclets.longname_final origin before block i after
  have hopen : (final origin before block i after).tags.hideConstructor = false := by
    rw [FileDoclets.hideConstructor_final hkind]
    simpa using hhide
  have hkeeps : (final origin before block i after).Keeps (texts origin before block after) :=
    FileDoclets.keeps_final hkind hclassdesc
  obtain ⟨earlier', later', hdoclets⟩ := exists_around hadded after earlier later
  obtain ⟨front, own, back, hpage, hown⟩ :=
    ofDoclets_around showPrivate earlier' (final origin before block i after) later'
  rw [entriesOf, if_pos hshown, Entry.parts_of_class hclass hopen] at hown
  obtain ⟨c, own, rfl, hc, hown⟩ := List.map_eq_cons_iff.mp hown
  obtain ⟨new, own, rfl, hnew, hown⟩ := List.map_eq_cons_iff.mp hown
  obtain rfl := List.map_eq_nil_iff.mp hown
  obtain ⟨hckind, hclong, -, hctags⟩ := Entry.eq_of_content hc
  obtain ⟨hnewkind, -, hnewmember, hnewtags⟩ := Entry.eq_of_content hnew
  have hctext : c.tags.description = (texts origin before block after).head? := by
    rw [hctags, Entry.description_classPart hkeeps]
  have hnewtext : new.tags.description = (texts origin before block after).tail.getLast? := by
    rw [hnewtags, Entry.description_constructorPart hkeeps]
  refine ⟨front, c, new, back, ?_, hckind.trans hclass, hclong.trans hlong, hnewkind, ?_, hctext,
    hnewtext, fun text hone => ?_⟩
  · rw [hdoclets, hpage]
    simp
  · rw [hnewmember, hclong]
    rfl
  · rw [hctext, hnewtext, texts]
    cases htext : (remark block).text with
    | none => simp [htext, hone]
    | some own => simp [htext, hone]

def constructorBlock (comment : String) : Block where
  comment := comment.toList
  line := 3
  code := some "constructor () \x7b\x7d".toList
  codeLine := 4
  enclosing := some { name := "Shape".toList, direct := true }

def commentedShape (own given : String) : List Char :=
  (own ++ "\nclass Shape \x7b\n" ++ given ++ "\nconstructor () \x7b\x7d\n\x7d").toList

theorem texts_return_iff_shape :
    Source.scan "shape.js" (commentedShape "/** A shape. */" "/** Make a shape. */") =
        .ok [shapeBlock "/** A shape. */", constructorBlock "/** Make a shape. */"] ∧
      ∃ front c new back,
        ofDoclets false (ofBlocks {} [shapeBlock "/** A shape. */",
          constructorBlock "/** Make a shape. */"]) = front ++ c :: new :: back ∧
        c.kind = .classKind ∧ c.tags.description = some "A shape." ∧
        new.kind = .constructor ∧ new.tags.description = some "Make a shape." := by
  have hadded : (upTo {} []).added? (shapeBlock "/** A shape. */") = some shapeIdentity := by
    decide +kernel
  have hshown : (final {} [] (shapeBlock "/** A shape. */") shapeIdentity
      [constructorBlock "/** Make a shape. */"]).isShown false = true := by
    decide +kernel
  have hown : (remark (shapeBlock "/** A shape. */")).text = some "A shape." := by decide +kernel
  have hgiven : (joined {} [] (shapeBlock "/** A shape. */")
      [constructorBlock "/** Make a shape. */"]).filterMap Comment.text = ["Make a shape."] := by
    decide +kernel
  obtain ⟨front, c, new, back, hpage, hckind, -, hnewkind, -, -, -, hreturn⟩ :=
    texts_return_iff false [] [] hadded rfl (by decide +kernel) (by decide +kernel) hshown
  obtain ⟨hctext, hnewtext⟩ := (hreturn "Make a shape." hgiven).mpr (by rw [hown]; rfl)
  exact ⟨by decide +kernel, front, c, new, back, by simpa using hpage, hckind, hctext.trans hown,
    hnewkind, hnewtext⟩

theorem text_moves_to_class :
    Source.scan "shape.js" (commentedShape "/** @since 1.0 */" "/** Make a shape. */") =
        .ok [shapeBlock "/** @since 1.0 */", constructorBlock "/** Make a shape. */"] ∧
      (remark (shapeBlock "/** @since 1.0 */")).told.tags.classdesc = none ∧
      (remark (shapeBlock "/** @since 1.0 */")).told.tags.hideConstructor = false ∧
      (remark (shapeBlock "/** @since 1.0 */")).text = none ∧
      (remark (constructorBlock "/** Make a shape. */")).text = some "Make a shape." ∧
      (ofDoclets false (ofBlocks {} [shapeBlock "/** @since 1.0 */",
          constructorBlock "/** Make a shape. */"])).map
            (fun e => (e.kind, e.longname, e.tags.description)) =
        [(.classKind, "Shape", some "Make a shape."), (.constructor, "Shape", none)] := by
  refine ⟨?_, ?_, ?_, ?_, ?_, ?_⟩ <;> decide +kernel

def HasClass (page : List Entry) (longname : String) : Prop :=
  ∃ e ∈ page, e.kind = .classKind ∧ e.longname = longname

instance (page : List Entry) (longname : String) : Decidable (HasClass page longname) :=
  inferInstanceAs (Decidable (∃ e ∈ page, _))

theorem hasClass_of_shown {showPrivate : Bool} {earlier later : List Doclet} {d : Doclet}
    (hkind : d.kind = .classKind) (hshown : d.isShown showPrivate = true) :
    HasClass (ofDoclets showPrivate (earlier ++ d :: later)) d.longname := by
  obtain ⟨front, own, back, hpage, hown⟩ := ofDoclets_around showPrivate earlier d later
  have hpart : (Entry.ofDoclet d).classPart.content ∈ own.map Entry.content := by
    rw [hown, entriesOf, if_pos hshown]
    exact List.mem_map_of_mem (Entry.classPart_mem_parts hkind)
  obtain ⟨e, he, hcontent⟩ := List.mem_map.mp hpart
  obtain ⟨heclass, helong, -, -⟩ := Entry.eq_of_content hcontent
  refine ⟨e, ?_, heclass.trans hkind, helong⟩
  rw [hpage]
  simp [he]

theorem shown_of_hasClass {showPrivate : Bool} {earlier later : List Doclet} {d : Doclet}
    (hkind : d.kind = .classKind)
    (hone : (earlier ++ d :: later).countP
      (fun d' => d'.kind = .classKind && d'.longname == d.longname) = 1)
    (h : HasClass (ofDoclets showPrivate (earlier ++ d :: later)) d.longname) :
    d.isShown showPrivate = true := by
  obtain ⟨e, he, heclass, helong⟩ := h
  obtain ⟨d', hd', hshown, part, hpart, hcontent⟩ := exists_doclet_of_mem he
  obtain ⟨hpartkind, hpartlong, -, -⟩ := Entry.eq_of_content hcontent
  obtain ⟨hclass, hlong⟩ := Entry.class_of_mem_parts hpart (hpartkind.trans heclass)
  have hothers : ∀ x ∈ earlier ++ later,
      ¬ (x.kind = .classKind && x.longname == d.longname) = true := by
    have hsplit : (earlier ++ d :: later).countP
        (fun d' => d'.kind = .classKind && d'.longname == d.longname) =
          (earlier ++ later).countP
            (fun d' => d'.kind = .classKind && d'.longname == d.longname) + 1 := by
      simp [hkind]
      omega
    rw [hsplit] at hone
    exact List.countP_eq_zero.mp (by omega)
  have hsame : d' = d := by
    by_contra hne
    have hmem : d' ∈ earlier ++ later := by
      simp only [List.mem_append, List.mem_cons] at hd' ⊢
      tauto
    have hcalled : d'.longname = d.longname := by rw [← hlong, hpartlong, helong]
    exact hothers d' hmem (by simp [hclass, hcalled])
  rw [← hsame]
  exact hshown

/-- A class whose own comment is neither private nor to be ignored is on the default page unless it
leaves its access open and the first access that a comment on its constructor gives is private. -/
theorem class_shown_iff {path : Option String} (earlier later : List Doclet) (after : List Block)
    (hadded : (upTo (Origin.of path) before).added? block = some i) (hkind : i.kind = .classKind)
    (hkept : (remark block).told.ignored = false)
    (hopen : (remark block).told.tags.access ≠ some .privateAccess) :
    let doclets := earlier ++ ofBlocks (Origin.of path) (before ++ block :: after) ++ later
    let given := (joined (Origin.of path) before block after).findSome? (·.told.tags.access)
    ((remark block).told.tags.access.isSome = true ∨ given ≠ some .privateAccess →
        HasClass (ofDoclets false doclets) (String.ofList i.longname)) ∧
      (doclets.countP (fun d => d.kind = .classKind && d.longname == String.ofList i.longname) = 1 →
        HasClass (ofDoclets false doclets) (String.ofList i.longname) →
        (remark block).told.tags.access.isSome = true ∨ given ≠ some .privateAccess) := by
  intro doclets given
  have hof := FileDoclets.of?_of_added? hadded
  rw [FileDoclets.origin_upTo] at hof
  have hlongname := Identity.longname_ne_nil (Identity.wellNamed_of path) hof
  have hclass : (final (Origin.of path) before block i after).kind = .classKind :=
    (FileDoclets.kind_final (Origin.of path) before block i after).trans hkind
  have hshown : (final (Origin.of path) before block i after).isShown false = true ↔
      (remark block).told.tags.access.isSome = true ∨ given ≠ some .privateAccess :=
    isShown_final_iff hkind hlongname hkept hopen
  obtain ⟨earlier', later', hdoclets⟩ := exists_around hadded after earlier later
  have hpage : doclets = earlier' ++ final (Origin.of path) before block i after :: later' :=
    hdoclets
  rw [hpage, ← FileDoclets.longname_final (Origin.of path) before block i after]
  refine ⟨fun hgiven => hasClass_of_shown hclass (hshown.mpr hgiven), fun hone hpresent => ?_⟩
  exact hshown.mp (shown_of_hasClass hclass hone hpresent)

theorem class_shown_iff_protectedShape :
    Source.scan "shape.js" (commentedShape "/** @protected */" "/** @private */") =
        .ok [shapeBlock "/** @protected */", constructorBlock "/** @private */"] ∧
      HasClass (ofDoclets false (ofBlocks (Origin.of none) [shapeBlock "/** @protected */",
        constructorBlock "/** @private */"])) "Shape" ∧
      (remark (shapeBlock "/** @protected */")).told.tags.access.isSome = true := by
  have hadded : (upTo (Origin.of none) []).added? (shapeBlock "/** @protected */") =
      some shapeIdentity := by
    decide +kernel
  have hown : (remark (shapeBlock "/** @protected */")).told.tags.access =
      some .protectedAccess := by
    decide +kernel
  have hgiven : (joined (Origin.of none) [] (shapeBlock "/** @protected */")
      [constructorBlock "/** @private */"]).findSome? (·.told.tags.access) =
        some .privateAccess := by
    decide +kernel
  obtain ⟨hshows, honly⟩ := class_shown_iff [] [] [constructorBlock "/** @private */"] hadded rfl
    (by decide +kernel) (by rw [hown]; decide)
  have hclass := hshows (.inl (by rw [hown]; rfl))
  refine ⟨by decide +kernel, hclass, ?_⟩
  rcases honly (by decide +kernel) hclass with hopen | hother
  · exact hopen
  · exact absurd hgiven hother

theorem private_constructor_hides_class :
    Source.scan "shape.js" (commentedShape "/** A shape. */" "/** @private */") =
        .ok [shapeBlock "/** A shape. */", constructorBlock "/** @private */"] ∧
      (remark (shapeBlock "/** A shape. */")).told.ignored = false ∧
      (remark (shapeBlock "/** A shape. */")).told.tags.access = none ∧
      HasClass (ofDoclets false (ofBlocks {} [shapeBlock "/** A shape. */"])) "Shape" ∧
      ¬ HasClass (ofDoclets false (ofBlocks {} [shapeBlock "/** A shape. */",
        constructorBlock "/** @private */"])) "Shape" := by
  refine ⟨?_, ?_, ?_, ?_, ?_⟩ <;> decide +kernel

end Catalogue

end ApiPages
