import ApiPages.Proofs.Extract.Additions

/-!
Tags before code. A comment whose tags give kind, name, parent and scope leaves nothing to the code
after it: the code is asked for each of them only where the tags are silent. Main statement: two
places that such a comment may stand at give doclets that are called the same; a doclet is missing
exactly where the comment stands on the constructor of a class that has one, and joins it.
-/
namespace ApiPages

namespace Comment

def setsKind (c : Comment) : Bool :=
  c.kindTag?.isSome ||
    ((c.first? ["kind"]).bind fun value => Kind.ofTag? (String.ofList value)).isSome

/-- The tags give kind, name, parent and scope. -/
structure Explicit (c : Comment) : Prop where
  kind : c.setsKind = true
  name : c.name?.isSome = true
  memberof : (c.text? "memberof").isSome = true
  scope : c.scope?.isSome = true

theorem kind?_of_setsKind {c : Comment} (h : c.setsKind = true) :
    ∃ kind, ∀ ofCode, c.kind? ofCode = some kind := by
  simp only [setsKind, Bool.or_eq_true, Option.isSome_iff_exists] at h
  simp only [kind?]
  cases hexplicit : (c.first? ["kind"]).bind fun value => Kind.ofTag? (String.ofList value) with
  | some kind => exact ⟨kind, fun _ => rfl⟩
  | none =>
    obtain ⟨tag, htag⟩ := h.resolve_right fun ⟨kind, hkind⟩ => by simp [hexplicit] at hkind
    exact ⟨tag.1.kind, fun _ => by simp [htag]⟩

end Comment

namespace Identity

variable {c : Comment} {parent : List Char} {scope : Scope}

theorem parentAndScope_of_tags (hmemberof : c.text? "memberof" = some parent)
    (hscope : c.scope? = some scope) (n : Naming) (d : Source.Declaration)
    (ofName : Option (List Char × Scope)) :
    parentAndScope n c d ofName = (some (n.resolve parent), some scope) := by
  simp [parentAndScope, hmemberof, hscope]

theorem placed_of_tags (hmemberof : c.text? "memberof" = some parent)
    (hscope : c.scope? = some scope) (n : Naming) (d d' : Source.Declaration) (kind : Kind)
    (name : List Char) : placed n c d kind name = placed n c d' kind name := by
  simp only [placed, parentAndScope_of_tags hmemberof hscope]

theorem plain?_of_explicit (h : c.Explicit) (n : Naming) (origin : Origin)
    (d d' : Source.Declaration) (kind : Kind) :
    plain? n origin c d kind = plain? n origin c d' kind := by
  obtain ⟨parent, hmemberof⟩ := Option.isSome_iff_exists.mp h.memberof
  obtain ⟨scope, hscope⟩ := Option.isSome_iff_exists.mp h.scope
  obtain ⟨name, hname⟩ := Option.isSome_iff_exists.mp h.name
  unfold plain?
  simp only [hname, Option.some_or, placed_of_tags hmemberof hscope n d d']

theorem isSome_plain? (hname : c.name?.isSome = true) (n : Naming) (origin : Origin)
    (d : Source.Declaration) (kind : Kind) : (plain? n origin c d kind).isSome = true := by
  obtain ⟨name, hname⟩ := Option.isSome_iff_exists.mp hname
  cases kind
  case module => rfl
  case file => rfl
  all_goals simp only [plain?, hname, Option.some_or, bind, Option.bind]; split <;> rfl

theorem of?_eq (n : Naming) (origin : Origin) (c : Comment) (d : Source.Declaration) :
    of? n origin c d =
      (c.kind? d.kind).bind fun kind => (plain? n origin c d kind).map (·.aliased c) := by
  rw [of?]
  cases c.kind? d.kind with
  | none => rfl
  | some kind => exact Option.map_eq_bind.symm

theorem of?_of_explicit (h : c.Explicit) (n : Naming) (origin : Origin) :
    ∃ i, ∀ d, of? n origin c d = some i := by
  obtain ⟨kind, hkind⟩ := Comment.kind?_of_setsKind h.kind
  obtain ⟨i, hi⟩ := Option.isSome_iff_exists.mp (isSome_plain? h.name n origin {} kind)
  refine ⟨i.aliased c, fun d => ?_⟩
  rw [of?_eq, hkind, Option.bind_some, plain?_of_explicit h n origin d {}, hi, Option.map_some]

end Identity

namespace FileDoclets

theorem added?_of_explicit {f : FileDoclets} {c : Comment} (h : c.Explicit) :
    ∃ i, ∀ block, remark block = c → ¬ f.Joins block → f.added? block = some i := by
  obtain ⟨i, hi⟩ := Identity.of?_of_explicit h f.naming f.origin
  refine ⟨i, fun block hremark hapart => ?_⟩
  rw [added?_of_not_joins hapart, hremark]
  exact hi _

theorem appends_iff_of_explicit {f : FileDoclets} {block : Source.Block}
    (h : (remark block).Explicit) :
    (∃ d, (f.add block).doclets = f.doclets ++ [d]) ↔ ¬ f.Joins block := by
  rw [appends_iff]
  constructor
  · intro hsome hjoins
    rcases add_cases f block with ⟨_, hnone, _⟩ | ⟨hapart, _⟩ | ⟨_, hapart, _⟩
    · simp [hnone] at hsome
    · exact hapart hjoins
    · exact hapart hjoins
  · intro hapart
    obtain ⟨i, hi⟩ := added?_of_explicit (f := f) h
    rw [hi block rfl hapart]
    rfl

theorem heading_of_append {f : FileDoclets} {block : Source.Block} {d : Doclet} {i : Identity}
    (hd : (f.add block).doclets = f.doclets ++ [d]) (hi : f.added? block = some i) :
    d.heading = i.heading := by
  have hheadings := headings_add f block
  rw [hd, hi] at hheadings
  simpa using hheadings

/-- A comment whose tags give everything adds a doclet wherever it stands, save on the constructor
of a class that has one, and what the doclet is called does not depend on the code or on the class
around it. -/
theorem explicit_tags_win (f : FileDoclets) (block block' : Source.Block)
    (hsame : block'.comment = block.comment) (hexplicit : (remark block).Explicit) :
    ((∃ d, (f.add block).doclets = f.doclets ++ [d]) ↔ ¬ f.Joins block) ∧
      ∀ d d', (f.add block).doclets = f.doclets ++ [d] →
        (f.add block').doclets = f.doclets ++ [d'] →
        d.kind = d'.kind ∧ d.name = d'.name ∧ d.longname = d'.longname ∧
          d.memberof = d'.memberof ∧ d.scope = d'.scope := by
  refine ⟨appends_iff_of_explicit hexplicit, fun d d' hd hd' => ?_⟩
  have hremark : remark block' = remark block := by simp only [remark, hsame]
  have hapart := (appends_iff_of_explicit hexplicit).mp ⟨d, hd⟩
  have hexplicit' : (remark block').Explicit := by
    rw [hremark]
    exact hexplicit
  have hapart' := (appends_iff_of_explicit hexplicit').mp ⟨d', hd'⟩
  obtain ⟨i, hi⟩ := added?_of_explicit (f := f) hexplicit
  have hheading : d.heading = d'.heading :=
    (heading_of_append hd (hi block rfl hapart)).trans
      (heading_of_append hd' (hi block' hremark hapart')).symm
  simpa [Doclet.heading] using hheading

def documentedClass : FileDoclets :=
  add {} { comment := "/** A shape. */".toList, line := 1, code := some "class Shape \x7b".toList,
           codeLine := 2 }

def explicitComment : List Char :=
  "/**\n * @function\n * @name resize\n * @memberof Shape\n * @instance\n */".toList

def explicitOn (line : String) : Source.Block where
  comment := explicitComment
  line := 3
  code := some line.toList
  codeLine := 9
  enclosing := some { name := "Shape".toList, direct := true }

theorem explicit_explicitComment : (Comment.ofRaw explicitComment).Explicit :=
  ⟨by decide +kernel, by decide +kernel, by decide +kernel, by decide +kernel⟩

theorem explicit_tags_win_members :
    (remark (explicitOn "area () \x7b")).Explicit ∧
      ∃ d d', (documentedClass.add (explicitOn "area () \x7b")).doclets =
          documentedClass.doclets ++ [d] ∧
        (documentedClass.add (explicitOn "static size = 1")).doclets =
          documentedClass.doclets ++ [d'] ∧
        d.longname = d'.longname := by
  have hapart : ¬ documentedClass.Joins (explicitOn "area () \x7b") := fun hjoins =>
    absurd hjoins.1 (by decide +kernel)
  have hapart' : ¬ documentedClass.Joins (explicitOn "static size = 1") := fun hjoins =>
    absurd hjoins.1 (by decide +kernel)
  obtain ⟨hadds, hsame⟩ := explicit_tags_win documentedClass (explicitOn "area () \x7b")
    (explicitOn "static size = 1") rfl explicit_explicitComment
  obtain ⟨hadds', -⟩ := explicit_tags_win documentedClass (explicitOn "static size = 1")
    (explicitOn "area () \x7b") rfl explicit_explicitComment
  obtain ⟨d, hd⟩ := hadds.mpr hapart
  obtain ⟨d', hd'⟩ := hadds'.mpr hapart'
  exact ⟨explicit_explicitComment, d, d', hd, hd', (hsame d d' hd hd').2.2.1⟩

theorem explicit_tags_lost :
    (remark (explicitOn "constructor () \x7b")).Explicit ∧
      ¬ ∃ d, (documentedClass.add (explicitOn "constructor () \x7b")).doclets =
        documentedClass.doclets ++ [d] := by
  refine ⟨explicit_explicitComment, ?_⟩
  rintro ⟨d, hd⟩
  have hlength := congrArg List.length hd
  rw [List.length_append, List.length_singleton] at hlength
  revert hlength
  decide +kernel

end FileDoclets

end ApiPages
