import Mathlib.Data.List.TakeDrop
import Mathlib.Data.List.TakeWhile
import ApiPages.Proofs.Extract.Additions
import ApiPages.Proofs.Namepath
import ApiPages.Proofs.Source.Names
import ApiPages.Proofs.Source.Words
import ApiPages.Proofs.Text.Cutting

/-!
The parents of class members. A method or a field whose comment leaves its naming to the code is a
member of whatever the name of the class, as the code has it, stands for at that place of the file:
the doclet that was last called so at the top of the file or of its module. Main statement: the
member belongs to the doclet of an earlier comment exactly if that name stands for it.
-/
namespace ApiPages

section MemberNames

open Source (isNamePart isNameStart)

theorem scopeOf?_of_isNamePart {c : Char} (h : isNamePart c = true) :
    Namepath.scopeOf? c = none := by
  have hdot : c ≠ '.' := by rintro rfl; revert h; decide
  have hnumber : c ≠ '#' := by rintro rfl; revert h; decide
  have htilde : c ≠ '~' := by rintro rfl; revert h; decide
  simp [Namepath.scopeOf?, hdot, hnumber, htilde]

theorem Namepath.split?_cons_eq_none {c : Char} {cs : List Char} (h : ∀ x ∈ cs, scopeOf? x = none) :
    split? (c :: cs) = none := by
  have hrest (quoted : Bool) : lastSeparator? quoted cs = none :=
    lastSeparator?_eq_none_iff.mpr fun before x after hcs _ => h x (by simp [hcs])
  have hlast : lastSeparator? false (c :: cs) = (scopeOf? c).map fun scope => ([], scope, cs) := by
    simp [lastSeparator?, hrest]
  rw [split?, hlast]
  cases scopeOf? c <;> simp

theorem isBlank_of_isNameStart {c : Char} (h : c = '#' ∨ isNameStart c = true) :
    Text.isBlank c = false := by
  rcases h with rfl | hstart
  · decide
  · exact Source.isBlank_of_isNamePart (Source.isNamePart_of_isNameStart hstart)

theorem nonEmpty?_cons {c : Char} (h : Text.isBlank c = false) (cs : List Char) :
    ∃ part, Text.nonEmpty? (c :: cs) = some (c :: part) ∧ part <+: cs := by
  have hstart : Text.trimStart (c :: cs) = c :: cs := by simp [Text.trimStart, h]
  have hprefix := Text.trim_prefix (c :: cs)
  have hne : Text.trim (c :: cs) ≠ [] := by
    rw [ne_eq, Text.trim_eq_nil_iff, hstart]
    exact List.cons_ne_nil c cs
  cases htrim : Text.trim (c :: cs) with
  | nil => exact absurd htrim hne
  | cons x part =>
    rw [htrim, hstart] at hprefix
    obtain ⟨rfl, hpart⟩ := List.cons_prefix_cons.mp hprefix
    exact ⟨part, by simp [Text.nonEmpty?, htrim], hpart⟩

theorem nonEmpty?_of_isMemberName {name : List Char} (h : Source.Declaration.IsMemberName name) :
    ∃ shown, Text.nonEmpty? name = some shown ∧ Namepath.split? shown = none := by
  obtain ⟨c, cs, rfl, hc, hcs⟩ := h
  obtain ⟨part, hshown, hpart⟩ := nonEmpty?_cons (isBlank_of_isNameStart hc) cs
  refine ⟨c :: part, hshown, Namepath.split?_cons_eq_none fun x hx => ?_⟩
  exact scopeOf?_of_isNamePart (hcs x (hpart.subset hx))

end MemberNames

namespace Comment

structure LeavesNaming (c : Comment) : Prop where
  noName : c.name? = none
  noParent : c.text? "memberof" = none
  noAlias : c.text? "alias" = none
  noScope : c.scope? = none
  placed : ∀ kind, c.kind? none = some kind →
    kind ≠ .module ∧ kind ≠ .file ∧ kind ≠ .external

theorem kind?_some (c : Comment) (kind : Kind) :
    ∃ shown, c.kind? (some kind) = some shown ∧ (shown = kind ∨ c.kind? none = some shown) := by
  simp only [kind?]
  cases (c.first? ["kind"]).bind fun value => Kind.ofTag? (String.ofList value) with
  | some explicit => exact ⟨explicit, rfl, .inr rfl⟩
  | none =>
    cases c.kindTag? with
    | some tag => exact ⟨tag.1.kind, rfl, .inr rfl⟩
    | none => exact ⟨kind, rfl, .inl rfl⟩

end Comment

namespace Identity

open Source (Declaration)

variable {c : Comment} {d : Declaration} {owner : List Char}

theorem parentAndScope_of_code (hc : c.LeavesNaming) (hparent : d.parent = some owner)
    (n : Naming) : parentAndScope n c d none = (some (n.resolve owner), d.scope) := by
  simp [parentAndScope, hc.noParent, hc.noScope, hparent]

theorem memberof_placed (hc : c.LeavesNaming) (hd : d.IsMember owner) (n : Naming) (kind : Kind)
    {name : List Char} (hname : Namepath.split? name = none) :
    (placed n c d kind name).memberof = some (n.resolve owner) := by
  obtain ⟨static, hscope⟩ := hd.scope
  have hglobal : ¬ d.scope = some .globalScope := by
    rw [hscope]
    cases static <;> decide
  simp only [placed, hname, parentAndScope_of_code hc hd.parent, if_neg hglobal]
  rfl

theorem of?_member (hc : c.LeavesNaming) (hd : d.IsMember owner) (n : Naming) (origin : Origin) :
    ∃ i, of? n origin c d = some i ∧ i.memberof = some (n.resolve owner) := by
  obtain ⟨name, hname, hsplit⟩ := nonEmpty?_of_isMemberName hd.name
  obtain ⟨ofCode, hcode, hmember⟩ : ∃ kind, d.kind = some kind ∧
      kind ≠ .module ∧ kind ≠ .file ∧ kind ≠ .external := by
    rcases hd.kind with h | h | h
    · exact ⟨_, h, by decide, by decide, by decide⟩
    · exact ⟨_, h, by decide, by decide, by decide⟩
    · exact ⟨_, h, by decide, by decide, by decide⟩
  obtain ⟨kind, hkind, hcases⟩ := c.kind?_some ofCode
  have hplaced : kind ≠ .module ∧ kind ≠ .file ∧ kind ≠ .external := by
    rcases hcases with rfl | htags
    · exact hmember
    · exact hc.placed kind htags
  have hplain : plain? n origin c d kind = some (placed n c d kind name) := by
    cases kind <;> simp_all [plain?, hc.noName]
  refine ⟨placed n c d kind name, ?_, memberof_placed hc hd n kind hsplit⟩
  simp [of?, hcode, hkind, hplain, aliased, hc.noAlias]

end Identity

namespace Naming

theorem resolve_of_not_mem {n : Naming} {symbol : List Char} (h : '.' ∉ symbol) :
    n.resolve symbol = (n.lookup? symbol).getD symbol := by
  rw [resolve, Text.splitFirst?_of_not_mem h]
  cases n.lookup? symbol <;> rfl

/-- An identity is known by its name if it stands at the top of the file or of its module and is
no module, file or event. -/
def Admits (n : Naming) (i : Identity) : Prop :=
  (i.memberof = none ∨ i.memberof = n.module) ∧ i.kind.isSymbol = true

instance (n : Naming) (i : Identity) : Decidable (n.Admits i) :=
  inferInstanceAs (Decidable (_ ∧ _))

theorem lookup?_learn (n : Naming) (i : Identity) (name : List Char) :
    (n.learn i).lookup? name =
      if n.Admits i ∧ i.name = name then some i.longname else n.lookup? name := by
  by_cases hsymbol : i.kind.isSymbol = true
  · have hmodule : i.kind ≠ .module := by
      intro hk
      simp [hk, Kind.isSymbol] at hsymbol
    by_cases htop : i.memberof = none ∨ i.memberof = n.module <;> by_cases hname : i.name = name <;>
      simp_all [learn, lookup?, Admits]
  · simp [learn, lookup?, Admits, hsymbol]

/-- The longname that some identities give a name: that of the last one of this name at the top. -/
def lastCalled? (n : Naming) (name : List Char) : List Identity → Option (List Char)
  | [] => none
  | i :: is =>
    ((n.learn i).lastCalled? name is).or
      (if n.Admits i ∧ i.name = name then some i.longname else none)

theorem lookup?_foldl_learn (n : Naming) (is : List Identity) (name : List Char) :
    (is.foldl learn n).lookup? name = (n.lastCalled? name is).or (n.lookup? name) := by
  induction is generalizing n with
  | nil => rfl
  | cons i is ih =>
    rw [List.foldl_cons, ih, lookup?_learn, lastCalled?, Option.or_assoc]
    split <;> rfl

theorem lastCalled?_append (n : Naming) (name : List Char) (is js : List Identity) :
    n.lastCalled? name (is ++ js) =
      ((is.foldl learn n).lastCalled? name js).or (n.lastCalled? name is) := by
  induction is generalizing n with
  | nil => simp [lastCalled?]
  | cons i is ih => rw [List.cons_append, lastCalled?, ih, lastCalled?, List.foldl_cons,
      Option.or_assoc]

end Naming

namespace FileDoclets

open Source (Block Declaration)

/-- The comment stands directly in the body of a class, documents a method or a field of it, and
leaves its naming to the code. -/
structure DocumentsMember (owner : List Char) (block : Block) : Prop where
  inside : block.enclosing = some { name := owner, direct := true }
  declares : ∃ line d, block.code = some line ∧
    Declaration.ofClassLine? { name := owner, direct := true } line = some d ∧
    d.isConstructor = false
  tags : (remark block).LeavesNaming

theorem added?_member {f : FileDoclets} {block : Block} {owner : List Char}
    (h : DocumentsMember owner block) :
    ∃ i, f.added? block = some i ∧ i.memberof = some (f.naming.resolve owner) := by
  obtain ⟨line, d, hline, hmember, hplain⟩ := h.declares
  have hdeclared : declared block = d := by
    simp [declared, h.inside, hline, Declaration.ofLine, hmember]
  have hapart : ¬ f.Joins block := by
    rintro ⟨hcon, -⟩
    rw [hdeclared, hplain] at hcon
    contradiction
  have hclass : asClass d = d := by simp [asClass, hplain]
  rw [added?_of_not_joins hapart, hdeclared, hclass]
  have hd := Declaration.isMember_of_ofClassLine? hmember hplain
  exact Identity.of?_member h.tags hd f.naming f.origin

/-- What a name stands for after some comments: the longname of the last doclet of this name that
stands at the top. -/
def meaning? (origin : Origin) (blocks : List Block) (name : List Char) : Option (List Char) :=
  Naming.lastCalled? {} name (identities { origin := origin } blocks)

section Meaning

variable {origin : Origin} {before between after : List Block} {classBlock : Block} {i : Identity}
  {name : List Char}

theorem resolve_upTo (h : '.' ∉ name) (blocks : List Block) :
    (upTo origin blocks).naming.resolve name = (meaning? origin blocks name).getD name := by
  rw [Naming.resolve_of_not_mem h, naming_upTo, Naming.lookup?_foldl_learn, meaning?]
  cases Naming.lastCalled? {} name (identities { origin := origin } blocks) <;> rfl

theorem meaning?_of_last (hclass : (upTo origin before).added? classBlock = some i)
    (hname : i.name = name) (htop : (upTo origin before).naming.Admits i)
    (hlast : (upTo origin (before ++ [classBlock])).naming.lastCalled? name
      (identities (upTo origin (before ++ [classBlock])) between) = none) :
    meaning? origin (before ++ classBlock :: between) name = some i.longname := by
  rw [upTo_concat, naming_add, hclass, naming_upTo] at hlast
  rw [naming_upTo] at htop
  rw [meaning?, identities_append, identities, ← upTo, hclass, Naming.lastCalled?_append]
  simp_all [Naming.lastCalled?]

end Meaning

/-- In any text, the member that a comment directly in a class body documents belongs to what the
class name stands for at that place, or to that name itself. So it belongs to the doclet of an
earlier comment, that of its class say, exactly if this is the doclet's longname; it does if that
doclet stands at the top under the name in the code and no later one does. -/
theorem memberof_class_member {file : String} {text owner : List Char} {origin : Origin}
    {blocks before between after : List Block} {classBlock member : Block} {i : Identity}
    (hscan : Source.scan file text = .ok blocks)
    (hblocks : blocks = before ++ classBlock :: (between ++ member :: after))
    (hclass : (upTo origin before).added? classBlock = some i)
    (hmember : DocumentsMember owner member) :
    ∃ c m,
      (ofBlocks origin blocks)[(ofBlocks origin before).length]? = some c ∧
      (ofBlocks origin blocks)[(ofBlocks origin (before ++ classBlock :: between)).length]? =
        some m ∧
      c.longname = String.ofList i.longname ∧
      m.memberof = some (String.ofList
        ((meaning? origin (before ++ classBlock :: between) owner).getD owner)) ∧
      (m.memberof = some c.longname ↔
        (meaning? origin (before ++ classBlock :: between) owner).getD owner = i.longname) ∧
      (i.name = owner → (upTo origin before).naming.Admits i →
        (upTo origin (before ++ [classBlock])).naming.lastCalled? owner
          (identities (upTo origin (before ++ [classBlock])) between) = none →
        m.memberof = some c.longname) := by
  have hword : '.' ∉ owner :=
    (Source.isWord_enclosing hscan (by simp [hblocks]) hmember.inside).not_mem (by decide)
  obtain ⟨c, hc, hcheading⟩ := ofBlocks_at hclass (between ++ member :: after)
  obtain ⟨j, hj, hparent⟩ :=
    added?_member (f := upTo origin (before ++ classBlock :: between)) hmember
  rw [resolve_upTo hword] at hparent
  obtain ⟨m, hm, hmheading⟩ := ofBlocks_at hj after
  have hclongname : c.longname = String.ofList i.longname := congrArg Heading.longname hcheading
  have hmemberof : m.memberof = some (String.ofList
      ((meaning? origin (before ++ classBlock :: between) owner).getD owner)) := by
    have hfield : m.memberof = j.memberof.map String.ofList := congrArg Heading.memberof hmheading
    rw [hfield, hparent, Option.map_some]
  refine ⟨c, m, hblocks ▸ hc, ?_, hclongname, hmemberof, ?_, fun hname htop hlast => ?_⟩
  · rw [hblocks, ← hm]
    simp
  · rw [hmemberof, hclongname, Option.some.injEq, String.ofList_inj]
  · rw [hmemberof, hclongname, meaning?_of_last hclass hname htop hlast, Option.getD_some]

section Shapes

def shapeBlock (comment : String) : Block where
  comment := comment.toList
  line := 1
  code := some "class Shape \x7b".toList
  codeLine := 2

def memberComment : List Char := "/** A member. */".toList

def memberBlock (code : String) (line : Nat) : Block where
  comment := memberComment
  line := line
  code := some code.toList
  codeLine := line + 1
  enclosing := some { name := "Shape".toList, direct := true }

theorem leavesNaming_memberComment : (Comment.ofRaw memberComment).LeavesNaming := by
  have htext : Comment.ofRaw memberComment = { description := some "A member.".toList } := by
    decide +kernel
  rw [htext]
  exact ⟨rfl, rfl, rfl, rfl, fun kind hkind => by cases hkind⟩

def shapeText : List Char :=
  ("/** A shape. */\nclass Shape \x7b\n/** A member. */\narea () \x7b\x7d\n" ++
    "/** A member. */\nstatic sides = 4\n\x7d").toList

def shapeBlocks : List Block :=
  [shapeBlock "/** A shape. */", memberBlock "area () \x7b\x7d" 3, memberBlock "static sides = 4" 5]

theorem scan_shapeText : Source.scan "shape.js" shapeText = .ok shapeBlocks := by
  decide +kernel

def shapeIdentity : Identity where
  kind := .classKind
  name := "Shape".toList
  longname := "Shape".toList
  scope := some .globalScope

theorem documentsMember_memberBlock {code : String} {line : Nat} {d : Declaration}
    (hcode : Declaration.ofClassLine? { name := "Shape".toList, direct := true } code.toList =
      some d)
    (hplain : d.isConstructor = false) :
    DocumentsMember "Shape".toList (memberBlock code line) :=
  ⟨rfl, ⟨code.toList, d, rfl, hcode, hplain⟩, leavesNaming_memberComment⟩

def areaDeclaration : Declaration where
  kind := some .function
  name := "area".toList
  parent := some "Shape".toList
  scope := some .instanceScope

def sidesDeclaration : Declaration where
  kind := some .member
  name := "sides".toList
  parent := some "Shape".toList
  scope := some .staticScope
  literal := some "4".toList

theorem memberof_class_member_shape :
    Source.scan "shape.js" shapeText = .ok shapeBlocks ∧
      DocumentsMember "Shape".toList (memberBlock "static sides = 4" 5) ∧
      ∃ c m, (ofBlocks {} shapeBlocks)[0]? = some c ∧ (ofBlocks {} shapeBlocks)[2]? = some m ∧
        m.memberof = some c.longname := by
  have hblocks : shapeBlocks = [] ++ shapeBlock "/** A shape. */" ::
      ([memberBlock "area () \x7b\x7d" 3] ++ memberBlock "static sides = 4" 5 :: []) := rfl
  have hclass : (upTo {} []).added? (shapeBlock "/** A shape. */") = some shapeIdentity := by
    decide +kernel
  have hmember : DocumentsMember "Shape".toList (memberBlock "static sides = 4" 5) :=
    documentsMember_memberBlock (d := sidesDeclaration) (by decide +kernel) rfl
  obtain ⟨c, m, hc, hm, -, -, -, hattached⟩ :=
    memberof_class_member scan_shapeText hblocks hclass hmember
  refine ⟨scan_shapeText, hmember, c, m, hc, ?_,
    hattached rfl (by decide +kernel) (by decide +kernel)⟩
  have hlength : (ofBlocks {} (shapeBlocks.take 2)).length = 2 := by decide +kernel
  exact hlength ▸ hm

def aliasedText : List Char :=
  "/** @alias Figure */\nclass Shape \x7b\n/** A member. */\narea () \x7b\x7d\n\x7d".toList

def aliasedBlocks : List Block :=
  [shapeBlock "/** @alias Figure */", memberBlock "area () \x7b\x7d" 3]

theorem aliased_class_loses_member :
    Source.scan "shape.js" aliasedText = .ok aliasedBlocks ∧
      DocumentsMember "Shape".toList (memberBlock "area () \x7b\x7d" 3) ∧
      (ofBlocks {} aliasedBlocks).map (fun d => (d.kind, d.longname, d.memberof)) =
        [(.classKind, "Figure", none), (.function, "Shape#area", some "Shape")] :=
  ⟨by decide +kernel,
    documentsMember_memberBlock (d := areaDeclaration) (by decide +kernel) rfl, by decide +kernel⟩

end Shapes

end FileDoclets

end ApiPages
