import ApiPages.Proofs.Extract.Joins
import ApiPages.Proofs.Namepath
import ApiPages.Proofs.Source.Scopes

/-!
The namepaths of a file hang together. Except for modules, files, externals and what an alias
renames, an identity stands at the top under its label, or under a parent as parent, separator and
label. Main statement: this holds of every doclet at the end of its file, behind a module only a
global doclet stands at the top, and a namepath is taken apart as it was put together.
-/
namespace ApiPages

namespace Text

theorem nonEmpty?_ne_nil {cs text : List Char} (h : nonEmpty? cs = some text) : text ≠ [] := by
  simp only [nonEmpty?] at h
  split at h
  · cases h
  · rename_i hne
    rw [← Option.some.inj h]
    exact hne

theorem head?_words_ne_nil {cs word : List Char} (h : (words cs).head? = some word) :
    word ≠ [] := by
  have hmem := List.mem_of_mem_head? (Option.mem_def.mpr h)
  simpa using (List.mem_filter.mp hmem).2

end Text

namespace Comment

variable {c : Comment}

theorem text?_ne_nil {title : String} {text : List Char} (h : c.text? title = some text) :
    text ≠ [] := by
  obtain ⟨value, -, hvalue⟩ := Option.bind_eq_some_iff.mp h
  exact Text.nonEmpty?_ne_nil hvalue

theorem name?_ne_nil {name : List Char} (h : c.name? = some name) : name ≠ [] := by
  rw [name?, Option.or_eq_some_iff] at h
  rcases h with h | ⟨-, h⟩
  · exact text?_ne_nil h
  · simp only [kindValue] at h
    split at h
    · split at h
      · exact Text.nonEmpty?_ne_nil h
      · exact Text.head?_words_ne_nil h
    · cases h

theorem has_global (h : c.scope? = some .globalScope) : c.has "global" = true := by
  obtain ⟨tag, htag, hscope⟩ := List.exists_of_findSome?_eq_some h
  have htitle : tag.title = "global" := by
    unfold Scope.ofTitle? at hscope
    split at hscope <;> simp_all
  exact List.any_eq_true.mpr ⟨tag, htag, by simp [htitle]⟩

end Comment

def Kind.IsPlaced (k : Kind) : Prop := k ≠ .module ∧ k ≠ .file ∧ k ≠ .external

instance (k : Kind) : Decidable k.IsPlaced := inferInstanceAs (Decidable (_ ∧ _))

namespace Heading

def label (h : Heading) : String := if h.kind = .event then "event:" ++ h.name else h.name

/-- The namepath says what parent and scope say. -/
inductive Coherent (h : Heading) : Prop where
  | top (memberof : h.memberof = none) (scope : h.scope = some .globalScope)
      (longname : h.longname = h.label)
  | member (parent : String) (scope : Scope) (memberof : h.memberof = some parent)
      (hscope : h.scope = some scope) (parted : scope ≠ .globalScope)
      (longname : h.longname = parent ++ scope.separator ++ h.label)

end Heading

namespace Identity

variable {n : Naming} {origin : Origin} {c : Comment} {d : Source.Declaration} {kind : Kind}
  {name : List Char} {i : Identity}

theorem heading_label (i : Identity) : i.heading.label = String.ofList (label i.kind i.name) := by
  have hkind : i.heading.kind = i.kind := rfl
  have hname : i.heading.name = String.ofList i.name := rfl
  rw [Heading.label, label, hkind, hname]
  split
  · rw [String.ofList_append, String.ofList_toList]
  · rfl

theorem coherent_under (kind : Kind) (name : List Char) (memberof : Option (List Char))
    (scope : Option Scope) : (under kind name memberof scope).heading.Coherent := by
  cases memberof with
  | none => exact .top rfl rfl (by rw [heading_label]; rfl)
  | some parent =>
    have hparted : (scope.filter (· ≠ .globalScope)).getD .staticScope ≠ .globalScope := by
      cases scope with
      | none => simp
      | some s => cases s <;> decide
    refine .member (String.ofList parent) _ rfl rfl hparted ?_
    rw [heading_label]
    simp [heading, under, String.ofList_append, String.append_assoc]

theorem label_ne_nil (h : kind ≠ .event → name ≠ []) : label kind name ≠ [] := by
  rw [label]
  split
  · simp
  · rename_i hkind
    exact h hkind

theorem longname_under_ne_nil (h : kind ≠ .event → name ≠ []) (memberof : Option (List Char))
    (scope : Option Scope) : (under kind name memberof scope).longname ≠ [] := by
  have hlabel := label_ne_nil h
  cases memberof <;> simp [under, hlabel]

theorem scope_parentAndScope {ofName : Option (List Char × Scope)} (hd : d.Sited)
    (hname : ∀ p ∈ ofName, p.2 ≠ .globalScope)
    (h : (parentAndScope n c d ofName).2 = some .globalScope) : c.scope? = some .globalScope := by
  simp only [parentAndScope] at h
  rw [Option.or_eq_some_iff] at h
  refine h.resolve_right ?_
  rintro ⟨-, h⟩
  split at h
  · obtain ⟨p, hp, hscope⟩ := Option.map_eq_some_iff.mp h
    exact hname p hp hscope
  · split at h
    · exact hname _ rfl (Option.some.inj h)
    · split at h
      · exact hd h
      · cases h

theorem exists_under (kind : Kind) (name : List Char) (parent module : Option (List Char))
    (scope : Option Scope) (exported : Bool) :
    ∃ memberof shown,
      (if scope = some .globalScope then under kind name none scope
        else match parent, module with
        | none, some module =>
          under kind name (some module)
            (scope.or (some (if exported then .staticScope else .innerScope)))
        | _, _ => under kind name parent scope) = under kind name memberof shown ∧
      (memberof = none → module = none ∨ scope = some .globalScope) := by
  by_cases hscope : scope = some .globalScope
  · exact ⟨none, scope, by rw [if_pos hscope], fun _ => .inr hscope⟩
  · rw [if_neg hscope]
    cases parent with
    | some parent => exact ⟨some parent, scope, rfl, by simp⟩
    | none =>
      cases module with
      | some module => exact ⟨some module, _, rfl, by simp⟩
      | none => exact ⟨none, scope, rfl, fun _ => .inl rfl⟩

/-- A placed identity stands under a parent or at the top, and under a name that is empty only for
events; where a module is open it stands at the top only if a tag says so. -/
theorem placed_eq_under (n : Naming) (c : Comment) (d : Source.Declaration) (kind : Kind)
    (name : List Char) :
    ∃ shown memberof scope, placed n c d kind name = under kind shown memberof scope ∧
      (name ≠ [] → kind ≠ .event → shown ≠ []) ∧
      (d.Sited → memberof = none → n.module = none ∨ c.scope? = some .globalScope) := by
  have hshown : ∀ child : List Char, child ≠ [] → kind ≠ .event →
      (if kind = .event then Text.dropRepeated "event:".toList child else child) ≠ [] :=
    fun child hchild hkind => by rwa [if_neg hkind]
  simp only [placed]
  cases hsplit : Namepath.split? name with
  | none =>
    obtain ⟨memberof, scope, hunder, htop⟩ := exists_under kind
      (if kind = .event then Text.dropRepeated "event:".toList name else name)
      (parentAndScope n c d none).1 n.module (parentAndScope n c d none).2 d.exported
    refine ⟨_, memberof, scope, hunder, hshown name, fun hd hnone => ?_⟩
    exact (htop hnone).imp_right (scope_parentAndScope hd (by simp))
  | some found =>
    obtain ⟨parent, scope, child⟩ := found
    obtain ⟨-, hchild, hscope⟩ := Namepath.split?_eq_some hsplit
    obtain ⟨memberof, scope', hunder, htop⟩ := exists_under kind
      (if kind = .event then Text.dropRepeated "event:".toList child else child)
      (parentAndScope n c d (some (parent, scope))).1 n.module
      (parentAndScope n c d (some (parent, scope))).2 d.exported
    refine ⟨_, memberof, scope', hunder, fun _ => hshown child hchild, fun hd hnone => ?_⟩
    exact (htop hnone).imp_right (scope_parentAndScope hd (by simpa using hscope))

theorem plain?_of_isPlaced (hkind : kind.IsPlaced) :
    plain? n origin c d kind =
      (c.name?.or (Text.nonEmpty? d.name)).map (placed n c d kind) := by
  obtain ⟨hmodule, hfile, hexternal⟩ := hkind
  have hplain : plain? n origin c d kind =
      (c.name?.or (Text.nonEmpty? d.name)).bind fun name => some (placed n c d kind name) := by
    cases kind <;> simp_all [plain?]
  rw [hplain]
  exact Option.map_eq_bind.symm

theorem kind_placed (n : Naming) (c : Comment) (d : Source.Declaration) (kind : Kind)
    (name : List Char) : (placed n c d kind name).kind = kind := by
  obtain ⟨shown, memberof, scope, hunder, -⟩ := placed_eq_under n c d kind name
  rw [hunder]
  cases memberof <;> rfl

theorem name_ne_nil (h : c.name?.or (Text.nonEmpty? d.name) = some name) : name ≠ [] := by
  rw [Option.or_eq_some_iff] at h
  rcases h with h | ⟨-, h⟩
  · exact Comment.name?_ne_nil h
  · exact Text.nonEmpty?_ne_nil h

/-- A file without a place has a name of its own. -/
def WellNamed (origin : Origin) : Prop := origin.place = none → origin.moduleName ≠ ""

theorem wellNamed_of (path : Option String) : WellNamed (Origin.of path) := by
  intro hplace
  cases path with
  | none => decide
  | some path => cases hplace

theorem plain?_cases (h : plain? n origin c d kind = some i) :
    i.kind = kind ∧ (¬ kind.IsPlaced → WellNamed origin → i.longname ≠ []) ∧
      (kind.IsPlaced → ∃ name ≠ [], i = placed n c d kind name) := by
  by_cases hplaced : kind.IsPlaced
  · rw [plain?_of_isPlaced hplaced] at h
    obtain ⟨name, hname, rfl⟩ := Option.map_eq_some_iff.mp h
    exact ⟨kind_placed n c d kind name, fun hnot => absurd hplaced hnot,
      fun _ => ⟨name, name_ne_nil hname, rfl⟩⟩
  · have hkind : kind = .module ∨ kind = .file ∨ kind = .external := by
      simp only [Kind.IsPlaced] at hplaced
      tauto
    refine and_assoc.mp ⟨?_, fun hyes => absurd hyes hplaced⟩
    rcases hkind with rfl | rfl | rfl
    · obtain rfl := Option.some.inj h
      exact ⟨rfl, fun _ _ => by simp⟩
    · simp only [plain?] at h
      split at h
      · obtain rfl := Option.some.inj h
        exact ⟨rfl, fun _ _ => by simp⟩
      · rename_i hplace
        obtain rfl := Option.some.inj h
        exact ⟨rfl, fun _ hwell => by simpa using hwell hplace⟩
    · simp only [plain?, bind, Option.bind_eq_some_iff, if_true] at h
      obtain ⟨name, -, h⟩ := h
      obtain rfl := Option.some.inj h
      exact ⟨rfl, fun _ _ => by simp⟩

theorem exists_plain?_of_of? (h : of? n origin c d = some i) :
    ∃ kind plain, plain? n origin c d kind = some plain ∧ i = plain.aliased c := by
  simp only [of?, bind, pure, Option.bind_eq_some_iff] at h
  obtain ⟨kind, -, plain, hplain, h⟩ := h
  exact ⟨kind, plain, hplain, (Option.some.inj h).symm⟩

theorem kind_aliased (i : Identity) (c : Comment) : (i.aliased c).kind = i.kind := by
  rw [aliased]
  split <;> rfl

theorem longname_ne_nil (hwell : WellNamed origin) (h : of? n origin c d = some i) :
    i.longname ≠ [] := by
  obtain ⟨kind, plain, hplain, rfl⟩ := exists_plain?_of_of? h
  obtain ⟨-, hroot, hplaced⟩ := plain?_cases hplain
  have hlong : plain.longname ≠ [] := by
    by_cases hkind : kind.IsPlaced
    · obtain ⟨name, hname, rfl⟩ := hplaced hkind
      obtain ⟨shown, memberof, scope, hunder, hshown, -⟩ := placed_eq_under n c d kind name
      rw [hunder]
      exact longname_under_ne_nil (hshown hname) memberof scope
    · exact hroot hkind hwell
  rw [aliased]
  split
  · rename_i longname halias
    exact Comment.text?_ne_nil halias
  · exact hlong

theorem coherent_of_of? (h : of? n origin c d = some i) (hkind : i.kind.IsPlaced)
    (halias : c.text? "alias" = none) :
    i.heading.Coherent ∧
      (d.Sited → i.memberof = none → n.module = none ∨ c.scope? = some .globalScope) := by
  obtain ⟨kind, plain, hplain, rfl⟩ := exists_plain?_of_of? h
  obtain ⟨hsame, -, hplaced⟩ := plain?_cases hplain
  rw [kind_aliased, hsame] at hkind
  obtain ⟨name, -, rfl⟩ := hplaced hkind
  obtain ⟨shown, memberof, scope, hunder, -, htop⟩ := placed_eq_under n c d kind name
  have hplain : (placed n c d kind name).aliased c = under kind shown memberof scope := by
    rw [aliased, halias, hunder]
  rw [hplain]
  refine ⟨coherent_under kind shown memberof scope, fun hd hnone => htop hd ?_⟩
  cases memberof with
  | none => rfl
  | some parent => cases hnone

end Identity

namespace Naming

theorem isSome_module_learn {n : Naming} {i : Identity}
    (h : i.kind = .module ∨ n.module.isSome = true) : (n.learn i).module.isSome = true := by
  by_cases hkind : i.kind = .module
  · simp [learn, hkind]
  · simpa [learn, hkind] using h.resolve_left hkind

theorem isSome_module_foldl_learn {n : Naming} {is : List Identity}
    (h : (∃ i ∈ is, i.kind = .module) ∨ n.module.isSome = true) :
    (is.foldl learn n).module.isSome = true := by
  induction is generalizing n with
  | nil => exact h.resolve_left (by simp)
  | cons i is ih =>
    refine ih ?_
    rcases h with ⟨j, hj, hkind⟩ | hopen
    · rcases List.mem_cons.mp hj with rfl | hj
      · exact .inr (isSome_module_learn (.inl hkind))
      · exact .inl ⟨j, hj, hkind⟩
    · exact .inr (isSome_module_learn (.inr hopen))

end Naming

namespace FileDoclets

open Source (Block Declaration)

variable {origin : Origin} {f : FileDoclets} {block : Block} {i : Identity}

theorem sited_asClass_declared (block : Block) : (asClass (declared block)).Sited := by
  rw [asClass]
  split
  · exact .of_none rfl
  · rename_i hplain
    have hplain := Bool.eq_false_iff.mpr hplain
    cases hcode : block.code with
    | none =>
      rw [declared, hcode]
      exact .of_none rfl
    | some code =>
      simp only [declared, hcode, Option.map_some, Option.getD_some] at hplain ⊢
      exact Declaration.sited_ofLine block.enclosing code hplain

theorem of?_of_added? (h : f.added? block = some i) :
    Identity.of? f.naming f.origin (remark block) (asClass (declared block)) = some i := by
  rcases add_cases f block with ⟨_, hnone, _⟩ | ⟨_, hnone, _⟩ | ⟨j, hapart, _, _⟩
  · simp [hnone] at h
  · simp [hnone] at h
  · exact (added?_of_not_joins hapart).symm.trans h

theorem headings_before {blocks before after : List Block} {earlier later : List Doclet}
    {d : Doclet} (h : ofBlocks origin blocks = earlier ++ d :: later)
    (hblocks : blocks = before ++ block :: after)
    (hplace : earlier.length = (ofBlocks origin before).length) :
    earlier.map Doclet.heading = (identities { origin := origin } before).map Identity.heading := by
  have hheadings := headings_ofBlocks origin blocks
  rw [h, hblocks, identities_append, List.map_append, List.map_append] at hheadings
  have hlength : (earlier.map Doclet.heading).length =
      ((identities { origin := origin } before).map Identity.heading).length := by
    rw [List.length_map, List.length_map, hplace, length_ofBlocks]
  exact (List.append_inj hheadings hlength).1

theorem isSome_module_upTo {blocks before after : List Block} {earlier later : List Doclet}
    {d m : Doclet} (h : ofBlocks origin blocks = earlier ++ d :: later)
    (hblocks : blocks = before ++ block :: after)
    (hplace : earlier.length = (ofBlocks origin before).length) (hm : m ∈ earlier)
    (hkind : m.kind = .module) : (upTo origin before).naming.module.isSome = true := by
  have hmem : m.heading ∈ earlier.map Doclet.heading := List.mem_map_of_mem hm
  rw [headings_before h hblocks hplace] at hmem
  obtain ⟨j, hj, hheading⟩ := List.mem_map.mp hmem
  have hmodule : j.kind = .module := (congrArg Heading.kind hheading).trans hkind
  rw [naming_upTo]
  exact Naming.isSome_module_foldl_learn (.inl ⟨j, hj, hmodule⟩)

end FileDoclets

def Doclet.remark (d : Doclet) : Comment := Comment.ofRaw d.comment.toList

namespace FileDoclets

open Source (Block)

/-- In any file every doclet has a namepath. If it is placed and has no alias, it stands at the top
under its label, or below its parent, behind the separator of its scope, and its namepath is taken
apart into these where the quotes allow it; behind a module it stands at the top only if its comment
says so. -/
theorem namepaths_coherent (path : Option String) (blocks : List Block) (earlier later : List Doclet)
    (d : Doclet) (h : ofBlocks (Origin.of path) blocks = earlier ++ d :: later) :
    d.longname ≠ "" ∧
      (d.kind.IsPlaced → d.remark.text? "alias" = none →
        ((d.memberof = none ∧ d.scope = some .globalScope ∧ d.longname = d.heading.label) ∨
          ∃ parent scope, d.memberof = some parent ∧ d.scope = some scope ∧
            scope ≠ .globalScope ∧ d.longname = parent ++ scope.separator ++ d.heading.label ∧
            (parent ≠ "" → Namepath.quotedAfter false parent.toList = false →
              d.heading.label ≠ "" → Namepath.Undivided false d.heading.label.toList →
              Namepath.split? d.longname.toList =
                some (parent.toList, scope, d.heading.label.toList))) ∧
        ((∃ m ∈ earlier, m.kind = .module) → d.memberof = none →
          d.remark.has "global" = true)) := by
  have hplace : (ofBlocks (Origin.of path) blocks)[earlier.length]? = some d := by
    rw [h]
    simp
  obtain ⟨before, block, after, i, hblocks, hadded, hlength, hfinal⟩ :=
    exists_added_of_getElem? hplace
  have hheading : d.heading = i.heading := by rw [hfinal, heading_final]
  have hremark : d.remark = remark block := by
    rw [Doclet.remark, hfinal, comment_final, String.toList_ofList, FileDoclets.remark]
  have hof := of?_of_added? hadded
  rw [origin_upTo] at hof
  have hlong : d.longname = String.ofList i.longname := congrArg Heading.longname hheading
  refine ⟨?_, fun hkind halias => ?_⟩
  · have hne := Identity.longname_ne_nil (Identity.wellNamed_of path) hof
    rw [hlong]
    simpa using hne
  have hkindEq : d.kind = i.kind := congrArg Heading.kind hheading
  rw [hkindEq] at hkind
  rw [hremark] at halias ⊢
  obtain ⟨hcoherent, htop⟩ := Identity.coherent_of_of? hof hkind halias
  rw [← hheading] at hcoherent
  refine ⟨?_, fun hmodules hnone => ?_⟩
  · cases hcoherent with
    | top memberof scope longname => exact .inl ⟨memberof, scope, longname⟩
    | member parent scope memberof hscope parted longname =>
      refine .inr ⟨parent, scope, memberof, hscope, parted, longname, ?_⟩
      intro hparent hquotes hlabel hwhole
      have hlongname : d.longname = parent ++ scope.separator ++ d.heading.label := longname
      rw [hlongname, String.toList_append, String.toList_append]
      exact Namepath.split?_joined (by simpa using hparent) hquotes parted (by simpa using hlabel)
        hwhole
  · obtain ⟨m, hm, hmodule⟩ := hmodules
    have hparent : i.memberof = none := by
      have hfield : d.memberof = i.memberof.map String.ofList := congrArg Heading.memberof hheading
      rw [hfield] at hnone
      exact Option.map_eq_none_iff.mp hnone
    have hopen := isSome_module_upTo h hblocks hlength hm hmodule
    rcases htop (sited_asClass_declared block) hparent with hclosed | hglobal
    · simp [hclosed] at hopen
    · exact Comment.has_global hglobal

def tagBlock (comment : String) (line : Nat) : Block where
  comment := comment.toList
  line := line
  codeLine := line

def canvasBlocks : List Block :=
  [tagBlock "/** @module shapes */" 1, tagBlock "/** @event Canvas#\"on.change\" */" 2,
    tagBlock "/**\n * @function area\n * @global\n */" 3]

def shapesModule : Doclet where
  kind := .module
  name := "shapes"
  longname := "module:shapes"
  comment := "/** @module shapes */"

def changeEvent : Doclet where
  kind := .event
  name := "\"on.change\""
  longname := "Canvas#event:\"on.change\""
  memberof := some "Canvas"
  scope := some .instanceScope
  comment := "/** @event Canvas#\"on.change\" */"

def globalArea : Doclet where
  kind := .function
  name := "area"
  longname := "area"
  scope := some .globalScope
  comment := "/**\n * @function area\n * @global\n */"

theorem namepaths_coherent_canvas :
    ofBlocks (Origin.of none) canvasBlocks = [shapesModule, changeEvent, globalArea] ∧
      Namepath.split? changeEvent.longname.toList =
        some ("Canvas".toList, .instanceScope, changeEvent.heading.label.toList) ∧
      globalArea.remark.has "global" = true := by
  have hdoclets : ofBlocks (Origin.of none) canvasBlocks =
      [shapesModule, changeEvent, globalArea] := by
    decide +kernel
  have hwhole : Namepath.Undivided false changeEvent.heading.label.toList :=
    Namepath.lastSeparator?_eq_none_iff.mp (by decide +kernel)
  obtain ⟨-, hevent⟩ := namepaths_coherent none canvasBlocks [shapesModule] [globalArea] changeEvent
    hdoclets
  obtain ⟨-, harea⟩ := namepaths_coherent none canvasBlocks [shapesModule, changeEvent] []
    globalArea hdoclets
  refine ⟨hdoclets, ?_, ?_⟩
  · rcases (hevent (by decide) (by decide +kernel)).1 with ⟨hnone, -⟩ | ⟨p, s, hp, hs, -, -, hsplit⟩
    · cases hnone
    · obtain rfl : "Canvas" = p := Option.some.inj hp
      obtain rfl : Scope.instanceScope = s := Option.some.inj hs
      exact hsplit (by decide) (by decide +kernel) (by decide +kernel) hwhole
  · exact (harea (by decide) (by decide +kernel)).2 ⟨shapesModule, by simp, rfl⟩ rfl

end FileDoclets

end ApiPages
