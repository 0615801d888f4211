import ApiPages.Proofs.Text.Marks
import ApiPages.Template.Render

/-!
Reasoning about templates node by node. A stage sees the variables of loops before the page, and some
nodes lay out on it if they run without a fault and leave a harmless text. What nodes lay out follows
from what their parts lay out.
-/
namespace ApiPages.Template

open Text (Harmless Unmarked)

variable {s : Stage} {page v : Json} {bound : List (String × Json)} {name path : String}
  {steps : List (List Char)} {e : Expr} {node : Node} {nodes body otherwise : List Node}

def Stage.meaning? (s : Stage) (name : List Char) (steps : List (List Char)) : Option Json :=
  (s.locals.findSome? fun l => l.get? name steps).or (follow? s.page (name :: steps))

/-- Names mean the values they are bound to, and all others what the page has under them. -/
def Stage.Sees (s : Stage) (page : Json) (bound : List (String × Json)) : Prop :=
  ∀ name, name ≠ "loop" → ∀ steps, s.meaning? name.toList steps =
    ((bound.lookup name).or (page.get? name)).bind fun v => follow? v steps

theorem lookup_eq (h : Text.split '.' path.toList = name.toList :: steps) :
    s.lookup path = match s.meaning? name.toList steps with
      | some v => .ok v
      | none => .error (.missingVariable path s.template) := by
  rw [Stage.lookup, h]
  rfl

theorem follow?_object (fields : List (String × Json)) (name : String) (steps : List (List Char)) :
    follow? (.object fields) (name.toList :: steps) =
      ((Json.object fields).get? name).bind fun v => follow? v steps := by
  simp only [follow?, List.foldlM_cons, stepTo?, String.ofList_toList]
  rfl

theorem sees_page {fields : List (String × Json)} (hpage : s.page = .object fields)
    (hlocals : s.locals = []) : s.Sees (.object fields) [] := by
  intro name hname steps
  rw [Stage.meaning?, hlocals, hpage, follow?_object]
  rfl

theorem Stage.Sees.congr {s' : Stage} (h : s.Sees page bound) (hpage : s'.page = s.page)
    (hlocals : s'.locals = s.locals) : s'.Sees page bound := by
  intro name hname steps
  rw [← h name hname steps, Stage.meaning?, Stage.meaning?, hpage, hlocals]

theorem round_get? (item : Json) (i n : Nat) (other : List Char) (hloop : other ≠ "loop".toList) :
    (Local.round name item i n).get? other steps =
      if name.toList = other then follow? item steps else none := by
  rw [Local.get?, if_neg hloop]

theorem Stage.Sees.inLoop (h : s.Sees page bound) (hbound : bound.lookup name = none)
    (hpage : page.get? name = none) (item : Json) (i n : Nat) :
    (s.inLoop name item i n).Sees page ((name, item) :: bound) := by
  intro other hother steps
  have hloop : other.toList ≠ "loop".toList := fun he => hother (String.toList_inj.mp he)
  have houter := h other hother steps
  rw [Stage.meaning?] at houter ⊢
  rw [Stage.inLoop, List.findSome?_cons, round_get? item i n _ hloop]
  by_cases he : name = other
  · subst he
    rw [hbound, hpage] at houter
    rw [if_pos rfl, List.lookup_cons_self, Option.some_or, Option.bind_some]
    -- A part that the item lacks is looked for outside, where the name means nothing.
    cases follow? item steps with
    | none => exact houter
    | some v => exact Option.some_or
  · have hchars : name.toList ≠ other.toList := fun hc => he (String.toList_inj.mp hc)
    have hbeq : (other == name) = false := beq_false_of_ne (Ne.symm he)
    rw [if_neg hchars, List.lookup_cons, hbeq]
    exact houter

theorem Stage.Sees.lookup_eq (h : s.Sees page bound) (name : String) (fields : List String)
    (hname : name ≠ "loop")
    (hpath : Text.split '.' path.toList = (name :: fields).map String.toList) :
    s.lookup path = match ((bound.lookup name).or (page.get? name)).bind fun v =>
        follow? v (fields.map String.toList) with
      | some v => .ok v
      | none => .error (.missingVariable path s.template) := by
  rw [Template.lookup_eq hpath, h name hname (fields.map String.toList)]

theorem Stage.Sees.lookup_ok (h : s.Sees page bound) (name : String) (fields : List String)
    (hname : name ≠ "loop")
    (hpath : Text.split '.' path.toList = (name :: fields).map String.toList)
    (hvalue : (((bound.lookup name).or (page.get? name)).bind fun v =>
      follow? v (fields.map String.toList)) = some v) : s.lookup path = .ok v := by
  rw [h.lookup_eq name fields hname hpath, hvalue]

theorem Stage.Sees.variable_ok (h : s.Sees page bound) (hname : name ≠ "loop")
    (hpath : Text.split '.' name.toList = [name.toList]) (hbound : bound.lookup name = none)
    (hpage : page.get? name = none) (item : Json) (i n : Nat) :
    (s.inLoop name item i n).lookup name = .ok item := by
  refine (h.inLoop hbound hpage item i n).lookup_ok name [] hname hpath ?_
  rw [List.lookup_cons_self]
  rfl

section Expressions

theorem value_filtered {filter : String} {args : List (String × Expr)} {values : Args}
    {result : Json} (hlookup : s.lookup path = .ok v) (hfilter : Filter.check s.builtins filter = .ok ())
    (hargs : argValues s (args.map Prod.fst) args = .ok values)
    (hresult : Filter.apply s.builtins s.known filter values v = .ok result) :
    value s (.filtered (.path path) filter args) = .ok result := by
  simp only [value, hlookup, hfilter, hargs]
  exact hresult

theorem holds_path (s : Stage) (path : String) :
    holds s (.path path) = .ok ((s.lookup path).toOption.any isTrue) := by
  rw [holds]

theorem compare_text (equal : Bool) (a b : String) :
    compare equal (.string a) (.string b) = ((a == b) == equal) := rfl

theorem holds_is {text : String} (hlookup : s.lookup path = .ok (.string text)) (other : String) :
    holds s (Layout.is path other) = .ok (text == other) := by
  simp only [Layout.is, holds, Operator.decide, value, hlookup]
  exact congrArg Except.ok ((compare_text true text other).trans (by simp))

theorem holds_isNot {text : String} (hlookup : s.lookup path = .ok (.string text))
    (other : String) : holds s (Layout.isNot path other) = .ok (text != other) := by
  simp only [Layout.isNot, holds, Operator.decide, value, hlookup]
  exact congrArg Except.ok ((compare_text false text other).trans (by simp [bne]))

theorem holds_and {left right : Expr} {a b : Bool} (hleft : holds s left = .ok a)
    (hright : holds s right = .ok b) : holds s (.operation .and left right) = .ok (a && b) := by
  simp only [holds, Operator.decide, hleft, hright]
  cases a <;> rfl

end Expressions

def Stage.LaysOne (s : Stage) (node : Node) : Prop := ∃ text, run s node = .ok text ∧ Harmless text

def Stage.Lays (s : Stage) (nodes : List Node) : Prop :=
  ∃ text, runAll s nodes = .ok text ∧ Harmless text

theorem Stage.Lays.cons (hnodes : s.Lays nodes) (hnode : s.LaysOne node) :
    s.Lays (node :: nodes) := by
  obtain ⟨text, hrun, hharmless⟩ := hnode
  obtain ⟨more, hrunAll, hmore⟩ := hnodes
  exact ⟨text ++ more, by rw [runAll, hrun, hrunAll]; rfl, hharmless.append hmore⟩

theorem lays_of_forall (h : ∀ node ∈ nodes, s.LaysOne node) : s.Lays nodes := by
  induction nodes with
  | nil => exact ⟨[], by rw [runAll], Text.harmless_nil⟩
  | cons node nodes ih =>
    obtain ⟨hnode, hnodes⟩ := List.forall_mem_cons.mp h
    exact (ih hnodes).cons hnode

theorem lays_singleton (h : s.LaysOne node) : s.Lays [node] :=
  lays_of_forall (List.forall_mem_singleton.mpr h)

theorem laysOne_text {t : String} (h : Harmless t.toList) : s.LaysOne (.text t) :=
  ⟨t.toList, by rw [run], h⟩

theorem laysOne_say {t : String} (h : Harmless t.toList) :
    ∀ node ∈ [Layout.say t], s.LaysOne node :=
  List.forall_mem_singleton.mpr (laysOne_text h)

theorem laysOne_print (hvalue : value s e = .ok v) (h : Harmless (shown v)) :
    s.LaysOne (.print e) :=
  ⟨shown v, by rw [run, hvalue]; rfl, h⟩

theorem laysOne_put {text : String} (hlookup : s.lookup path = .ok (.string text))
    (h : Harmless text.toList) : s.LaysOne (Layout.put path) :=
  laysOne_print (by rw [value, hlookup]) (show Harmless (shown (.string text)) from h)

theorem laysOne_branch {b : Bool} (hholds : holds s e = .ok b) (hbody : b = true → s.Lays body)
    (hotherwise : b = false → s.Lays otherwise) : s.LaysOne (.branch e body otherwise) := by
  cases b with
  | true =>
    obtain ⟨text, hrun, hharmless⟩ := hbody rfl
    exact ⟨text, by rw [run, hholds]; exact hrun, hharmless⟩
  | false =>
    obtain ⟨text, hrun, hharmless⟩ := hotherwise rfl
    exact ⟨text, by rw [run, hholds]; exact hrun, hharmless⟩

theorem laysOne_given (h : ∀ v, s.lookup path = .ok v → isTrue v = true → s.Lays body) :
    s.LaysOne (Layout.given path body) := by
  refine laysOne_branch (holds_path s path) (fun htrue => ?_)
    fun _ => lays_of_forall (List.forall_mem_nil _)
  cases hlookup : s.lookup path with
  | ok v =>
    rw [hlookup] at htrue
    exact h v hlookup htrue
  | error f =>
    rw [hlookup] at htrue
    cases htrue

theorem laysOne_each {items : List Json} (hlookup : s.lookup path = .ok (.array items))
    (h : ∀ item ∈ items, ∀ i n, (s.inLoop name item i n).Lays body) :
    s.LaysOne (Layout.each name path body) := by
  have hitems : Template.items s (.path path) = .ok items := by
    simp only [Template.items, Expr.core, value, hlookup]
    rfl
  have hrounds {some : List Json} (hsub : some ⊆ items) (n i : Nat) : ∃ text,
      rounds (fun item i => runAll (s.inLoop name item i n) body) i some = .ok text ∧
        Harmless text := by
    induction some generalizing i with
    | nil => exact ⟨[], by rw [rounds], Text.harmless_nil⟩
    | cons item some ih =>
      obtain ⟨hitem, hsub⟩ := List.cons_subset.mp hsub
      obtain ⟨text, hrun, hharmless⟩ := h item hitem i n
      obtain ⟨more, hmore, hmoreHarmless⟩ := ih hsub (i + 1)
      exact ⟨text ++ more, by rw [rounds, hrun, hmore]; rfl, hharmless.append hmoreHarmless⟩
  cases items with
  | nil => exact ⟨[], by rw [Layout.each, run, hitems]; exact runAll.eq_1 s, Text.harmless_nil⟩
  | cons item items =>
    obtain ⟨text, hrun, hharmless⟩ := hrounds (List.Subset.refl _) (items.length + 1) 0
    exact ⟨text, by rw [Layout.each, run, hitems]; exact hrun, hharmless⟩

theorem laysOne_untabled {format : String} {table : List Node}
    (hlookup : s.lookup path = .ok (.string format)) (hformat : format ≠ "table")
    (hotherwise : s.Lays otherwise) :
    s.LaysOne (.branch (Layout.is path "table") table otherwise) := by
  refine laysOne_branch (holds_is hlookup "table") (fun htable => ?_) fun _ => hotherwise
  exact absurd (eq_of_beq htable) hformat

theorem laysOne_lines {texts : List String} (before : List Node)
    (hlookup : s.lookup path = .ok (.array (texts.map .string)))
    (htexts : ∀ text ∈ texts, Harmless text.toList)
    (hvariable : ∀ item i n, (s.inLoop name item i n).lookup name = .ok item)
    (hbefore : ∀ s : Stage, ∀ node ∈ before, s.LaysOne node) :
    s.LaysOne (Layout.each name path (before ++ [Layout.put name, Layout.say "  \n"])) := by
  refine laysOne_each hlookup fun item hitem i n => ?_
  obtain ⟨text, htext, rfl⟩ := List.mem_map.mp hitem
  refine lays_of_forall (List.forall_mem_append.mpr ⟨hbefore _, ?_⟩)
  simp only [List.forall_mem_cons]
  exact ⟨laysOne_put (hvariable _ i n) (htexts text htext), laysOne_text (by decide),
    List.forall_mem_nil _⟩

theorem laysOne_givenText {text : String} (before after : List Node)
    (hlookup : s.lookup path = .ok (.string text)) (htext : Harmless text.toList)
    (hbefore : ∀ node ∈ before, s.LaysOne node) (hafter : ∀ node ∈ after, s.LaysOne node) :
    s.LaysOne (Layout.given path (before ++ Layout.put path :: after)) := by
  refine laysOne_given fun _ _ _ => lays_of_forall (List.forall_mem_append.mpr ⟨hbefore, ?_⟩)
  exact List.forall_mem_cons.mpr ⟨laysOne_put hlookup htext, hafter⟩

theorem laysOne_givenNote {note : Option String} (after : List Node)
    (hlookup : s.lookup path = .ok (Codec.text.optional.encode note))
    (hnote : ∀ text ∈ note, Harmless text.toList) (hafter : ∀ node ∈ after, s.LaysOne node) :
    s.LaysOne (Layout.given path (Layout.put path :: after)) := by
  cases note with
  | some text =>
    exact laysOne_givenText [] after hlookup (hnote text rfl) (List.forall_mem_nil _) hafter
  | none =>
    refine laysOne_given fun w hw htrue => ?_
    rw [hlookup] at hw
    cases hw
    cases htrue

section Including

variable {templates : List Named} {depth : Nat}

def Stage.Uses (s : Stage) (templates : List Named) (depth : Nat) : Prop :=
  ∀ name locals, s.use name locals = match find? templates name with
    | some t => layOut s.builtins templates s.page s.known depth name locals t.nodes
    | none => .error (.missingTemplate name)

theorem exists_stage (builtins : Builtins) (templates : List Named) (page : Json)
    (known : List Entry) (depth : Nat) (template : String) (locals : List Local)
    (nodes : List Node) :
    ∃ s : Stage, s.page = page ∧ s.locals = locals ∧ s.Uses templates depth ∧
      layOut builtins templates page known (depth + 1) template locals nodes = runAll s nodes := by
  rw [layOut]
  exact ⟨_, rfl, rfl, fun _ _ => rfl, rfl⟩

theorem laysOne_use {t : Named} (huses : s.Uses templates (depth + 1))
    (ht : find? templates name = some t)
    (h : ∀ s' : Stage, s'.page = s.page → s'.locals = s.locals → s'.Uses templates depth →
      s'.Lays t.nodes) : s.LaysOne (.use name) := by
  obtain ⟨s', hpage, hlocals, huses', hrun⟩ :=
    exists_stage s.builtins templates s.page s.known depth name s.locals t.nodes
  obtain ⟨text, htext, hharmless⟩ := h s' hpage hlocals huses'
  refine ⟨text, ?_, hharmless⟩
  rw [run, huses name, ht, ← htext, ← hrun]

theorem laysOne_part (htemplates : ∀ t ∈ Layout.templates, find? templates t.name = some t)
    (huses : s.Uses templates (depth + 1)) (hs : s.Sees page bound)
    (ht : ⟨name, nodes⟩ ∈ Layout.templates)
    (h : ∀ s' : Stage, s'.Sees page bound → s'.Uses templates depth → s'.Lays nodes) :
    s.LaysOne (.use name) :=
  laysOne_use huses (htemplates _ ht) fun s' hpage hlocals => h s' (hs.congr hpage hlocals)

end Including

end ApiPages.Template
