import Mathlib.Data.List.Chain
import Mathlib.Data.List.Nodup
import ApiPages.Page.View

/-!
The outline that the sections of a page form. The visit is followed for any function of members
first: what it keeps, that it leaves nothing out and repeats nothing, and how its levels move. Main
statements: the sections belong to exactly the entries that the top leads to, each once, below what
they are members of; and where no chain of parents is endless, only a constructor whose class is not
documented has no section.
-/
namespace ApiPages.Outline

variable {kids : Node → List Node} {fresh : List Nat} {todo : List (Node × Nat)}

/-- Whatever holds of the start and passes from a node to its members holds of every visit. -/
theorem visit_invariant {P : Node × Nat → Prop}
    (hkids : ∀ v, P v → ∀ kid ∈ kids v.1, P (kid, v.2 + 1)) (htodo : ∀ v ∈ todo, P v) :
    ∀ v ∈ visit kids fresh todo, P v := by
  fun_induction visit kids fresh todo with
  | case1 => simp
  | case2 fresh node level todo hnode ih =>
    have hhead := htodo _ List.mem_cons_self
    intro v hv
    rcases List.mem_cons.mp hv with rfl | hv
    · exact hhead
    · refine ih (fun w hw => ?_) v hv
      rcases List.mem_append.mp hw with hw | hw
      · obtain ⟨kid, hkid, rfl⟩ := List.mem_map.mp hw
        exact hkids _ hhead kid hkid
      · exact htodo w (List.mem_cons_of_mem _ hw)
  | case3 fresh node level todo hnode ih =>
    exact ih fun w hw => htodo w (List.mem_cons_of_mem _ hw)

theorem visit_fresh : ∀ v ∈ visit kids fresh todo, v.1.2 ∈ fresh := by
  fun_induction visit kids fresh todo with
  | case1 => simp
  | case2 fresh node level todo hnode ih =>
    intro v hv
    rcases List.mem_cons.mp hv with rfl | hv
    · exact hnode
    · exact List.mem_of_mem_erase (ih v hv)
  | case3 fresh node level todo hnode ih => exact ih

theorem visit_nodup (hfresh : fresh.Nodup) :
    ((visit kids fresh todo).map (·.1.2)).Nodup := by
  fun_induction visit kids fresh todo with
  | case1 => simp
  | case2 fresh node level todo hnode ih =>
    rw [List.map_cons, List.nodup_cons]
    refine ⟨fun hm => ?_, ih (hfresh.erase _)⟩
    obtain ⟨v, hv, he⟩ := List.mem_map.mp hm
    have hleft := visit_fresh v hv
    rw [he] at hleft
    exact (hfresh.mem_erase_iff.mp hleft).1 rfl
  | case3 fresh node level todo hnode ih => exact ih hfresh

theorem visit_covers : ∀ v ∈ todo, v.1.2 ∈ fresh →
    v.1.2 ∈ (visit kids fresh todo).map (·.1.2) := by
  fun_induction visit kids fresh todo with
  | case1 => simp
  | case2 fresh node level todo hnode ih =>
    intro v hv hf
    rw [List.map_cons, List.mem_cons]
    by_cases he : v.1.2 = node.2
    · exact .inl he
    · refine .inr (ih v (List.mem_append_right _ ?_) ((List.mem_erase_of_ne he).mpr hf))
      refine (List.mem_cons.mp hv).resolve_left fun h => he ?_
      rw [h]
  | case3 fresh node level todo hnode ih =>
    intro v hv hf
    rcases List.mem_cons.mp hv with rfl | hv
    · exact absurd hf hnode
    · exact ih v hv hf

theorem visit_closed : ∀ v ∈ visit kids fresh todo, ∀ kid ∈ kids v.1, kid.2 ∈ fresh →
    kid.2 ∈ (visit kids fresh todo).map (·.1.2) := by
  fun_induction visit kids fresh todo with
  | case1 => simp
  | case2 fresh node level todo hnode ih =>
    intro v hv kid hkid hf
    rw [List.map_cons, List.mem_cons]
    by_cases he : kid.2 = node.2
    · exact .inl he
    · have hf' := (List.mem_erase_of_ne he).mpr hf
      rcases List.mem_cons.mp hv with rfl | hv
      · refine .inr (visit_covers (kid, level + 1) (List.mem_append_left _ ?_) hf')
        exact List.mem_map_of_mem hkid
      · exact .inr (ih v hv kid hkid hf')
  | case3 fresh node level todo hnode ih => exact ih

/-- What is visited stood in the list at the start, or follows a visit that it is a member of. -/
theorem visit_order {before after : List (Node × Nat)} {v : Node × Nat}
    (h : visit kids fresh todo = before ++ v :: after) :
    v.1 ∈ todo.map (·.1) ∨ ∃ u ∈ before, v.1 ∈ kids u.1 := by
  fun_induction visit kids fresh todo generalizing before with
  | case1 => simp at h
  | case2 fresh node level todo hnode ih =>
    cases before with
    | nil =>
      obtain ⟨rfl, -⟩ := List.cons.inj h
      exact .inl (by simp)
    | cons u before =>
      obtain ⟨rfl, hrest⟩ := List.cons.inj h
      rcases ih hrest with hm | ⟨w, hw, hk⟩
      · rw [List.map_append, List.mem_append] at hm
        rcases hm with hm | hm
        · exact .inr ⟨(node, level), List.mem_cons_self, by simpa using hm⟩
        · exact .inl (List.mem_cons_of_mem _ hm)
      · exact .inr ⟨w, List.mem_cons_of_mem _ hw, hk⟩
  | case3 fresh node level todo hnode ih =>
    rcases ih h with hm | hk
    · exact .inl (List.mem_cons_of_mem _ hm)
    · exact .inr hk

/-- The levels in the list never rise, so only the step to a member rises, by one. -/
theorem visit_steps {level : Nat} (hdesc : todo.Pairwise fun a b => b.2 ≤ a.2)
    (hlevel : ∀ v ∈ todo, v.2 ≤ level + 1) :
    List.IsChain (fun a b => b ≤ a + 1) (level :: (visit kids fresh todo).map (·.2)) := by
  fun_induction visit kids fresh todo generalizing level with
  | case1 => simp
  | case2 fresh node deeper todo hnode ih =>
    obtain ⟨hhead, htail⟩ := List.pairwise_cons.mp hdesc
    rw [List.map_cons, List.isChain_cons_cons]
    refine ⟨hlevel _ List.mem_cons_self, ih ?_ fun v hv => ?_⟩
    · rw [List.pairwise_append]
      refine ⟨List.pairwise_map.mpr (List.pairwise_of_forall fun _ _ => Nat.le_refl _), htail, ?_⟩
      intro a ha b hb
      obtain ⟨kid, -, rfl⟩ := List.mem_map.mp ha
      exact Nat.le_succ_of_le (hhead b hb)
    · rcases List.mem_append.mp hv with hv | hv
      · obtain ⟨kid, -, rfl⟩ := List.mem_map.mp hv
        exact Nat.le_refl _
      · exact Nat.le_succ_of_le (hhead v hv)
  | case3 fresh node deeper todo hnode ih =>
    exact ih (List.pairwise_cons.mp hdesc).2 fun v hv => hlevel v (List.mem_cons_of_mem _ hv)

/-- The least set that holds the entries at the top and, with an entry that is no constructor, every
other entry that is a member of that name. -/
inductive Reached (entries : List Entry) : Node → Prop
  | top {node : Node} (hnode : node ∈ entries.zipIdx) (htop : isTop entries node.1 = true) :
      Reached entries node
  | member {parent kid : Node} (hparent : Reached entries parent)
      (hplain : parent.1.isConstructor = false) (hkid : kid ∈ entries.zipIdx)
      (hother : kid.2 ≠ parent.2) (hmember : kid.1.memberof = some parent.1.longname) :
      Reached entries kid

theorem Reached.mem {entries : List Entry} {node : Node} (h : Reached entries node) :
    node ∈ entries.zipIdx := by
  cases h with
  | top hnode _ => exact hnode
  | member _ _ hkid _ _ => exact hkid

theorem mem_children {nodes : List Node} {node kid : Node} :
    kid ∈ children nodes node ↔ node.1.isConstructor = false ∧ kid ∈ nodes ∧
      kid.1.memberof = some node.1.longname ∧ kid.2 ≠ node.2 := by
  by_cases hc : node.1.isConstructor <;> by_cases hk : kid.1.isConstructor <;>
    simp [children, hc, hk]

theorem mem_top {entries : List Entry} {node : Node} :
    node ∈ top entries ↔ node ∈ entries.zipIdx ∧ isTop entries node.1 = true := by
  simp [top]

theorem eq_of_position {entries : List Entry} {a b : Node} (ha : a ∈ entries.zipIdx)
    (hb : b ∈ entries.zipIdx) (h : a.2 = b.2) : a = b := by
  obtain ⟨x, i⟩ := a
  obtain ⟨y, j⟩ := b
  obtain rfl : i = j := h
  rw [List.mk_mem_zipIdx_iff_getElem?] at ha hb
  rw [ha] at hb
  rw [Option.some.inj hb]

theorem position_lt {entries : List Entry} {node : Node} (h : node ∈ entries.zipIdx) :
    node.2 ∈ List.range entries.length := by
  rw [List.mem_range]
  simpa using List.snd_lt_add_of_mem_zipIdx h

theorem reached_of_mem_walk {entries : List Entry} {level : Nat} :
    ∀ v ∈ walk entries level, Reached entries v.1 ∧ level ≤ v.2 := by
  refine visit_invariant (fun v hv kid hkid => ?_) (fun v hv => ?_)
  · obtain ⟨hplain, hmem, hmember, hother⟩ := mem_children.mp hkid
    exact ⟨.member hv.1 hplain hmem hother hmember, Nat.le_succ_of_le hv.2⟩
  · obtain ⟨node, hnode, rfl⟩ := List.mem_map.mp hv
    obtain ⟨hmem, htop⟩ := mem_top.mp hnode
    exact ⟨.top hmem htop, Nat.le_refl _⟩

theorem mem_walk_of_position {entries : List Entry} {level : Nat} {node : Node}
    (hnode : node ∈ entries.zipIdx) (h : node.2 ∈ (walk entries level).map (·.1.2)) :
    node ∈ (walk entries level).map (·.1) := by
  obtain ⟨v, hv, he⟩ := List.mem_map.mp h
  have hmem := (reached_of_mem_walk v hv).1.mem
  exact List.mem_map.mpr ⟨v, hv, eq_of_position hmem hnode he⟩

theorem mem_walk_iff {entries : List Entry} {level : Nat} {node : Node} :
    node ∈ (walk entries level).map (·.1) ↔ Reached entries node := by
  constructor
  · intro h
    obtain ⟨v, hv, rfl⟩ := List.mem_map.mp h
    exact (reached_of_mem_walk v hv).1
  · intro h
    induction h with
    | @top node hnode htop =>
      refine mem_walk_of_position hnode (visit_covers (node, level) ?_ (position_lt hnode))
      exact List.mem_map_of_mem (mem_top.mpr ⟨hnode, htop⟩)
    | @member parent kid _ hplain hkid hother hmember ih =>
      obtain ⟨v, hv, rfl⟩ := List.mem_map.mp ih
      refine mem_walk_of_position hkid (visit_closed v hv kid ?_ (position_lt hkid))
      exact mem_children.mpr ⟨hplain, hkid, hmember, hother⟩

theorem walk_nodup (entries : List Entry) (level : Nat) :
    ((walk entries level).map (·.1.2)).Nodup :=
  visit_nodup List.nodup_range

theorem walk_order {entries : List Entry} {level : Nat} {before after : List (Node × Nat)}
    {v : Node × Nat} (h : walk entries level = before ++ v :: after) :
    isTop entries v.1.1 = true ∨ ∃ u ∈ before, v.1.1.memberof = some u.1.1.longname := by
  rcases visit_order h with hm | ⟨u, hu, hk⟩
  · rw [List.map_map, List.mem_map] at hm
    obtain ⟨node, hnode, he⟩ := hm
    exact .inl (he ▸ (mem_top.mp hnode).2)
  · exact .inr ⟨u, hu, (mem_children.mp hk).2.2.1⟩

theorem walk_steps (entries : List Entry) (level : Nat) :
    List.IsChain (fun a b => b ≤ a + 1) ((walk entries level).map (·.2)) := by
  have hchain : List.IsChain (fun a b => b ≤ a + 1) (level :: (walk entries level).map (·.2)) := by
    refine visit_steps ?_ ?_
    · exact List.pairwise_map.mpr (List.pairwise_of_forall fun _ _ => Nat.le_refl _)
    · intro v hv
      obtain ⟨node, -, rfl⟩ := List.mem_map.mp hv
      exact Nat.le_succ level
  exact hchain.of_cons

theorem levels_sections (entries : List Entry) (o : RenderOptions) :
    (View.of entries o).sections.map (·.level) =
      ((walk entries o.topLevel).map (·.2)).map (min · Section.deepest) := by
  simp [View.of, Section.of]

/-- The sections are an outline: they belong to the entries that the top leads to, each to one,
every entry stands behind one that it is a member of, and the levels go down one by one. -/
theorem sections_outline (entries : List Entry) (o : RenderOptions) :
    (View.of entries o).sections =
        (walk entries o.topLevel).map (fun v => Section.of entries o v.1 v.2) ∧
      ((walk entries o.topLevel).map (·.1.2)).Nodup ∧
      (∀ node, node ∈ (walk entries o.topLevel).map (·.1) ↔ Reached entries node) ∧
      (∀ before v after, walk entries o.topLevel = before ++ v :: after →
        isTop entries v.1.1 = true ∨ ∃ u ∈ before, v.1.1.memberof = some u.1.1.longname) ∧
      (∀ s ∈ (View.of entries o).sections,
        min (max o.headingDepth.toNat 1) 6 ≤ s.level ∧ s.level ≤ 6) ∧
      ((View.of entries o).sections.map (·.level)).IsChain (fun a b => b ≤ a + 1) := by
  refine ⟨rfl, walk_nodup _ _, fun _ => mem_walk_iff, fun _ _ _ => walk_order, ?_, ?_⟩
  · intro s hs
    obtain ⟨v, hv, rfl⟩ := List.mem_map.mp hs
    have hlevel := (reached_of_mem_walk v hv).2
    simp only [RenderOptions.topLevel, Section.deepest] at hlevel
    simp only [Section.of, Section.deepest]
    omega
  · rw [levels_sections, List.isChain_map]
    refine (walk_steps _ _).imp fun a b hab => ?_
    simp only [Section.deepest]
    omega

def ancestor? (known : List Entry) : Nat → Entry → Option Entry
  | 0, e => some e
  | n + 1, e => (parent? known e).bind (ancestor? known n)

/-- No chain of parents is endless. -/
def Rooted (known : List Entry) : Prop := ∀ e ∈ known, ∃ n, ancestor? known n e = none

/-- A constructor whose class is not documented. -/
def isOrphan (known : List Entry) (e : Entry) : Bool :=
  e.isConstructor && e.memberof.isSome && (parent? known e).isNone

theorem isTop_of_parent?_eq_none {known : List Entry} {e : Entry}
    (hparent : parent? known e = none) (horphan : isOrphan known e = false) :
    isTop known e = true := by
  cases hc : e.isConstructor <;> cases hm : e.memberof <;>
    simp_all [isTop, isOrphan]

theorem parent?_eq_some {known : List Entry} {e p : Entry} (h : parent? known e = some p) :
    p ∈ known ∧ p.isConstructor = false ∧ e.memberof = some p.longname := by
  obtain ⟨name, hname, hfind⟩ := Option.bind_eq_some_iff.mp h
  have hp := List.find?_some hfind
  simp only [Bool.and_eq_true, Bool.not_eq_true', beq_iff_eq] at hp
  exact ⟨List.mem_of_find?_eq_some hfind, hp.1, hp.2 ▸ hname⟩

theorem isSome_parent? {known : List Entry} {e p : Entry} (hp : p ∈ known)
    (hplain : p.isConstructor = false) (hmember : e.memberof = some p.longname) :
    (parent? known e).isSome = true := by
  rw [parent?, hmember, Option.bind_some, documented?, List.find?_isSome]
  exact ⟨p, hp, by simp [hplain]⟩

theorem ancestor?_ne_none_of_parent?_self {known : List Entry} {e : Entry}
    (h : parent? known e = some e) (n : Nat) : ancestor? known n e ≠ none := by
  induction n with
  | zero => simp [ancestor?]
  | succ n ih => simpa [ancestor?, h] using ih

theorem exists_position {entries : List Entry} {e : Entry} (h : e ∈ entries) :
    ∃ i, (e, i) ∈ entries.zipIdx := by
  obtain ⟨i, hi⟩ := List.mem_iff_getElem?.mp h
  exact ⟨i, List.mk_mem_zipIdx_iff_getElem?.mpr hi⟩

theorem reached_of_ancestor?_eq_none {entries : List Entry} {n : Nat} {node : Node}
    (hnode : node ∈ entries.zipIdx) (hend : ancestor? entries n node.1 = none)
    (horphan : isOrphan entries node.1 = false) : Reached entries node := by
  induction n generalizing node with
  | zero => simp [ancestor?] at hend
  | succ n ih =>
    cases hp : parent? entries node.1 with
    | none => exact .top hnode (isTop_of_parent?_eq_none hp horphan)
    | some p =>
      obtain ⟨hmem, hplain, hmember⟩ := parent?_eq_some hp
      obtain ⟨i, hi⟩ := exists_position hmem
      rw [ancestor?, hp, Option.bind_some] at hend
      have hparent : Reached entries (p, i) := ih hi hend (by simp [isOrphan, hplain])
      -- An entry is not its own parent here: its chain of parents would be endless.
      refine .member hparent hplain hnode (fun hsame => ?_) hmember
      have hself : node = (p, i) := eq_of_position hnode hi hsame
      rw [hself] at hp
      exact ancestor?_ne_none_of_parent?_self hp n hend

theorem not_reached_of_isOrphan {entries : List Entry} {node : Node}
    (h : isOrphan entries node.1 = true) : ¬ Reached entries node := by
  simp only [isOrphan, Bool.and_eq_true, Option.isNone_iff_eq_none] at h
  obtain ⟨⟨hc, hm⟩, hp⟩ := h
  rintro (⟨_, htop⟩ | ⟨hparent, hplain, _, _, hmember⟩)
  · rw [isTop, if_pos hc, Option.isNone_iff_eq_none] at htop
    simp [htop] at hm
  · have hsome := isSome_parent? (List.fst_mem_of_mem_zipIdx hparent.mem) hplain hmember
    simp [hp] at hsome

theorem walk_nodes_nodup (entries : List Entry) (level : Nat) :
    ((walk entries level).map (·.1)).Nodup := by
  refine List.Nodup.of_map (·.2) ?_
  rw [List.map_map]
  exact walk_nodup entries level

/-- Where no chain of parents is endless, every entry has one section, save for the constructors of
classes that are not documented, which have none. -/
theorem sections_complete (entries : List Entry) (o : RenderOptions) (hrooted : Rooted entries) :
    (View.of entries o).sections =
        (walk entries o.topLevel).map (fun v => Section.of entries o v.1 v.2) ∧
      ∀ node ∈ entries.zipIdx, ((walk entries o.topLevel).map (·.1)).count node =
        if isOrphan entries node.1 then 0 else 1 := by
  refine ⟨rfl, fun node hnode => ?_⟩
  cases horphan : isOrphan entries node.1 with
  | true =>
    rw [if_pos rfl, List.count_eq_zero, mem_walk_iff]
    exact not_reached_of_isOrphan horphan
  | false =>
    obtain ⟨n, hn⟩ := hrooted node.1 (List.fst_mem_of_mem_zipIdx hnode)
    refine List.count_eq_one_of_mem (walk_nodes_nodup _ _) (mem_walk_iff.mpr ?_)
    exact reached_of_ancestor?_eq_none hnode hn horphan

def strayConstructor : List Entry :=
  [{ kind := .classKind, longname := "A" },
    { kind := .constructor, longname := "A", memberof := some "A" },
    { kind := .constructor, longname := "B", memberof := some "B" }]

theorem rooted_strayConstructor : Rooted strayConstructor := by
  intro e he
  refine ⟨2, ?_⟩
  revert e
  decide +kernel

theorem sections_complete_stray :
    Rooted strayConstructor ∧
      ∀ node ∈ strayConstructor.zipIdx,
        ((walk strayConstructor (RenderOptions.topLevel {})).map (·.1)).count node =
          if isOrphan strayConstructor node.1 then 0 else 1 :=
  ⟨rooted_strayConstructor, (sections_complete strayConstructor {} rooted_strayConstructor).2⟩

theorem stray_not_visited :
    Rooted strayConstructor ∧ ∃ node ∈ strayConstructor.zipIdx, ∀ level,
      node ∉ (walk strayConstructor level).map (·.1) := by
  have horphan : ∃ node ∈ strayConstructor.zipIdx, isOrphan strayConstructor node.1 = true := by
    decide +kernel
  obtain ⟨node, hnode, horphan⟩ := horphan
  refine ⟨rooted_strayConstructor, node, hnode, fun level h => ?_⟩
  exact not_reached_of_isOrphan horphan (mem_walk_iff.mp h)

end ApiPages.Outline
