import Mathlib.Data.List.Perm.Basic
import Mathlib.Logic.Relation
import ApiPages.Proofs.Outline

/-!
Which entries a member index lists. Apart from its labels the index is a visit of the members below an
entry, and what a visit reaches does not depend on the order in which it takes the members of a node.
Main statement: every entry below another one that is no constructor has one row in its index, no
other has any, and the two layouts have the same rows but for the labels.
-/
namespace ApiPages.MemberIndex

open Outline (children visit)

variable {known : List Entry} {o : RenderOptions} {node n : Node}

def constructors (known : List Entry) (node : Node) : List Node :=
  (children known.zipIdx node).filter (·.1.isConstructor)

def plainMembers (known : List Entry) (node : Node) : List Node :=
  (children known.zipIdx node).filter (!·.1.isConstructor)

def byGroup (members : List Node) : List Node :=
  (groups members).flatMap fun g => members.filter fun m => Group.of m.1 == g

def members (known : List Entry) (o : RenderOptions) (node : Node) : List Node :=
  if o.memberIndex = .grouped ∧ 1 < (groups (plainMembers known node)).length then
    byGroup (plainMembers known node)
  else plainMembers known node

theorem Group.mem_all (g : Group) : g ∈ Group.all := by
  cases g <;> decide

theorem mem_byGroup {members : List Node} : n ∈ byGroup members ↔ n ∈ members := by
  constructor
  · intro h
    obtain ⟨g, -, hn⟩ := List.mem_flatMap.mp h
    exact List.mem_of_mem_filter hn
  · intro h
    have hgroup : Group.of n.1 ∈ groups members := by
      apply List.mem_filter.mpr
      exact ⟨Group.mem_all _, List.any_eq_true.mpr ⟨n, h, beq_self_eq_true _⟩⟩
    exact List.mem_flatMap.mpr ⟨_, hgroup, List.mem_filter.mpr ⟨h, beq_self_eq_true _⟩⟩

theorem mem_members : n ∈ members known o node ↔
    n ∈ children known.zipIdx node ∧ n.1.isConstructor = false := by
  have hplain : n ∈ plainMembers known node ↔
      n ∈ children known.zipIdx node ∧ n.1.isConstructor = false := by
    simp [plainMembers]
  rw [members]
  split
  · rw [mem_byGroup, hplain]
  · exact hplain

def labels : List String := Group.all.map fun g => "_" ++ g.label ++ "_"

def entryTexts (rows : List MemberRow) : List String := (rows.map (·.text)).filter (· ∉ labels)

def text (known : List Entry) (o : RenderOptions) (n : Node) : String :=
  rowText known o.nameFormat n.1

theorem not_mem_labels {rest : String} : "[" ++ rest ∉ labels := by
  intro h
  obtain ⟨g, -, hg⟩ := List.mem_map.mp h
  have hhead := congrArg (fun s : String => s.toList.head?) hg
  simp at hhead

theorem text_not_mem_labels (known : List Entry) (o : RenderOptions) (n : Node) :
    text known o n ∉ labels := by
  simp only [text, rowText, String.append_assoc]
  apply not_mem_labels

theorem entryTexts_append (rows more : List MemberRow) :
    entryTexts (rows ++ more) = entryTexts rows ++ entryTexts more := by
  simp [entryTexts]

theorem entryTexts_label {r : MemberRow} (h : r.text ∈ labels) (rows : List MemberRow) :
    entryTexts (r :: rows) = entryTexts rows := by
  simp [entryTexts, h]

theorem entryTexts_entry (depth : Nat) (n : Node) (rows : List MemberRow) :
    entryTexts (⟨depth, text known o n⟩ :: rows) = text known o n :: entryTexts rows := by
  simp [entryTexts, text_not_mem_labels]

theorem entryTexts_entries (depth : Nat) (ns : List Node) :
    entryTexts (ns.map fun n => ⟨depth, text known o n⟩) = ns.map (text known o) := by
  induction ns with
  | nil => rfl
  | cons n ns ih => rw [List.map_cons, entryTexts_entry, ih, List.map_cons]

def nodes (todo : List Task) : List Node :=
  todo.filterMap fun
    | .row _ => none
    | .node n _ => some n

def OnlyLabels (todo : List Task) : Prop := ∀ r, .row r ∈ todo → r.text ∈ labels

theorem nodes_append (todo more : List Task) : nodes (todo ++ more) = nodes todo ++ nodes more :=
  List.filterMap_append

theorem nodes_map_node (ns : List Node) (depth : Nat) :
    nodes (ns.map fun n => .node n depth) = ns := by
  simp [nodes, List.filterMap_map]

theorem OnlyLabels.append {todo more : List Task} (h : OnlyLabels todo) (hmore : OnlyLabels more) :
    OnlyLabels (todo ++ more) := by
  intro r hr
  rcases List.mem_append.mp hr with hr | hr
  · exact h r hr
  · exact hmore r hr

theorem OnlyLabels.tail {t : Task} {todo : List Task} (h : OnlyLabels (t :: todo)) :
    OnlyLabels todo :=
  fun r hr => h r (List.mem_cons_of_mem t hr)

theorem onlyLabels_map_node (ns : List Node) (depth : Nat) :
    OnlyLabels (ns.map fun n => .node n depth) := by
  intro r hr
  obtain ⟨n, -, hn⟩ := List.mem_map.mp hr
  cases hn

theorem nodes_grouped (members : List Node) (depth : Nat) :
    nodes (grouped members depth) = byGroup members := by
  rw [grouped, byGroup, nodes, List.filterMap_flatMap]
  apply List.flatMap_congr
  intro g _
  exact nodes_map_node _ _

theorem onlyLabels_grouped (members : List Node) (depth : Nat) :
    OnlyLabels (grouped members depth) := by
  intro r hr
  obtain ⟨g, -, hr⟩ := List.mem_flatMap.mp hr
  rcases List.mem_cons.mp hr with hr | hr
  · cases hr
    exact List.mem_map_of_mem (Group.mem_all g)
  · exact onlyLabels_map_node _ _ r hr

theorem exists_tasks (known : List Entry) (o : RenderOptions) (node : Node) (depth : Nat) :
    ∃ below, OnlyLabels below ∧ nodes below = members known o node ∧
      tasks known o node depth = ((constructors known node).map fun n =>
        (⟨depth, text known o n⟩ : MemberRow)).map Task.row ++ below := by
  have htasks : tasks known o node depth =
      (constructors known node).map (fun n => .row ⟨depth, text known o n⟩) ++
        if o.memberIndex = .grouped ∧ 1 < (groups (plainMembers known node)).length then
          grouped (plainMembers known node) depth
        else (plainMembers known node).map fun n => .node n depth := rfl
  rw [htasks, List.map_map]
  refine ⟨_, ?_, ?_, rfl⟩
  · split
    · apply onlyLabels_grouped
    · apply onlyLabels_map_node
  · rw [members]
    split
    · apply nodes_grouped
    · apply nodes_map_node

def shown (known : List Entry) (visits : List (Node × Nat)) : List Node :=
  visits.flatMap fun v => v.1 :: constructors known v.1

theorem shown_cons (v : Node × Nat) (visits : List (Node × Nat)) :
    shown known (v :: visits) = v.1 :: (constructors known v.1 ++ shown known visits) := rfl

theorem entryTexts_rows {fresh : List Nat} {todo : List Task} (lead : List MemberRow)
    {tail : List Task} {queue : List (Node × Nat)} (htodo : todo = lead.map Task.row ++ tail)
    (htail : OnlyLabels tail) (hqueue : queue.map (·.1) = nodes tail) :
    entryTexts (rows known o fresh todo) = entryTexts lead ++
      (shown known (visit (members known o) fresh queue)).map (text known o) := by
  fun_induction rows known o fresh todo generalizing lead tail queue with
  | case1 =>
    obtain ⟨hlead, rfl⟩ := List.append_eq_nil_iff.mp htodo.symm
    cases List.map_eq_nil_iff.mp hlead
    cases List.map_eq_nil_iff.mp hqueue
    rw [visit]
    rfl
  | case2 fresh r todo ih =>
    cases lead with
    | nil =>
      subst htodo
      rw [entryTexts_label (htail r List.mem_cons_self)]
      exact ih [] rfl htail.tail hqueue
    | cons first lead =>
      obtain ⟨hfirst, hrest⟩ := List.cons.inj htodo
      rw [← Task.row.inj hfirst, ← List.singleton_append, entryTexts_append,
        ih lead hrest htail hqueue, ← List.append_assoc, ← entryTexts_append]
      rfl
  | case3 fresh node depth todo hnode ih =>
    cases lead with
    | cons first lead => cases (List.cons.inj htodo).1
    | nil =>
      subst htodo
      obtain ⟨⟨node, level⟩, queue, rfl, rfl, hrest⟩ := List.map_eq_cons_iff.mp hqueue
      obtain ⟨below, hbelow, hnodes, htasks⟩ := exists_tasks known o node (depth + 1)
      have hnext : ((members known o node).map (fun kid => (kid, level + 1)) ++ queue).map (·.1) =
          nodes (below ++ todo) := by
        rw [nodes_append, hnodes, List.map_append, List.map_map]
        exact congrArg₂ (· ++ ·) (List.map_id _) hrest
      -- The rows of the constructors are the first tasks of the node, so they lead what is next.
      rw [htasks, List.append_assoc] at ih ⊢
      rw [visit, if_pos hnode, shown_cons]
      have hrows := ih _ rfl (hbelow.append htail.tail) hnext
      rw [entryTexts_entries, ← List.map_append] at hrows
      exact (entryTexts_entry depth node _).trans (congrArg (text known o node :: ·) hrows)
  | case4 fresh node depth todo hnode ih =>
    cases lead with
    | cons first lead => cases (List.cons.inj htodo).1
    | nil =>
      subst htodo
      obtain ⟨⟨node, level⟩, queue, rfl, rfl, hrest⟩ := List.map_eq_cons_iff.mp hqueue
      rw [visit, if_neg hnode]
      exact ih [] rfl htail.tail hrest

def title (known : List Entry) (o : RenderOptions) (node : Node) : List String :=
  if children known.zipIdx node = [] then []
  else ["[" ++ o.nameFormat.apply node.1.name ++ "](#" ++ node.1.anchor ++ ")"]

def visits (known : List Entry) (o : RenderOptions) (node : Node) : List (Node × Nat) :=
  visit (members known o) ((List.range known.length).erase node.2)
    ((members known o node).map fun n => (n, 0))

def listed (known : List Entry) (o : RenderOptions) (node : Node) : List Node :=
  constructors known node ++ shown known (visits known o node)

theorem entryTexts_of (known : List Entry) (o : RenderOptions) (node : Node) :
    entryTexts (of known o node) =
      title known o node ++ (listed known o node).map (text known o) := by
  rw [of, title]
  split
  · rename_i hnone
    have hmembers : members known o node = [] := by
      apply List.eq_nil_iff_forall_not_mem.mpr
      intro n hn
      have hchild := (mem_members.mp hn).1
      rw [hnone] at hchild
      exact List.not_mem_nil hchild
    rw [listed, visits, hmembers, List.map_nil, visit, constructors, hnone]
    rfl
  · obtain ⟨below, hbelow, hnodes, htasks⟩ := exists_tasks known o node 1
    have hqueue : ((members known o node).map fun n => (n, 0)).map (·.1) = nodes below := by
      rw [hnodes, List.map_map]
      exact List.map_id _
    have htitle (text : String) : entryTexts [⟨0, "[" ++ text⟩] = ["[" ++ text] := by
      simp [entryTexts, not_mem_labels]
    rw [htasks, ← List.singleton_append, entryTexts_append, entryTexts_rows _ rfl hbelow hqueue,
      entryTexts_entries, ← List.map_append]
    simp only [String.append_assoc, htitle]
    rfl

def Leads (known : List Entry) : Node → Node → Prop :=
  Relation.ReflTransGen fun a b => b ∈ children known.zipIdx a

theorem Leads.mem (hnode : node ∈ known.zipIdx) (h : Leads known node n) : n ∈ known.zipIdx := by
  cases h with
  | refl => exact hnode
  | tail _ hchild => exact (Outline.mem_children.mp hchild).2.1

theorem visits_nodup (known : List Entry) (o : RenderOptions) (node : Node) :
    ((visits known o node).map (·.1)).Nodup := by
  apply List.Nodup.of_map (·.2)
  rw [List.map_map]
  exact Outline.visit_nodup (List.nodup_range.erase node.2)

theorem leads_of_mem_members {a : Node} (ha : Leads known node a) (h : n ∈ members known o a) :
    n.1.isConstructor = false ∧ n ∈ known.zipIdx ∧ Leads known node n := by
  obtain ⟨hchild, hplain⟩ := mem_members.mp h
  exact ⟨hplain, (Outline.mem_children.mp hchild).2.1, ha.tail hchild⟩

theorem leads_of_mem_visits : ∀ v ∈ visits known o node,
    v.1.1.isConstructor = false ∧ v.1 ∈ known.zipIdx ∧ Leads known node v.1 := by
  apply Outline.visit_invariant
  · intro v hv kid hkid
    exact leads_of_mem_members hv.2.2 hkid
  · intro v hv
    obtain ⟨n, hn, rfl⟩ := List.mem_map.mp hv
    exact leads_of_mem_members .refl hn

theorem mem_visits_of_position (hn : n ∈ known.zipIdx)
    (h : n.2 ∈ (visits known o node).map (·.1.2)) : n ∈ (visits known o node).map (·.1) := by
  obtain ⟨v, hv, he⟩ := List.mem_map.mp h
  exact List.mem_map.mpr ⟨v, hv, Outline.eq_of_position (leads_of_mem_visits v hv).2.1 hn he⟩

theorem mem_visits_of_leads (hnode : node ∈ known.zipIdx) (hleads : Leads known node n)
    (hplain : n.1.isConstructor = false) (hother : n.2 ≠ node.2) :
    n ∈ (visits known o node).map (·.1) := by
  induction hleads with
  | refl => exact absurd rfl hother
  | @tail m n hm hchild ih =>
    obtain ⟨hmplain, hn, -, -⟩ := Outline.mem_children.mp hchild
    have hmember : n ∈ members known o m := mem_members.mpr ⟨hchild, hplain⟩
    have hfresh : n.2 ∈ (List.range known.length).erase node.2 :=
      List.nodup_range.mem_erase_iff.mpr ⟨hother, Outline.position_lt hn⟩
    apply mem_visits_of_position hn
    by_cases hstart : m.2 = node.2
    · rw [Outline.eq_of_position (Leads.mem hnode hm) hnode hstart] at hmember
      exact Outline.visit_covers (n, 0) (List.mem_map_of_mem hmember) hfresh
    · obtain ⟨v, hv, rfl⟩ := List.mem_map.mp (ih hmplain hstart)
      exact Outline.visit_closed v hv n hmember hfresh

theorem mem_visits_iff (hnode : node ∈ known.zipIdx) : n ∈ (visits known o node).map (·.1) ↔
    n.1.isConstructor = false ∧ n.2 ≠ node.2 ∧ Leads known node n := by
  constructor
  · intro h
    obtain ⟨v, hv, rfl⟩ := List.mem_map.mp h
    obtain ⟨hplain, -, hleads⟩ := leads_of_mem_visits v hv
    have hfresh := Outline.visit_fresh v hv
    exact ⟨hplain, (List.nodup_range.mem_erase_iff.mp hfresh).1, hleads⟩
  · rintro ⟨hplain, hother, hleads⟩
    exact mem_visits_of_leads hnode hleads hplain hother

theorem visits_perm (hnode : node ∈ known.zipIdx) (o o' : RenderOptions) :
    ((visits known o node).map (·.1)).Perm ((visits known o' node).map (·.1)) := by
  rw [List.perm_ext_iff_of_nodup (visits_nodup known o node) (visits_nodup known o' node)]
  intro n
  rw [mem_visits_iff hnode, mem_visits_iff hnode]

theorem listed_eq (known : List Entry) (o : RenderOptions) (node : Node) :
    listed known o node = constructors known node ++
      ((visits known o node).map (·.1)).flatMap fun n => n :: constructors known n := by
  rw [listed, shown, List.flatMap_map]

theorem listed_perm (hnode : node ∈ known.zipIdx) (o o' : RenderOptions) :
    (listed known o node).Perm (listed known o' node) := by
  rw [listed_eq, listed_eq]
  exact ((visits_perm hnode o o').flatMap_right _).append_left _

theorem filter_constructors (known : List Entry) (node : Node) :
    (constructors known node).filter (!·.1.isConstructor) = [] := by
  simp [constructors]

theorem filter_shown {visits : List (Node × Nat)} (h : ∀ v ∈ visits, v.1.1.isConstructor = false) :
    (shown known visits).filter (!·.1.isConstructor) = visits.map (·.1) := by
  induction visits with
  | nil => rfl
  | cons v visits ih =>
    rw [List.forall_mem_cons] at h
    rw [shown_cons, List.filter_cons_of_pos (by simp [h.1]), List.filter_append,
      filter_constructors, List.nil_append, ih h.2]
    rfl

theorem filter_listed (known : List Entry) (o : RenderOptions) (node : Node) :
    (listed known o node).filter (!·.1.isConstructor) = (visits known o node).map (·.1) := by
  rw [listed, List.filter_append, filter_constructors, List.nil_append]
  apply filter_shown
  intro v hv
  exact (leads_of_mem_visits v hv).1

theorem count_listed (hplain : n.1.isConstructor = false) :
    (listed known o node).count n = ((visits known o node).map (·.1)).count n := by
  rw [← filter_listed, List.count_filter (by simp [hplain])]

/-- The member index lists what is below an entry: one row for everything but constructors, and the
same rows in both layouts but for the labels of the groups. -/
theorem memberIndex_complete (known : List Entry) (o : RenderOptions) (node : Node)
    (hnode : node ∈ known.zipIdx) :
    (entryTexts (of known { o with memberIndex := .grouped } node)).Perm
        (entryTexts (of known { o with memberIndex := .list } node)) ∧
      ∀ layout, ∃ below : List Node,
        entryTexts (of known { o with memberIndex := layout } node) =
            title known o node ++ below.map (fun n => rowText known o.nameFormat n.1) ∧
          ∀ n : Node, n.1.isConstructor = false →
            (n.2 ≠ node.2 ∧ Leads known node n → below.count n = 1) ∧
              (¬ (n.2 ≠ node.2 ∧ Leads known node n) → below.count n = 0) := by
  constructor
  · rw [entryTexts_of, entryTexts_of]
    exact ((listed_perm hnode _ _).map _).append_left _
  · intro layout
    refine ⟨listed known { o with memberIndex := layout } node, entryTexts_of _ _ _, ?_⟩
    intro n hplain
    rw [count_listed hplain]
    constructor
    · rintro ⟨hother, hleads⟩
      apply List.count_eq_one_of_mem (visits_nodup _ _ _)
      exact mem_visits_of_leads hnode hleads hplain hother
    · intro hnot
      apply List.count_eq_zero.mpr
      intro hvisited
      exact hnot ((mem_visits_iff hnode).mp hvisited).2

def firstClass : Entry :=
  { id := "A", kind := .classKind, name := "A", longname := "A", memberof := some "B" }

def secondClass : Entry := { firstClass with id := "A_2" }

def ownNamespace : Entry :=
  { id := "B", kind := .namespaceKind, name := "B", longname := "B", memberof := some "A",
    scope := some .staticScope }

def looped : List Entry :=
  [firstClass, { id := "A()", kind := .constructor, name := "A", longname := "A", memberof := some "A" },
    ownNamespace,
    { id := "A#f", kind := .function, name := "f", longname := "A#f", memberof := some "A",
      scope := some .instanceScope },
    secondClass]

theorem memberIndex_complete_looped :
    (firstClass, 0) ∈ looped.zipIdx ∧ Leads looped (firstClass, 0) (secondClass, 4) ∧
      (entryTexts (of looped { memberIndex := .grouped } (firstClass, 0))).Perm
        (entryTexts (of looped { memberIndex := .list } (firstClass, 0))) ∧
      ∃ below : List Node, entryTexts (of looped { memberIndex := .list } (firstClass, 0)) =
          title looped {} (firstClass, 0) ++ below.map (fun n => rowText looped .plain n.1) ∧
        below.count (secondClass, 4) = 1 ∧ below.count (firstClass, 0) = 0 := by
  have hnode : (firstClass, 0) ∈ looped.zipIdx := by decide +kernel
  have hleads : Leads looped (firstClass, 0) (secondClass, 4) := by
    apply Relation.ReflTransGen.tail (b := (ownNamespace, 2))
    · apply Relation.ReflTransGen.single
      decide +kernel
    · decide +kernel
  obtain ⟨hperm, hrows⟩ := memberIndex_complete looped {} (firstClass, 0) hnode
  obtain ⟨below, htexts, hcount⟩ := hrows .list
  refine ⟨hnode, hleads, hperm, below, htexts, ?_, ?_⟩
  · exact (hcount (secondClass, 4) rfl).1 ⟨by decide, hleads⟩
  · exact (hcount (firstClass, 0) rfl).2 fun h => h.1 rfl

end ApiPages.MemberIndex
