import Mathlib
import ApiPages.Proofs.Entries
import ApiPages.Proofs.Links

/-!
When the anchors of a page differ. An anchor is made of the id of an entry, but that of a
constructor of its longname, which has no number behind it. Where the ids stay apart as anchors,
every longname stays apart from the others, for each of them is an id of its own. Main statement:
only constructors of one longname share an anchor, or a constructor with an entry that is called
like its anchor.
-/
namespace ApiPages.Catalogue

variable {showPrivate : Bool} {doclets : List Doclet}

theorem longname_mem_draftIds {e : Entry} (h : e ∈ ofDoclets showPrivate doclets) :
    e.longname ∈ draftIds showPrivate doclets := by
  obtain ⟨d, hd, hshown, part, hpart, hcontent⟩ := exists_doclet_of_mem h
  obtain ⟨-, hlong, -, -⟩ := Entry.eq_of_content hcontent
  rw [← hlong, longnames_parts d part hpart]
  exact List.mem_flatMap.mpr ⟨d, List.mem_filter.mpr ⟨hd, hshown⟩, List.mem_cons_self⟩

theorem mem_ids_of_mem_draftIds {id : String} (h : id ∈ draftIds showPrivate doclets) :
    id ∈ (ofDoclets showPrivate doclets).map (·.id) := by
  rw [ids_ofDoclets, mem_numberedIds]
  exact .inl ⟨h, List.not_mem_nil⟩

theorem sanitize_inj_of_nodup
    (hids : ((ofDoclets showPrivate doclets).map fun e => sanitize e.id).Nodup) {x y : String}
    (hx : x ∈ draftIds showPrivate doclets) (hy : y ∈ draftIds showPrivate doclets)
    (h : sanitize x = sanitize y) : x = y := by
  have hnodup : (((ofDoclets showPrivate doclets).map (·.id)).map sanitize).Nodup := by
    rwa [List.map_map]
  exact List.inj_on_of_nodup_map hnodup (mem_ids_of_mem_draftIds hx) (mem_ids_of_mem_draftIds hy) h

theorem suffixed_ne_empty (id : String) (n : Nat) : suffixed id n ≠ "" := by
  intro h
  have ht := congrArg String.toList h
  rw [suffixed_toList] at ht
  simp at ht

theorem draftIds_ne_empty {id : String} (h : id ∈ draftIds showPrivate doclets) : id ≠ "" := by
  obtain ⟨d, hd, hid⟩ := List.mem_flatMap.mp h
  have hshown := (List.mem_filter.mp hd).2
  simp only [Doclet.isShown, Bool.and_eq_true, bne_iff_ne] at hshown
  rcases List.mem_cons.mp hid with rfl | hid
  · exact hshown.1.1.1.2
  · split at hid
    · rw [List.mem_singleton.mp hid]
      simp
    · simp at hid

theorem id_ne_empty {e : Entry} (h : e ∈ ofDoclets showPrivate doclets) : e.id ≠ "" := by
  have hmem : e.id ∈ (ofDoclets showPrivate doclets).map (·.id) := List.mem_map_of_mem h
  rw [ids_ofDoclets, mem_numberedIds] at hmem
  rcases hmem with ⟨hdraft, -⟩ | ⟨id, n, -, -, -, hid⟩
  · exact draftIds_ne_empty hdraft
  · rw [hid]
    exact suffixed_ne_empty id n

theorem anchor_plain {e : Entry} (he : e ∈ ofDoclets showPrivate doclets)
    (hplain : e.isConstructor = false) : e.anchor = sanitize e.id := by
  simp [Entry.anchor, hplain, id_ne_empty he]

theorem anchor_constructor {e : Entry} (h : e.isConstructor = true) :
    e.anchor = "new_" ++ sanitize e.longname ++ "_new" := by
  simp [Entry.anchor, h]

theorem constructorAnchor_inj {x y : String} (h : "new_" ++ x ++ "_new" = "new_" ++ y ++ "_new") :
    x = y := by
  have ht := congrArg String.toList h
  simp only [String.toList_append] at ht
  exact String.toList_inj.mp (List.append_cancel_left (List.append_cancel_right ht))

def sectioned (entries : List Entry) (o : RenderOptions) : List Node :=
  (Outline.walk entries o.topLevel).map (·.1)

theorem sectioned_nodup (entries : List Entry) (o : RenderOptions) :
    (sectioned entries o).Nodup :=
  Outline.walk_nodes_nodup entries o.topLevel

theorem anchors_of_sectioned (entries : List Entry) (o : RenderOptions) :
    (View.of entries o).anchors = (sectioned entries o).map (·.1.anchor) :=
  View.anchors_of entries o

section Pairs

variable {o : RenderOptions} {a b : Node}

theorem mem_of_mem_sectioned {entries : List Entry} {node : Node}
    (h : node ∈ sectioned entries o) : node ∈ entries.zipIdx ∧ node.1 ∈ entries := by
  have hmem := (Outline.mem_walk_iff.mp h).mem
  exact ⟨hmem, List.fst_mem_of_mem_zipIdx hmem⟩

theorem eq_of_anchor_plain
    (hids : ((ofDoclets showPrivate doclets).map fun e => sanitize e.id).Nodup)
    (ha : a ∈ sectioned (ofDoclets showPrivate doclets) o) (haplain : a.1.isConstructor = false)
    (hb : b ∈ sectioned (ofDoclets showPrivate doclets) o) (hbplain : b.1.isConstructor = false)
    (h : a.1.anchor = b.1.anchor) : a = b := by
  obtain ⟨hanode, hamem⟩ := mem_of_mem_sectioned ha
  obtain ⟨hbnode, hbmem⟩ := mem_of_mem_sectioned hb
  rw [anchor_plain hamem haplain, anchor_plain hbmem hbplain] at h
  rw [← map_zipIdx_fst (fun e : Entry => sanitize e.id)] at hids
  exact List.inj_on_of_nodup_map hids hanode hbnode h

theorem longname_eq_of_anchor_constructor
    (hids : ((ofDoclets showPrivate doclets).map fun e => sanitize e.id).Nodup)
    (ha : a ∈ sectioned (ofDoclets showPrivate doclets) o) (hacon : a.1.isConstructor = true)
    (hb : b ∈ sectioned (ofDoclets showPrivate doclets) o) (hbcon : b.1.isConstructor = true)
    (h : a.1.anchor = b.1.anchor) : a.1.longname = b.1.longname := by
  rw [anchor_constructor hacon, anchor_constructor hbcon] at h
  exact sanitize_inj_of_nodup hids (longname_mem_draftIds (mem_of_mem_sectioned ha).2)
    (longname_mem_draftIds (mem_of_mem_sectioned hb).2) (constructorAnchor_inj h)

end Pairs

/-- Where the ids stay apart as anchors, so do the anchors of all sections but those of
constructors. All anchors differ exactly if no two constructors have one longname and no other id
reads like the anchor of a constructor. -/
theorem anchors_nodup_iff (showPrivate : Bool) (doclets : List Doclet) (o : RenderOptions)
    (hids : ((ofDoclets showPrivate doclets).map fun e => sanitize e.id).Nodup) :
    (((sectioned (ofDoclets showPrivate doclets) o).filter (!·.1.isConstructor)).map
        (·.1.anchor)).Nodup ∧
      ((View.of (ofDoclets showPrivate doclets) o).anchors.Nodup ↔
        (((sectioned (ofDoclets showPrivate doclets) o).filter (·.1.isConstructor)).map
          (·.1.longname)).Nodup ∧
        ∀ c ∈ sectioned (ofDoclets showPrivate doclets) o, c.1.isConstructor = true →
          ∀ e ∈ sectioned (ofDoclets showPrivate doclets) o, e.1.isConstructor = false →
            sanitize e.1.id ≠ "new_" ++ sanitize c.1.longname ++ "_new") := by
  have hnodes := sectioned_nodup (ofDoclets showPrivate doclets) o
  refine ⟨?_, ?_⟩
  · rw [List.nodup_map_iff_inj_on (hnodes.filter _)]
    intro a ha b hb hanchor
    simp only [List.mem_filter, Bool.not_eq_true'] at ha hb
    exact eq_of_anchor_plain hids ha.1 ha.2 hb.1 hb.2 hanchor
  rw [anchors_of_sectioned, List.nodup_map_iff_inj_on hnodes,
    List.nodup_map_iff_inj_on (hnodes.filter _)]
  constructor
  · intro hinj
    refine ⟨fun a ha b hb hlong => ?_, fun c hc hcon e he hplain hid => ?_⟩
    · obtain ⟨ha, hacon⟩ := List.mem_filter.mp ha
      obtain ⟨hb, hbcon⟩ := List.mem_filter.mp hb
      refine hinj a ha b hb ?_
      rw [anchor_constructor hacon, anchor_constructor hbcon, hlong]
    · have hsame : e.1.anchor = c.1.anchor := by
        rw [anchor_plain (mem_of_mem_sectioned he).2 hplain, anchor_constructor hcon, hid]
      rw [hinj e he c hc hsame, hcon] at hplain
      contradiction
  · rintro ⟨hlong, hapart⟩ a ha b hb hanchor
    cases hacon : a.1.isConstructor <;> cases hbcon : b.1.isConstructor
    · exact eq_of_anchor_plain hids ha hacon hb hbcon hanchor
    · rw [anchor_plain (mem_of_mem_sectioned ha).2 hacon, anchor_constructor hbcon] at hanchor
      exact absurd hanchor (hapart b hb hbcon a ha hacon)
    · rw [anchor_constructor hacon, anchor_plain (mem_of_mem_sectioned hb).2 hbcon] at hanchor
      exact absurd hanchor.symm (hapart a ha hacon b hb hbcon)
    · exact hlong a (List.mem_filter.mpr ⟨ha, hacon⟩) b (List.mem_filter.mpr ⟨hb, hbcon⟩)
        (longname_eq_of_anchor_constructor hids ha hacon hb hbcon hanchor)

def repeatedMethod : List Doclet :=
  [{ kind := .classKind, name := "A", longname := "A" },
    { kind := .function, name := "f", longname := "A#f", memberof := some "A" },
    { kind := .function, name := "f", longname := "A#f", memberof := some "A" }]

theorem anchors_nodup_iff_repeatedMethod :
    ((ofDoclets false repeatedMethod).map fun e => sanitize e.id).Nodup ∧
      (View.of (ofDoclets false repeatedMethod) {}).anchors.Nodup ∧
      (((sectioned (ofDoclets false repeatedMethod) {}).filter (·.1.isConstructor)).map
        (·.1.longname)).Nodup := by
  have hids : ((ofDoclets false repeatedMethod).map fun e => sanitize e.id).Nodup := by
    decide +kernel
  have hanchors : (sectioned (ofDoclets false repeatedMethod) {}).map (·.1.anchor) =
      ["A", "new_A_new", "A+f", "A+f_2"] := by
    cbv
  have hnodup : (View.of (ofDoclets false repeatedMethod) {}).anchors.Nodup := by
    rw [anchors_of_sectioned, hanchors]
    decide
  exact ⟨hids, hnodup, ((anchors_nodup_iff false repeatedMethod {} hids).2.mp hnodup).1⟩

def twoClasses : List Doclet :=
  [{ kind := .classKind, name := "A", longname := "A" },
    { kind := .classKind, name := "A", longname := "A" }]

theorem anchors_not_nodup :
    ((ofDoclets false twoClasses).map fun e => sanitize e.id).Nodup ∧
      ¬ (View.of (ofDoclets false twoClasses) {}).anchors.Nodup := by
  have hanchors : (sectioned (ofDoclets false twoClasses) {}).map (·.1.anchor) =
      ["A", "new_A_new", "new_A_new", "A_2"] := by
    cbv
  refine ⟨by decide +kernel, ?_⟩
  rw [anchors_of_sectioned, hanchors]
  decide

end ApiPages.Catalogue
