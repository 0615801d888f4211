import Mathlib.Data.List.DropRight
import Mathlib.Data.List.TakeDrop
import ApiPages.Text.Line

/-!
A text and what is cut from it: its pieces between separators, its words, and what is left of it
without the blanks around it. A separator cuts a text in two that are cut on their own, and a piece behind the
first one is the same piece of any text that ends with it.
-/
namespace ApiPages.Text

variable {sep : Char}

theorem split_of_not_mem {cs : List Char} (h : sep ∉ cs) : split sep cs = [cs] := by
  induction cs with
  | nil => rfl
  | cons c cs ih =>
    obtain ⟨hc, hcs⟩ := not_or.mp (mt List.mem_cons.mpr h)
    rw [split, if_neg (Ne.symm hc), ih hcs]

theorem split_append_cons (a b : List Char) :
    split sep (a ++ sep :: b) = split sep a ++ split sep b := by
  induction a with
  | nil => simp [split]
  | cons c a ih =>
    by_cases hc : c = sep
    · simp [split, hc, ih]
    · obtain ⟨piece, more, hcons⟩ := List.exists_cons_of_ne_nil (split_ne_nil sep a)
      simp [split, hc, ih, hcons]

theorem split_cons_of_ne {c : Char} (hc : c ≠ sep) {cs piece : List Char} {more : List (List Char)}
    (h : split sep cs = piece :: more) : split sep (c :: cs) = (c :: piece) :: more := by
  simp [split, hc, h]

theorem subset_of_mem_split {cs piece : List Char} (h : piece ∈ split sep cs) : piece ⊆ cs := by
  induction cs generalizing piece with
  | nil => simp_all [split]
  | cons c cs ih =>
    by_cases hc : c = sep
    · rw [split, if_pos hc, List.mem_cons] at h
      rcases h with rfl | h
      · exact List.nil_subset _
      · exact List.subset_cons_of_subset c (ih h)
    · obtain ⟨first, more, hcons⟩ := List.exists_cons_of_ne_nil (split_ne_nil sep cs)
      rw [hcons] at ih
      rw [split_cons_of_ne hc hcons, List.mem_cons] at h
      rcases h with rfl | h
      · exact List.cons_subset_cons c (ih List.mem_cons_self)
      · exact List.subset_cons_of_subset c (ih (List.mem_cons_of_mem _ h))

theorem length_split (cs : List Char) : (split sep cs).length = cs.count sep + 1 := by
  induction cs with
  | nil => rfl
  | cons c cs ih =>
    by_cases hc : c = sep
    · simp [split, hc, ih]
    · obtain ⟨piece, more, hcons⟩ := List.exists_cons_of_ne_nil (split_ne_nil sep cs)
      rw [split_cons_of_ne hc hcons, List.count_cons_of_ne (by simpa using hc), ← ih, hcons]
      rfl

theorem getElem?_split_append (before after : List Char) (j : Nat) :
    (split sep (before ++ after))[before.count sep + (j + 1)]? = (split sep after)[j + 1]? := by
  induction before with
  | nil => simp
  | cons c before ih =>
    by_cases hc : c = sep
    · rw [List.cons_append, split, if_pos hc, hc, List.count_cons_self, Nat.add_right_comm,
        List.getElem?_cons_succ, ih]
    · obtain ⟨piece, more, hcons⟩ := List.exists_cons_of_ne_nil (split_ne_nil sep (before ++ after))
      rw [hcons] at ih
      rw [List.cons_append, split_cons_of_ne hc hcons, List.count_cons_of_ne (by simpa using hc), ← ih,
        ← Nat.add_assoc, List.getElem?_cons_succ, List.getElem?_cons_succ]

theorem join_concat {pieces : List (List Char)} (h : pieces ≠ []) (piece : List Char) :
    join [sep] (pieces ++ [piece]) = join [sep] pieces ++ sep :: piece := by
  induction pieces with
  | nil => exact absurd rfl h
  | cons first pieces ih =>
    cases pieces with
    | nil => simp [join, List.intercalate]
    | cons second pieces =>
      have ih := ih (List.cons_ne_nil _ _)
      simp only [join, List.cons_append, List.intercalate_cons_cons] at ih ⊢
      simp only [ih, List.append_assoc]

theorem eq_or_mem_of_mem_join {c : Char} {pieces : List (List Char)} (h : c ∈ join [sep] pieces) :
    c = sep ∨ ∃ piece ∈ pieces, c ∈ piece := by
  induction pieces with
  | nil => simp [join] at h
  | cons first pieces ih =>
    cases pieces with
    | nil => exact .inr ⟨first, List.mem_cons_self, by simpa [join] using h⟩
    | cons second pieces =>
      rw [join, List.intercalate_cons_cons, List.append_assoc, List.mem_append, List.mem_append,
        List.mem_singleton] at h
      rcases h with h | h | h
      · exact .inr ⟨first, List.mem_cons_self, h⟩
      · exact .inl h
      · rcases ih h with h | ⟨piece, hpiece, h⟩
        · exact .inl h
        · exact .inr ⟨piece, List.mem_cons_of_mem _ hpiece, h⟩

theorem split_cases (cs : List Char) :
    (sep ∉ cs ∧ split sep cs = [cs]) ∨
      ∃ piece rest, sep ∉ piece ∧ cs = piece ++ sep :: rest ∧
        split sep cs = piece :: split sep rest := by
  by_cases h : sep ∈ cs
  · obtain ⟨piece, rest, rfl, hpiece⟩ := List.eq_append_cons_of_mem h
    exact .inr ⟨piece, rest, hpiece, rfl, by rw [split_append_cons, split_of_not_mem hpiece]; rfl⟩
  · exact .inl ⟨h, split_of_not_mem h⟩

theorem split_join {pieces : List (List Char)} (h : ∀ piece ∈ pieces, sep ∉ piece) (hne : pieces ≠ []) :
    split sep (join [sep] pieces) = pieces := by
  induction pieces with
  | nil => exact absurd rfl hne
  | cons first pieces ih =>
    obtain ⟨hfirst, hpieces⟩ := List.forall_mem_cons.mp h
    cases pieces with
    | nil => simpa [join] using split_of_not_mem hfirst
    | cons second pieces =>
      have ih := ih hpieces (List.cons_ne_nil _ _)
      rw [join] at ih ⊢
      rw [List.intercalate_cons_cons, List.append_assoc, List.singleton_append, split_append_cons,
        split_of_not_mem hfirst, ih]
      rfl

theorem isBlank_of_mem_words {cs word : List Char} (hword : word ∈ words cs) :
    ∀ c ∈ word, isBlank c = false := by
  intro c hc
  have hpiece := List.mem_of_mem_filter hword
  have hne : c ≠ ' ' := fun h => not_mem_of_mem_split hpiece (h ▸ hc)
  obtain ⟨d, -, hd⟩ := List.mem_map.mp (subset_of_mem_split hpiece hc)
  cases hblank : isBlank d with
  | true =>
    rw [hblank, if_pos rfl] at hd
    exact absurd hd.symm hne
  | false =>
    rw [hblank, if_neg Bool.false_ne_true] at hd
    rwa [← hd]

theorem replace_singleton (old : Char) (new cs : List Char) :
    replace [old] new cs = cs.flatMap fun c => if c = old then new else [c] := by
  rw [replace]
  induction cs with
  | nil => rfl
  | cons c cs ih =>
    rw [List.length_cons, replaceFrom, after?, List.flatMap_cons]
    by_cases hc : c = old
    · simp [hc, after?, ih]
    · simp [hc, Ne.symm hc, ih]

theorem after?_eq_some_iff {head cs rest : List Char} :
    after? head cs = some rest ↔ cs = head ++ rest := by
  induction head generalizing cs with
  | nil => simp [after?]
  | cons h head ih =>
    cases cs with
    | nil => simp [after?]
    | cons c cs =>
      by_cases hc : h = c
      · subst hc
        simpa [after?] using ih
      · simp [after?, hc, Ne.symm hc]

theorem before?_eq_some_iff {tail cs rest : List Char} :
    before? tail cs = some rest ↔ cs = rest ++ tail := by
  rw [before?, Option.map_eq_some_iff]
  constructor
  · rintro ⟨found, hfound, rfl⟩
    rw [after?_eq_some_iff] at hfound
    rw [← List.reverse_inj, hfound]
    simp
  · rintro rfl
    exact ⟨rest.reverse, after?_eq_some_iff.mpr (by simp), List.reverse_reverse rest⟩

theorem eq_append_of_splitAt? {sep cs before rest : List Char}
    (h : splitAt? sep cs = some (before, rest)) : cs = before ++ sep ++ rest := by
  induction cs generalizing before with
  | nil =>
    obtain ⟨behind, hbehind, he⟩ := Option.map_eq_some_iff.mp h
    cases he
    exact after?_eq_some_iff.mp hbehind
  | cons c cs ih =>
    rw [splitAt?] at h
    split at h
    · next behind hbehind =>
      cases h
      exact after?_eq_some_iff.mp hbehind
    · obtain ⟨⟨front, behind⟩, hfound, he⟩ := Option.map_eq_some_iff.mp h
      cases he
      rw [ih hfound]
      rfl

theorem eq_append_of_splitFirst? {sep : Char} {cs before rest : List Char}
    (h : splitFirst? sep cs = some (before, rest)) : cs = before ++ sep :: rest := by
  rw [splitFirst?] at h
  split at h
  · cases h
  · next front c behind hspan =>
    cases h
    rw [List.span_eq_takeWhile_dropWhile, Prod.mk.injEq] at hspan
    obtain ⟨hfront, hbehind⟩ := hspan
    have hcut := List.takeWhile_append_dropWhile (p := fun c => decide (c ≠ sep)) (l := cs)
    have hstop := List.head?_dropWhile_not (fun c => decide (c ≠ sep)) cs
    rw [hbehind, List.head?_cons] at hstop
    rw [← hcut, hfront, hbehind, show c = sep by simpa using hstop]

theorem span_append {p : Char → Bool} {a b : List Char} (ha : ∀ c ∈ a, p c = true)
    (hb : ∀ c ∈ b.head?, p c = false) : (a ++ b).span p = (a, b) := by
  rw [List.span_eq_takeWhile_dropWhile, List.takeWhile_append_of_pos ha,
    List.dropWhile_append_of_pos ha]
  cases b with
  | nil => simp
  | cons c b =>
    have hc : p c = false := hb c rfl
    simp [hc]

theorem splitFirst?_append_cons {a : List Char} (h : sep ∉ a) (b : List Char) :
    splitFirst? sep (a ++ sep :: b) = some (a, b) := by
  have hspan : (a ++ sep :: b).span (· ≠ sep) = (a, sep :: b) := by
    refine span_append (fun c hc => decide_eq_true ?_) (by simp)
    rintro rfl
    exact h hc
  simp only [splitFirst?, hspan]

theorem splitFirst?_of_not_mem {cs : List Char} (h : sep ∉ cs) : splitFirst? sep cs = none := by
  have hspan : (cs ++ []).span (· ≠ sep) = (cs, []) := by
    refine span_append (fun c hc => decide_eq_true ?_) (by simp)
    rintro rfl
    exact h hc
  rw [List.append_nil] at hspan
  simp only [splitFirst?, hspan]

theorem startsWith_iff {head cs : List Char} : startsWith head cs = true ↔ head <+: cs := by
  induction head generalizing cs with
  | nil => simp [startsWith, after?]
  | cons h head ih =>
    cases cs with
    | nil => simp [startsWith, after?]
    | cons c cs =>
      by_cases hc : h = c
      · subst hc
        simpa [startsWith, after?, List.cons_prefix_cons] using ih
      · simp [startsWith, after?, List.cons_prefix_cons, hc]

theorem prefix_append_cons_iff {mark a b : List Char} (h : sep ∉ mark) :
    mark <+: a ++ sep :: b ↔ mark <+: a := by
  constructor
  · intro hmark
    rcases List.prefix_or_prefix_of_prefix hmark (List.prefix_append a _) with hshort | ⟨more, rfl⟩
    · exact hshort
    · rw [List.prefix_append_right_inj] at hmark
      cases more with
      | nil => exact ⟨[], by simp⟩
      | cons c more =>
        rw [List.cons_prefix_cons] at hmark
        exact absurd (by simp [hmark.1]) h
  · exact fun hmark => hmark.trans (List.prefix_append a _)

theorem suffix_append_cons_iff {mark a b : List Char} (h : sep ∉ mark) :
    mark <:+ a ++ sep :: b ↔ mark <:+ b := by
  have hreverse : (a ++ sep :: b).reverse = b.reverse ++ sep :: a.reverse := by simp
  rw [← List.reverse_prefix, hreverse, prefix_append_cons_iff (by simpa using h), List.reverse_prefix]

theorem splitAt?_append {c : Char} {sep before : List Char} (hc : c ∉ sep)
    (h : ¬ (c :: sep) <:+: before) (rest : List Char) :
    splitAt? (c :: sep) (before ++ c :: (sep ++ rest)) = some (before, rest) := by
  induction before with
  | nil =>
    have hfound : after? (c :: sep) (c :: (sep ++ rest)) = some rest := after?_eq_some_iff.mpr rfl
    rw [List.nil_append, splitAt?, hfound]
  | cons d before ih =>
    have hbefore := ih fun hpart => h (hpart.trans (List.suffix_cons d before).isInfix)
    have hnot : after? (c :: sep) (d :: (before ++ c :: (sep ++ rest))) = none := by
      rw [Option.eq_none_iff_forall_ne_some]
      intro behind hbehind
      rw [after?_eq_some_iff, List.cons_append, List.cons.injEq] at hbehind
      have hprefix := (prefix_append_cons_iff hc).mp ⟨behind, hbehind.2.symm⟩
      refine h (List.IsPrefix.isInfix ?_)
      rw [hbehind.1, List.cons_prefix_cons]
      exact ⟨rfl, hprefix⟩
    rw [List.cons_append, splitAt?, hnot, hbefore]
    rfl

theorem dropEndWhile_of_getLast? {p : Char → Bool} {cs : List Char} (h : ∀ c ∈ cs.getLast?, p c = false) :
    dropEndWhile p cs = cs := by
  rw [← List.head?_reverse] at h
  rw [dropEndWhile]
  cases hrev : cs.reverse with
  | nil => rw [List.dropWhile_nil, ← hrev, List.reverse_reverse]
  | cons c rest =>
    have hc := h c (by rw [hrev]; rfl)
    rw [List.dropWhile_cons_of_neg (by simp [hc]), ← hrev, List.reverse_reverse]

theorem trimStart_eq_nil_iff {cs : List Char} : trimStart cs = [] ↔ isBlankLine cs = true := by
  rw [trimStart, List.dropWhile_eq_nil_iff, isBlankLine, List.all_eq_true]

theorem trimStart_append_of_blank {gap : List Char} (h : isBlankLine gap = true) (cs : List Char) :
    trimStart (gap ++ cs) = trimStart cs :=
  List.dropWhile_append_of_pos (List.all_eq_true.mp h)

theorem trim_prefix (cs : List Char) : trim cs <+: trimStart cs :=
  List.rdropWhile_prefix isBlank _

theorem trim_eq_nil_iff {cs : List Char} : trim cs = [] ↔ trimStart cs = [] := by
  constructor
  · intro h
    by_contra hne
    have hblank := List.rdropWhile_eq_nil_iff.mp h _ (List.head_mem hne)
    exact absurd hblank (Bool.eq_false_iff.mp (List.head_dropWhile_not isBlank hne))
  · intro h
    rw [trim, h]
    rfl

theorem trimStart_eq_self_iff {cs : List Char} :
    trimStart cs = cs ↔ ∀ c ∈ cs.head?, isBlank c = false := by
  cases cs with
  | nil => simp [trimStart]
  | cons c cs =>
    rw [trimStart, List.dropWhile_eq_self_iff]
    simp

theorem trimEnd_eq_self_iff {cs : List Char} :
    trimEnd cs = cs ↔ ∀ c ∈ cs.getLast?, isBlank c = false := by
  rw [trimEnd, dropEndWhile, ← List.reverse_inj, List.reverse_reverse, ← List.head?_reverse]
  exact trimStart_eq_self_iff

theorem trim_eq_self_iff {cs : List Char} :
    trim cs = cs ↔ trimStart cs = cs ∧ trimEnd cs = cs := by
  constructor
  · intro h
    have hstart : trimStart cs = cs := by
      have hprefix := List.IsPrefix.length_le ( trim_prefix cs)
      rw [h] at hprefix
      exact (List.dropWhile_suffix isBlank).eq_of_length_le hprefix
    rw [trim, hstart] at h
    exact ⟨hstart, h⟩
  · rintro ⟨hstart, hend⟩
    rw [trim, hstart, hend]

theorem trimStart_trimStart (cs : List Char) : trimStart (trimStart cs) = trimStart cs :=
  List.dropWhile_idempotent isBlank cs

theorem trim_trimStart (cs : List Char) : trim (trimStart cs) = trim cs := by
  rw [trim, trim, trimStart_trimStart]

theorem trim_trim (cs : List Char) : trim (trim cs) = trim cs := by
  rw [trim_eq_self_iff]
  constructor
  · have hstart := trimStart_eq_self_iff.mp (trimStart_trimStart cs)
    obtain ⟨behind, hbehind⟩ := trim_prefix cs
    rw [trimStart_eq_self_iff]
    intro c hc
    apply hstart c
    rw [← hbehind, List.head?_append, hc]
    rfl
  · exact List.rdropWhile_idempotent isBlank _

theorem trim_of_not_blank {cs : List Char} (h : ∀ c ∈ cs, isBlank c = false) : trim cs = cs := by
  rw [trim_eq_self_iff, trimStart_eq_self_iff, trimEnd_eq_self_iff]
  exact ⟨fun c hc => h c (List.mem_of_mem_head? hc), fun c hc => h c (List.mem_of_getLast? hc)⟩

theorem nonEmpty?_eq_self {cs : List Char} (hne : cs ≠ []) (htrim : trim cs = cs) :
    nonEmpty? cs = some cs := by
  obtain ⟨c, rest, rfl⟩ := List.exists_cons_of_ne_nil hne
  rw [nonEmpty?, htrim]

theorem trim_eq_trimEnd_iff {cs : List Char} (h : isBlankLine cs = false) :
    trim cs = trimEnd cs ↔ ∀ c ∈ cs.head?, isBlank c = false := by
  constructor
  · intro heq c hc
    have hne : trimEnd cs ≠ [] := fun hnil => by
      rw [isBlankLine, List.all_eq_true.mpr (List.rdropWhile_eq_nil_iff.mp hnil)] at h
      cases h
    obtain ⟨behind, hbehind⟩ : trimEnd cs <+: cs := List.rdropWhile_prefix isBlank _
    obtain ⟨d, rest, hcons⟩ := List.exists_cons_of_ne_nil hne
    have hd : d = c := by
      rw [← hbehind, hcons] at hc
      exact Option.some.inj hc
    have hstart := trimStart_eq_self_iff.mp (trim_eq_self_iff.mp (trim_trim cs)).1
    exact hstart c (by rw [heq, hcons, hd]; rfl)
  · intro hhead
    rw [trim, trimStart_eq_self_iff.mpr hhead]

theorem length_nonEmpty?_le {cs text : List Char} (h : nonEmpty? cs = some text) :
    text.length ≤ cs.length := by
  rw [nonEmpty?] at h
  split at h
  · cases h
  · obtain rfl := Option.some.inj h
    exact (List.IsPrefix.length_le ( trim_prefix cs)).trans (List.dropWhile_suffix isBlank).length_le

end ApiPages.Text
