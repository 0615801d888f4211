import ApiPages.Proofs.Text.Cutting

/-!
A text and its lines. Lines are put together by a newline behind each of them; behind a newline the
lines of a text are those of the rest.
-/
namespace ApiPages.Text

variable {a b cs line : List Char} {ls ls' : List (List Char)}

def unlines (ls : List (List Char)) : List Char := ls.flatMap (· ++ ['\n'])

theorem unlines_append (ls ls' : List (List Char)) : unlines (ls ++ ls') = unlines ls ++ unlines ls' :=
  List.flatMap_append

theorem unlines_cons (line : List Char) (ls : List (List Char)) :
    unlines (line :: ls) = line ++ '\n' :: unlines ls := by
  simp [unlines]

theorem unlines_eq_join (h : ls ≠ []) : unlines ls = join ['\n'] ls ++ ['\n'] := by
  induction ls with
  | nil => exact absurd rfl h
  | cons line ls ih =>
    cases ls with
    | nil => simp [unlines, join]
    | cons next ls =>
      rw [unlines_cons, ih (List.cons_ne_nil _ _)]
      simp [join, List.intercalate_cons_cons]

theorem unlines_eq_nil_iff : unlines ls = [] ↔ ls = [] := by
  cases ls <;> simp [unlines]

theorem unlines_split (cs : List Char) : unlines (split '\n' cs) = cs ++ ['\n'] := by
  rw [unlines_eq_join (split_ne_nil _ _), join_split]

theorem split_unlines (h : ∀ line ∈ ls, '\n' ∉ line) (rest : List Char) :
    split '\n' (unlines ls ++ rest) = ls ++ split '\n' rest := by
  induction ls with
  | nil => rfl
  | cons line ls ih =>
    rw [List.forall_mem_cons] at h
    rw [unlines_cons, List.append_assoc, List.cons_append, split_append_cons,
      split_of_not_mem h.1, ih h.2]
    rfl

theorem unlines_inj (h : ∀ line ∈ ls, '\n' ∉ line) (h' : ∀ line ∈ ls', '\n' ∉ line)
    (he : unlines ls = unlines ls') : ls = ls' := by
  have hsplit := split_unlines h []
  rw [he, split_unlines h' []] at hsplit
  exact (List.append_cancel_right hsplit).symm

theorem dropReturn_of_not_mem (h : '\r' ∉ line) : dropReturn line = line := by
  rw [dropReturn, before?]
  cases hrev : line.reverse with
  | nil => rfl
  | cons c rest =>
    have hc : '\r' ≠ c := by
      intro he
      apply h
      rw [← List.mem_reverse, hrev, he]
      exact List.mem_cons_self
    simp [after?, hc]

theorem lines_append_newline (a b : List Char) :
    lines (a ++ '\n' :: b) = (split '\n' a).map dropReturn ++ lines b := by
  have hlast : (split '\n' a ++ split '\n' b).getLast? = (split '\n' b).getLast? := by
    rw [List.getLast?_append, List.getLast?_eq_some_getLast (split_ne_nil '\n' b)]
    rfl
  simp only [lines]
  rw [split_append_cons, List.dropLast_append_of_ne_nil (split_ne_nil '\n' b), hlast, List.map_append,
    List.append_assoc]

theorem map_dropReturn (h : ∀ line ∈ ls, '\r' ∉ line) : ls.map dropReturn = ls := by
  calc ls.map dropReturn = ls.map id :=
        List.map_congr_left fun line hline => dropReturn_of_not_mem (h line hline)
    _ = ls := List.map_id ls

theorem lines_newline (h : '\r' ∉ a) (b : List Char) :
    lines (a ++ '\n' :: b) = split '\n' a ++ lines b := by
  rw [lines_append_newline, map_dropReturn fun line hline hmem => h (subset_of_mem_split hline hmem)]

theorem split_eq_lines (h : '\r' ∉ cs) :
    split '\n' cs = lines cs ∨ split '\n' cs = lines cs ++ [[]] := by
  obtain ⟨front, last, hpieces⟩ : ∃ front last, split '\n' cs = front ++ [last] :=
    ⟨_, _, (List.dropLast_concat_getLast (split_ne_nil '\n' cs)).symm⟩
  have hfront : front.map dropReturn = front := by
    apply map_dropReturn
    intro line hline hmem
    have hpiece : line ∈ split '\n' cs := by
      rw [hpieces]
      exact List.mem_append_left _ hline
    exact h (subset_of_mem_split hpiece hmem)
  simp only [lines]
  rw [hpieces, List.dropLast_concat, List.getLast?_concat, hfront]
  by_cases hlast : last = []
  · right
    simp [hlast]
  · left
    simp [Option.filter_some, hlast]

theorem not_mem_of_mem_lines (h : '\r' ∉ cs) (hline : line ∈ lines cs) : '\n' ∉ line ∧ '\r' ∉ line := by
  have hmem : line ∈ split '\n' cs := by
    rcases split_eq_lines h with hsplit | hsplit
    · rwa [hsplit]
    · rw [hsplit]
      exact List.mem_append_left _ hline
  exact ⟨not_mem_of_mem_split hmem, fun hreturn => h (subset_of_mem_split hmem hreturn)⟩

theorem exists_last_line (htrim : trimEnd cs = cs) (hne : cs ≠ []) :
    ∃ front last, split '\n' cs = front ++ [last] ∧ isBlankLine last = false := by
  obtain ⟨front, last, hpieces⟩ : ∃ front last, split '\n' cs = front ++ [last] :=
    ⟨_, _, (List.dropLast_concat_getLast (split_ne_nil '\n' cs)).symm⟩
  refine ⟨front, last, hpieces, ?_⟩
  have hcs : unlines front ++ last = cs := by
    have hunlines := unlines_split cs
    rw [hpieces, unlines_append, unlines_cons, ← List.append_assoc] at hunlines
    exact List.append_cancel_right hunlines
  have hends := trimEnd_eq_self_iff.mp htrim
  by_contra hblank
  rw [Bool.not_eq_false] at hblank
  cases hlast : last.getLast? with
  | some c =>
    have hc : isBlank c = true := List.all_eq_true.mp hblank c (List.mem_of_getLast? hlast)
    rw [hends c (by rw [← hcs, List.getLast?_append, hlast]; rfl)] at hc
    cases hc
  | none =>
    -- The text ends in a newline.
    cases List.getLast?_eq_none_iff.mp hlast
    rw [List.append_nil] at hcs
    have hfront : front ≠ [] := fun hnil => hne (by rw [← hcs, hnil]; rfl)
    obtain ⟨lines, line, rfl⟩ : ∃ lines line, front = lines ++ [line] :=
      ⟨_, _, (List.dropLast_concat_getLast hfront).symm⟩
    have hnewline := hends '\n' (by rw [← hcs, unlines_append]; simp [unlines])
    cases hnewline

theorem lines_unlines (h : ∀ line ∈ ls, '\n' ∉ line ∧ '\r' ∉ line) (rest : List Char) :
    lines (unlines ls ++ rest) = ls ++ lines rest := by
  induction ls with
  | nil => rfl
  | cons line ls ih =>
    obtain ⟨⟨hnewline, hreturn⟩, hls⟩ := List.forall_mem_cons.mp h
    rw [unlines_cons, List.append_assoc, List.cons_append, lines_newline hreturn,
      split_of_not_mem hnewline, ih hls]
    rfl

theorem exists_first_line {c : Char} (hc : isBlank c = false) (cs : List Char) :
    ∃ line more, split '\n' (c :: cs) = (c :: line) :: more := by
  obtain ⟨line, more, hsplit⟩ := List.exists_cons_of_ne_nil (split_ne_nil '\n' cs)
  have hne : c ≠ '\n' := by
    rintro rfl
    cases hc
  exact ⟨line, more, split_cons_of_ne hne hsplit⟩

theorem exists_indent (h : ∀ line ∈ (split '\n' cs).head?, isBlankLine line = false) :
    ∃ indent c rest, cs = indent ++ c :: rest ∧ (∀ d ∈ indent, isBlank d = true ∧ d ≠ '\n') ∧
      isBlank c = false := by
  obtain ⟨line, rest, hline, rfl, hblank⟩ : ∃ line rest, '\n' ∉ line ∧ cs = line ++ rest ∧
      isBlankLine line = false := by
    rcases @split_cases '\n' cs with ⟨hmem, hsplit⟩ | ⟨line, rest, hmem, rfl, hsplit⟩
    · exact ⟨cs, [], hmem, (List.append_nil cs).symm, h cs (by rw [hsplit]; rfl)⟩
    · exact ⟨line, _, hmem, rfl, h line (by rw [hsplit]; rfl)⟩
  have hne : line.dropWhile isBlank ≠ [] := by
    intro hnil
    rw [isBlankLine, List.all_eq_true.mpr (List.dropWhile_eq_nil_iff.mp hnil)] at hblank
    cases hblank
  obtain ⟨c, behind, hcons⟩ := List.exists_cons_of_ne_nil hne
  refine ⟨line.takeWhile isBlank, c, behind ++ rest, ?_, fun d hd => ⟨?_, ?_⟩, ?_⟩
  · rw [← List.cons_append, ← hcons, ← List.append_assoc, List.takeWhile_append_dropWhile]
  · exact List.mem_takeWhile_imp hd
  · rintro rfl
    exact hline ((List.takeWhile_sublist _).subset hd)
  · have hhead := List.head_dropWhile_not isBlank hne
    simpa [hcons] using hhead

theorem map_trimEnd (h : ∀ line ∈ ls, trimEnd line = line) : ls.map trimEnd = ls :=
  (List.map_congr_left h).trans (List.map_id ls)

theorem trimEnd_concat {c : Char} (h : isBlank c = true) (cs : List Char) :
    trimEnd (cs ++ [c]) = trimEnd cs := by
  simp [trimEnd, dropEndWhile, h]

theorem trimEnd_append (hne : line ≠ []) (htrim : trimEnd line = line) (cs : List Char) :
    trimEnd (cs ++ line) = cs ++ line := by
  rw [trimEnd_eq_self_iff] at htrim ⊢
  rw [List.getLast?_append, List.getLast?_eq_some_getLast hne]
  rwa [List.getLast?_eq_some_getLast hne] at htrim

theorem trimEnd_join (hne : line ≠ []) (htrim : trimEnd line = line) (ls : List (List Char)) :
    trimEnd (join ['\n'] (ls ++ [line])) = join ['\n'] (ls ++ [line]) := by
  cases ls with
  | nil => simpa [join] using htrim
  | cons first ls =>
    rw [join_concat (List.cons_ne_nil _ _), List.append_cons]
    exact trimEnd_append hne htrim _

theorem trimBlankLines_append {lead : List Char} (hlead : ∀ d ∈ lead, d = '\n')
    (h : ∀ line ∈ (split '\n' cs).head?, isBlankLine line = false) :
    trimBlankLines (lead ++ cs) = trimEnd cs := by
  obtain ⟨indent, c, rest, rfl, hindent, hc⟩ := exists_indent h
  have hblank : ∀ d ∈ lead ++ indent, isBlank d = true := by
    intro d hd
    rcases List.mem_append.mp hd with hd | hd
    · rw [hlead d hd]
      rfl
    · exact (hindent d hd).1
  have hspan : (lead ++ (indent ++ c :: rest)).span isBlank = (lead ++ indent, c :: rest) := by
    rw [List.span_eq_takeWhile_dropWhile, ← List.append_assoc,
      List.takeWhile_append_of_pos hblank, List.dropWhile_append_of_pos hblank,
      List.takeWhile_cons_of_neg (by simp [hc]), List.dropWhile_cons_of_neg (by simp [hc]),
      List.append_nil]
  have hkept : (lead ++ indent).reverse.takeWhile (· ≠ '\n') = indent.reverse := by
    have hnone : lead.reverse.takeWhile (· ≠ '\n') = [] := by
      cases hreverse : lead.reverse with
      | nil => rfl
      | cons d ds =>
        have hd : d = '\n' := hlead d (by rw [← List.mem_reverse, hreverse]; exact List.mem_cons_self)
        simp [hd]
    rw [List.reverse_append, List.takeWhile_append_of_pos (by simpa using fun d hd => (hindent d hd).2),
      hnone, List.append_nil]
  rw [trimBlankLines, hspan]
  simp only [hkept, List.reverse_reverse]

def IsFramed (ls : List (List Char)) : Prop :=
  (∀ line ∈ ls.head?, isBlankLine line = false) ∧ ∀ line ∈ ls.getLast?, isBlankLine line = false

theorem IsFramed.append (h : IsFramed ls) (hmore : IsFramed ls') :
    IsFramed (ls ++ ls') := by
  constructor
  · intro line hline
    rw [List.head?_append, Option.mem_def, Option.or_eq_some_iff] at hline
    rcases hline with hline | ⟨-, hline⟩
    · exact h.1 line hline
    · exact hmore.1 line hline
  · intro line hline
    rw [List.getLast?_append, Option.mem_def, Option.or_eq_some_iff] at hline
    rcases hline with hline | ⟨-, hline⟩
    · exact hmore.2 line hline
    · exact h.2 line hline

theorem isFramed_nil : IsFramed [] := ⟨by simp, by simp⟩

theorem isFramed_cons (hline : isBlankLine line = false)
    (hlast : ∀ last ∈ ls.getLast?, isBlankLine last = false) : IsFramed (line :: ls) := by
  constructor
  · intro first hfirst
    obtain rfl := Option.some.inj hfirst
    exact hline
  · intro last hends
    rw [List.getLast?_cons] at hends
    obtain rfl := Option.some.inj hends
    cases hmore : ls.getLast? with
    | none => exact hline
    | some last => exact hlast last hmore

theorem isFramed_split (hne : cs ≠ []) (htrim : trim cs = cs) : IsFramed (split '\n' cs) := by
  obtain ⟨hstart, hend⟩ := trim_eq_self_iff.mp htrim
  obtain ⟨front, last, hsplit, hlast⟩ := exists_last_line hend hne
  obtain ⟨c, rest, rfl⟩ := List.exists_cons_of_ne_nil hne
  have hc : isBlank c = false := trimStart_eq_self_iff.mp hstart c rfl
  obtain ⟨line, more, hfirst⟩ := exists_first_line hc rest
  constructor
  · rw [hfirst]
    intro first hmem
    obtain rfl := Option.some.inj hmem
    simp [isBlankLine, hc]
  · rw [hsplit]
    intro line' hmem
    rw [List.getLast?_concat] at hmem
    obtain rfl := Option.some.inj hmem
    exact hlast

theorem trimBlankLines_unlines (hframed : IsFramed ls)
    (hnewline : ∀ line ∈ ls, '\n' ∉ line) (htrimmed : ∀ line ∈ ls, trimEnd line = line) :
    trimBlankLines ('\n' :: unlines ls) = join ['\n'] ls := by
  cases ls using List.reverseRecOn with
  | nil => rfl
  | append_singleton front last =>
    have hne : front ++ [last] ≠ [] := by simp
    have hlast : last ≠ [] := by
      rintro rfl
      have hblank := hframed.2 [] (by simp)
      cases hblank
    have hfirst : ∀ line ∈ (split '\n' (join ['\n'] (front ++ [last]) ++ ['\n'])).head?,
        isBlankLine line = false := by
      obtain ⟨first, more, hcons⟩ := List.exists_cons_of_ne_nil hne
      rw [split_append_cons, split_join hnewline hne, hcons]
      intro line hline
      obtain rfl := Option.some.inj hline
      exact hframed.1 first (by rw [hcons]; rfl)
    rw [unlines_eq_join hne]
    calc trimBlankLines (['\n'] ++ (join ['\n'] (front ++ [last]) ++ ['\n'])) =
          trimEnd (join ['\n'] (front ++ [last]) ++ ['\n']) :=
            trimBlankLines_append (by simp) hfirst
      _ = join ['\n'] (front ++ [last]) := by
            rw [trimEnd_concat rfl, trimEnd_join hlast (htrimmed last (by simp))]

theorem lines_join (hframed : IsFramed ls)
    (h : ∀ line ∈ ls, '\n' ∉ line ∧ '\r' ∉ line) : lines (join ['\n'] ls) = ls := by
  by_cases hne : ls = []
  · rw [hne]
    rfl
  · have hreturn : '\r' ∉ join ['\n'] ls := by
      intro hmem
      rcases eq_or_mem_of_mem_join hmem with hnewline | ⟨line, hline, hmem⟩
      · cases hnewline
      · exact (h line hline).2 hmem
    rcases split_eq_lines hreturn with hsplit | hsplit
    · rw [← hsplit, split_join (fun line hline => (h line hline).1) hne]
    · rw [split_join (fun line hline => (h line hline).1) hne] at hsplit
      have hblank := hframed.2 [] (by rw [hsplit]; simp)
      cases hblank

end ApiPages.Text
