import ApiPages.Proofs.Blocks

/-!
What the last pass does to blank lines. Only the fence that a run of blank lines stands in and the
lines on its two sides decide what is kept of it, and these are the same again in what was kept. Main
statement: the lines that are not blank stay as they are, every run between two of them becomes what
its place says, and a second pass changes nothing.
-/
namespace ApiPages.Tidy

variable {fenced indented : Bool} {last : Option (List Char)} {line first second : List Char}
  {lines blanks rest : List (List Char)} {text : List Char}

def filled (lines : List (List Char)) : List (List Char) :=
  lines.filter fun line => !Text.isBlankLine line

theorem filled_append (lines rest : List (List Char)) :
    filled (lines ++ rest) = filled lines ++ filled rest :=
  List.filter_append lines rest

theorem filled_cons_of_blank (h : Text.isBlankLine line = true) :
    filled (line :: lines) = filled lines := by
  rw [filled, List.filter_cons_of_neg (by simp [h])]
  rfl

theorem filled_cons_of_not_blank (h : Text.isBlankLine line = false) :
    filled (line :: lines) = line :: filled lines := by
  rw [filled, List.filter_cons_of_pos (by simp [h])]
  rfl

theorem filled_eq_nil_iff : filled lines = [] ↔ ∀ line ∈ lines, Text.isBlankLine line = true := by
  simp [filled]

theorem nextIndented_eq (lines : List (List Char)) :
    nextIndented lines = (filled lines).head?.any isIndented := by
  induction lines with
  | nil => rfl
  | cons line lines ih =>
    cases hblank : Text.isBlankLine line with
    | true => rw [nextIndented_cons_of_blank hblank, filled_cons_of_blank hblank, ih]
    | false =>
      rw [nextIndented_cons_of_not_blank hblank, filled_cons_of_not_blank hblank]
      rfl

theorem nextIndented_blanks (h : ∀ line ∈ blanks, Text.isBlankLine line = true) :
    nextIndented (blanks ++ rest) = nextIndented rest := by
  rw [nextIndented_eq, nextIndented_eq, filled_append, filled_eq_nil_iff.mpr h, List.nil_append]

theorem keep_cons_of_kept (h : ¬ (Text.isBlankLine line && !(fenced != isFence line)) = true) :
    keep fenced indented last (line :: rest) =
      line :: keep (fenced != isFence line) (isIndented line) (some line) rest := by
  rw [keep]
  exact if_neg h

theorem fenced_eq_false (h : (Text.isBlankLine line && !(fenced != isFence line)) = true) :
    Text.isBlankLine line = true ∧ fenced = false := by
  obtain ⟨hblank, hopen⟩ := Bool.and_eq_true_iff.mp h
  rw [isFence_eq_false hblank, Bool.bne_false] at hopen
  exact ⟨hblank, by simpa using hopen⟩

theorem filled_keep (fenced indented : Bool) (last : Option (List Char))
    (lines : List (List Char)) : filled (keep fenced indented last lines) = filled lines := by
  induction lines generalizing fenced indented last with
  | nil => rfl
  | cons line lines ih =>
    by_cases h : (Text.isBlankLine line && !(fenced != isFence line)) = true
    · obtain ⟨hblank, rfl⟩ := fenced_eq_false h
      rw [keep_of_blank hblank, filled_cons_of_blank hblank]
      split
      · apply ih
      · rw [filled_cons_of_blank rfl]
        apply ih
    · rw [keep_cons_of_kept h, ← List.singleton_append, filled_append, ih, ← filled_append]
      rfl

/-- What the pass keeps is kept again: a line that stays finds the same fence, the same line behind
it and the same line before it. -/
theorem keep_keep (fenced indented : Bool) (last : Option (List Char))
    (lines : List (List Char)) :
    keep fenced indented last (keep fenced indented last lines) =
      keep fenced indented last lines := by
  induction lines generalizing fenced indented last with
  | nil => rfl
  | cons line lines ih =>
    by_cases h : (Text.isBlankLine line && !(fenced != isFence line)) = true
    · obtain ⟨hblank, rfl⟩ := fenced_eq_false h
      rw [keep_of_blank hblank]
      split
      · apply ih
      · rename_i hkept
        have hnext : nextIndented (keep false indented (some []) lines) = nextIndented lines := by
          rw [nextIndented_eq, filled_keep, ← nextIndented_eq]
        rw [keep_of_blank rfl, hnext, if_neg hkept, ih]
    · rw [keep_cons_of_kept h, keep_cons_of_kept h, ih]

def gap (fenced inCode : Bool) (blanks : List (List Char)) : List (List Char) :=
  if fenced then blanks
  else if inCode then blanks.map fun _ => []
  else (blanks.map fun _ => []).take 1

theorem keep_blanks_fenced (h : ∀ line ∈ blanks, Text.isBlankLine line = true) (indented : Bool)
    (last : Option (List Char)) :
    ∃ indented' last', keep true indented last (blanks ++ rest) =
      blanks ++ keep true indented' last' rest := by
  induction blanks generalizing indented last with
  | nil => exact ⟨indented, last, rfl⟩
  | cons line blanks ih =>
    rw [List.forall_mem_cons] at h
    obtain ⟨indented', last', hkeep⟩ := ih h.2 (isIndented line) (some line)
    refine ⟨indented', last', ?_⟩
    rw [List.cons_append, keep_of_fenced (by rw [isFence_eq_false h.1]; rfl), hkeep]
    rfl

theorem keep_blanks_inCode (h : ∀ line ∈ blanks, Text.isBlankLine line = true)
    (hnext : nextIndented rest = true) (last : Option (List Char)) :
    ∃ last', keep false true last (blanks ++ rest) =
      (blanks.map fun _ => []) ++ keep false true last' rest := by
  induction blanks generalizing last with
  | nil => exact ⟨last, rfl⟩
  | cons line blanks ih =>
    rw [List.forall_mem_cons] at h
    obtain ⟨last', hkeep⟩ := ih h.2 (some [])
    refine ⟨last', ?_⟩
    rw [List.cons_append, keep_of_blank h.1, nextIndented_blanks h.2, hnext, if_neg (by simp), hkeep]
    rfl

theorem keep_blanks_dropped (h : ∀ line ∈ blanks, Text.isBlankLine line = true)
    (hcode : (indented && nextIndented rest) = false) (hlast : last.all (· == []) = true) :
    keep false indented last (blanks ++ rest) = keep false indented last rest := by
  induction blanks with
  | nil => rfl
  | cons line blanks ih =>
    rw [List.forall_mem_cons] at h
    rw [List.cons_append, keep_of_blank h.1, nextIndented_blanks h.2, hcode, hlast,
      if_pos (by simp), ih h.2]

theorem keep_blanks (hfirst : Text.isBlankLine first = false)
    (h : ∀ line ∈ blanks, Text.isBlankLine line = true) (fenced : Bool) (rest : List (List Char)) :
    ∃ indented' last', keep fenced (isIndented first) (some first) (blanks ++ rest) =
      gap fenced (isIndented first && nextIndented rest) blanks ++
        keep fenced indented' last' rest := by
  cases fenced with
  | true => exact keep_blanks_fenced h _ _
  | false =>
    cases hcode : isIndented first && nextIndented rest with
    | true =>
      obtain ⟨hindented, hnext⟩ := Bool.and_eq_true_iff.mp hcode
      rw [hindented]
      exact ⟨true, keep_blanks_inCode h hnext _⟩
    | false =>
      -- The first blank line of the run is the one that stays.
      cases blanks with
      | nil => exact ⟨_, _, rfl⟩
      | cons line blanks =>
        rw [List.forall_mem_cons] at h
        have hne : (some first).all (· == []) = false := by
          cases first with
          | nil => cases hfirst
          | cons c cs => rfl
        refine ⟨isIndented first, some [], ?_⟩
        rw [List.cons_append, keep_of_blank h.1, nextIndented_blanks h.2, hcode, hne, if_neg (by simp),
          keep_blanks_dropped h.2 hcode rfl]
        rfl

def fenceOpen (lines : List (List Char)) : Bool := lines.countP isFence % 2 = 1

theorem keep_down_to (hfirst : Text.isBlankLine first = false) (before rest : List (List Char)) :
    ∃ front, filled front = filled before ∧ keep false false none (before ++ first :: rest) =
      front ++ first :: keep (fenceOpen (before ++ [first])) (isIndented first) (some first) rest := by
  obtain ⟨front, indented, last, -, hkeep⟩ := exists_keep_append false false none before (first :: rest)
  have hfence : (fencedAfter false before != isFence first) = fenceOpen (before ++ [first]) := by
    have hafter := fencedAfter_append false before [first]
    rw [fencedAfter_eq, Bool.false_bne] at hafter
    exact hafter.symm
  rw [keep_of_not_blank hfirst, hfence] at hkeep
  refine ⟨front, ?_, hkeep⟩
  have hfilled := congrArg filled hkeep
  rw [filled_keep, filled_append, filled_append, filled_cons_of_not_blank hfirst,
    filled_cons_of_not_blank hfirst, filled_keep] at hfilled
  exact (List.append_cancel_right hfilled).symm

theorem exists_trimmed (lines : List (List Char)) :
    ∃ ending, lines = trimmed lines ++ ending ∧ ∀ line ∈ ending, line = [] := by
  refine ⟨lines.rtakeWhile (· == []), ?_, fun line hline => ?_⟩
  · exact List.rdropWhile_append_rtakeWhile.symm
  · simpa using List.mem_rtakeWhile_imp hline

theorem trimmed_of_empty (h : ∀ line ∈ lines, line = []) : trimmed lines = [] := by
  apply List.rdropWhile_eq_nil_iff.mpr
  simpa using h

theorem trimmed_cons_of_not_blank (h : Text.isBlankLine first = false) (lines : List (List Char)) :
    trimmed (first :: lines) = first :: trimmed lines := by
  have hlast : [first].getLast? ≠ some [] := by
    rintro ⟨rfl⟩
    cases h
  exact trimmed_append_of_last hlast lines

theorem trimmed_append_not_blank (h : Text.isBlankLine first = false)
    (lines rest : List (List Char)) :
    trimmed (lines ++ first :: rest) = lines ++ first :: trimmed rest := by
  rw [trimmed_append, trimmed_cons_of_not_blank h, if_neg (List.cons_ne_nil _ _)]

theorem filled_trimmed (lines : List (List Char)) : filled (trimmed lines) = filled lines := by
  obtain ⟨ending, hlines, hempty⟩ := exists_trimmed lines
  have hending : filled ending = [] := by
    apply filled_eq_nil_iff.mpr
    intro line hline
    rw [hempty line hline]
    rfl
  conv_rhs => rw [hlines, filled_append, hending, List.append_nil]

theorem trimmed_gap (fenced : Bool) (blanks : List (List Char)) :
    trimmed (gap fenced false blanks) = if fenced then trimmed blanks else [] := by
  cases fenced with
  | true => rfl
  | false =>
    apply trimmed_of_empty
    intro line hline
    obtain ⟨blank, -, rfl⟩ := List.mem_map.mp (List.mem_of_mem_take hline)
    rfl

theorem trimmed_keep_trimmed (hkeep : keep false false none lines = lines) :
    trimmed (keep false false none (trimmed lines)) = trimmed lines := by
  obtain ⟨ending, hlines, hempty⟩ := exists_trimmed lines
  have hnext : nextIndented ending = nextIndented [] := by
    rw [nextIndented_eq, filled_eq_nil_iff.mpr fun line hline => by rw [hempty line hline]; rfl]
    rfl
  obtain ⟨kept, indented, last, -, hwhole, htrimmed⟩ :=
    keep_append hnext false false none (trimmed lines)
  rw [← hlines, hkeep] at hwhole
  rw [List.append_nil] at htrimmed
  have hdropped : trimmed (keep (fencedAfter false (trimmed lines)) indented last ending) = [] := by
    apply trimmed_of_empty
    intro line hline
    rcases mem_keep hline with hline | hline
    · exact hempty line hline
    · exact hline
  conv_rhs => rw [hwhole, trimmed_append, if_pos hdropped]
  rw [htrimmed]
  exact congrArg trimmed (List.append_nil kept)

theorem lines_tidy (hreturn : '\r' ∉ text) :
    Text.lines (tidy text) = trimmed (keep false false none (Text.lines text)) := by
  have hplain : ∀ line ∈ trimmed (keep false false none (Text.lines text)),
      '\n' ∉ line ∧ '\r' ∉ line := by
    intro line hline
    have hmem := (List.rdropWhile_prefix (· == []) _).subset hline
    rcases mem_keep hmem with hmem | rfl
    · exact Text.not_mem_of_mem_lines hreturn hmem
    · exact ⟨List.not_mem_nil, List.not_mem_nil⟩
  have hlines := Text.lines_unlines hplain []
  rw [List.append_nil, ← tidy_eq] at hlines
  exact hlines.trans (List.append_nil _)

theorem head_keep (lines : List (List Char)) :
    ∀ line ∈ (keep false false none lines).head?, Text.isBlankLine line = false := by
  induction lines with
  | nil => simp [keep]
  | cons line lines ih =>
    cases hblank : Text.isBlankLine line with
    | true =>
      rw [keep_top_blank hblank]
      exact ih
    | false =>
      rw [keep_of_not_blank hblank]
      simp [hblank]

theorem head_trimmed (lines : List (List Char)) :
    ∀ line ∈ (trimmed (keep false false none lines)).head?, Text.isBlankLine line = false := by
  intro line hline
  obtain ⟨ending, hlines, -⟩ := exists_trimmed (keep false false none lines)
  apply head_keep lines
  rw [hlines, List.head?_append, hline]
  rfl

theorem trimmed_eq_nil_iff :
    trimmed (keep false false none lines) = [] ↔ ∀ line ∈ lines, Text.isBlankLine line = true := by
  have hfilled : filled (trimmed (keep false false none lines)) = filled lines := by
    rw [filled_trimmed, filled_keep]
  rw [← filled_eq_nil_iff, ← hfilled]
  constructor
  · intro h
    rw [h]
    rfl
  · intro h
    rw [← List.head?_eq_none_iff, Option.eq_none_iff_forall_ne_some]
    intro line hline
    have hblank := filled_eq_nil_iff.mp h line (List.mem_of_head? hline)
    rw [head_trimmed lines line hline] at hblank
    cases hblank

theorem between_kept (hfirst : Text.isBlankLine first = false)
    (hblanks : ∀ line ∈ blanks, Text.isBlankLine line = true)
    (hsecond : Text.isBlankLine second = false) (before after : List (List Char)) :
    ∃ front back, filled front = filled before ∧ filled back = filled after ∧
      trimmed (keep false false none (before ++ first :: (blanks ++ second :: after))) =
        front ++ first ::
          (gap (fenceOpen (before ++ [first])) (isIndented first && isIndented second) blanks ++
            second :: back) := by
  obtain ⟨front, hfront, hdown⟩ := keep_down_to hfirst before (blanks ++ second :: after)
  obtain ⟨indented, last, hgap⟩ :=
    keep_blanks hfirst hblanks (fenceOpen (before ++ [first])) (second :: after)
  rw [nextIndented_cons_of_not_blank hsecond, keep_of_not_blank hsecond] at hgap
  rw [hdown, hgap, trimmed_append_not_blank hfirst, trimmed_append_not_blank hsecond]
  refine ⟨front, _, hfront, ?_, rfl⟩
  rw [filled_trimmed, filled_keep]

theorem behind_kept (hfirst : Text.isBlankLine first = false)
    (hblanks : ∀ line ∈ blanks, Text.isBlankLine line = true) (before : List (List Char)) :
    ∃ front, filled front = filled before ∧
      trimmed (keep false false none (before ++ first :: blanks)) =
        front ++ first :: if fenceOpen (before ++ [first]) then trimmed blanks else [] := by
  obtain ⟨front, hfront, hdown⟩ := keep_down_to hfirst before blanks
  obtain ⟨indented, last, hgap⟩ :=
    keep_blanks hfirst hblanks (fenceOpen (before ++ [first])) []
  have hnone : nextIndented [] = false := rfl
  rw [hnone, Bool.and_false, List.append_nil, keep, List.append_nil] at hgap
  refine ⟨front, hfront, ?_⟩
  rw [hdown, hgap, trimmed_append_not_blank hfirst, trimmed_gap]

/-- The pass changes blank lines only, each run of them by its place, and changes nothing twice. -/
theorem tidy_changes_blank_lines (text : List Char) (hreturn : '\r' ∉ text) :
    filled (Text.lines (tidy text)) = filled (Text.lines text) ∧
      (∀ before first blanks second after,
        Text.lines text = before ++ first :: (blanks ++ second :: after) →
        Text.isBlankLine first = false → (∀ line ∈ blanks, Text.isBlankLine line = true) →
        Text.isBlankLine second = false →
          ∃ front back, filled front = filled before ∧ filled back = filled after ∧
            Text.lines (tidy text) = front ++ first ::
              (gap (fenceOpen (before ++ [first])) (isIndented first && isIndented second) blanks ++
                second :: back)) ∧
      (∀ line ∈ (Text.lines (tidy text)).head?, Text.isBlankLine line = false) ∧
      (∀ before final blanks, Text.lines text = before ++ final :: blanks →
        Text.isBlankLine final = false → (∀ line ∈ blanks, Text.isBlankLine line = true) →
          ∃ front, filled front = filled before ∧ tidy text = Text.unlines (front ++ final ::
            if fenceOpen (before ++ [final]) then trimmed blanks else [])) ∧
      (tidy text = [] ↔ ∀ line ∈ Text.lines text, Text.isBlankLine line = true) ∧
      tidy (tidy text) = tidy text := by
  refine ⟨?_, ?_, ?_, ?_, ?_, ?_⟩
  · rw [lines_tidy hreturn, filled_trimmed, filled_keep]
  · intro before first blanks second after hlines hfirst hblanks hsecond
    rw [lines_tidy hreturn, hlines]
    exact between_kept hfirst hblanks hsecond before after
  · rw [lines_tidy hreturn]
    apply head_trimmed
  · intro before final blanks hlines hfinal hblanks
    obtain ⟨front, hfront, hkept⟩ := behind_kept hfinal hblanks before
    refine ⟨front, hfront, ?_⟩
    rw [tidy_eq, hlines, hkept]
  · rw [tidy_eq, Text.unlines_eq_nil_iff]
    exact trimmed_eq_nil_iff
  · rw [tidy_eq (tidy text), lines_tidy hreturn, trimmed_keep_trimmed (keep_keep _ _ _ _), ← tidy_eq]

def openFence : List Char :=
  "\n# A\n \n\n    a ()\n\n  \n    b ()\n\x60\x60\x60js\n\n  \nc ()\n \n\n".toList

theorem tidy_changes_blank_lines_openFence :
    '\r' ∉ openFence ∧
      (∃ front back, filled front = ["# A".toList] ∧
        filled back = ["\x60\x60\x60js".toList, "c ()".toList] ∧
        Text.lines (tidy openFence) =
          front ++ "    a ()".toList :: ([[], []] ++ "    b ()".toList :: back)) ∧
      (∃ front, tidy openFence = Text.unlines (front ++ "c ()".toList :: [" ".toList])) ∧
      tidy (tidy openFence) = tidy openFence := by
  have hreturn : '\r' ∉ openFence := by decide
  obtain ⟨-, hbetween, -, hbehind, -, htwice⟩ := tidy_changes_blank_lines openFence hreturn
  refine ⟨hreturn, ?_, ?_, htwice⟩
  · exact hbetween [[], "# A".toList, " ".toList, []] "    a ()".toList [[], "  ".toList]
      "    b ()".toList ["\x60\x60\x60js".toList, [], "  ".toList, "c ()".toList, " ".toList, []]
      (by decide) (by decide) (by decide) (by decide)
  · obtain ⟨front, -, hfront⟩ := hbehind
      [[], "# A".toList, " ".toList, [], "    a ()".toList, [], "  ".toList, "    b ()".toList,
        "\x60\x60\x60js".toList, [], "  ".toList] "c ()".toList [" ".toList, []]
      (by decide) (by decide) (by decide)
    exact ⟨front, hfront⟩

end ApiPages.Tidy
