import ApiPages.Proofs.Tidy
import ApiPages.Template.Filter
import Mathlib.Algebra.Ring.Parity

/-!
Blocks on a page: texts that stand between others, set off by newlines. A block is left alone by the
last pass wherever it stands, and leaves alone what follows, exactly if it closes its fences and is
left alone when it stands alone. Main statement: the blocks that example code is laid out as.
-/
namespace ApiPages.Tidy

variable {before block after : List Char} {lines rest : List (List Char)}

theorem trimmed_append (lines rest : List (List Char)) :
    trimmed (lines ++ rest) = if trimmed rest = [] then trimmed lines else lines ++ trimmed rest := by
  simp only [trimmed, List.rdropWhile, List.reverse_append, List.dropWhile_append,
    List.reverse_eq_nil_iff, List.isEmpty_iff]
  split <;> simp

theorem trimmed_eq_self_iff : trimmed lines = lines ↔ lines.getLast? ≠ some [] := by
  rw [trimmed, List.rdropWhile_eq_self_iff]
  constructor
  · intro h hlast
    obtain ⟨front, rfl⟩ := List.getLast?_eq_some_iff.mp hlast
    exact h (by simp) (by simp)
  · intro h hne hlast
    apply h
    rw [List.getLast?_eq_some_getLast hne, beq_iff_eq.mp hlast]

theorem trimmed_append_of_last (h : lines.getLast? ≠ some []) (rest : List (List Char)) :
    trimmed (lines ++ rest) = lines ++ trimmed rest := by
  rw [trimmed_append]
  split
  · next hnil => rw [trimmed_eq_self_iff.mpr h, hnil, List.append_nil]
  · rfl

theorem trimmed_eq_self_of_length
    (h : (Text.unlines lines).length ≤ (Text.unlines (trimmed lines)).length) :
    trimmed lines = lines := by
  obtain ⟨ending, hending⟩ := List.rdropWhile_prefix (· == []) lines
  rw [← trimmed] at hending
  cases ending with
  | nil => simpa using hending
  | cons line more =>
    rw [← congrArg Text.unlines hending, Text.unlines_append, Text.unlines_cons] at h
    simp only [List.length_append, List.length_cons] at h
    omega

/-- Lines that the pass leaves alone on top of a page, and that close every fence they open. -/
structure Closed (lines : List (List Char)) : Prop where
  kept : keep false false none lines = lines
  fences : fencedAfter false lines = false
  filled : lines ≠ []
  last : lines.getLast? ≠ some []

theorem Closed.head (h : Closed lines) :
    ∃ line more, lines = line :: more ∧ Text.isBlankLine line = false := by
  obtain ⟨line, more, rfl⟩ := List.exists_cons_of_ne_nil h.filled
  refine ⟨line, more, rfl, ?_⟩
  by_contra hblank
  have hkept := h.kept
  have hlength := length_keep_le false false none more
  rw [keep_top_blank (Bool.not_eq_false _ ▸ hblank)] at hkept
  rw [hkept, Text.unlines_cons, List.length_append, List.length_cons] at hlength
  omega

theorem Closed.keep (h : Closed lines) (hrest : nextIndented rest = false) (indented : Bool)
    (last : Option (List Char)) :
    keep false indented last (lines ++ [] :: rest) = lines ++ [] :: keep false false none rest := by
  have hstart : Tidy.keep false indented last (lines ++ [] :: rest) =
      Tidy.keep false false none (lines ++ [] :: rest) := by
    obtain ⟨line, more, rfl, hblank⟩ := h.head
    rw [List.cons_append, keep_of_not_blank hblank, keep_of_not_blank hblank]
  have hnext : nextIndented ([] :: rest) = nextIndented [] :=
    (nextIndented_cons_of_blank rfl).trans hrest
  obtain ⟨kept, indented', last', hlast, hmore, halone⟩ :=
    keep_append hnext false false none lines
  have hkept : kept = lines := by
    rw [List.append_nil, h.kept] at halone
    exact (halone.trans (List.append_nil kept)).symm
  have hfilled : last'.all (· == []) = false := by
    rw [hlast, hkept, List.getLast?_eq_some_getLast h.filled]
    have hne := h.last
    rw [List.getLast?_eq_some_getLast h.filled] at hne
    simpa using hne
  rw [hstart, hmore, hkept, h.fences, keep_of_blank rfl, hrest, hfilled]
  simp only [Bool.and_false, Bool.false_eq_true, if_false]
  rw [keep_leading hrest rfl]

def between (before block after : List Char) : List Char :=
  before ++ '\n' :: (block ++ '\n' :: '\n' :: after)

def body : List Char → List Char
  | '\n' :: rest => rest
  | block => block

def behind (after : List Char) : List Char :=
  match tidy after with
  | [] => []
  | text => '\n' :: text

/-- The block stands on the page as it is, on top or behind whole lines, and what follows it is laid
out as behind a paragraph. -/
def Stands (before block after : List Char) : Prop :=
  ∃ top, tidy (between before block after) = top ++ '\n' :: behind after ∧
    (top = body block ∨ ∃ head, top = Text.unlines head ++ block)

/-- The text before opens no fence, and the first line behind that is not blank is not indented. -/
def Apart (before after : List Char) : Prop :=
  (∀ line ∈ Text.lines (before ++ ['\n']), isFence line = false) ∧
    nextIndented (Text.lines after) = false

theorem body_cases (block : List Char) : body block = block ∨ block = '\n' :: body block := by
  unfold body
  split
  · exact .inr rfl
  · exact .inl rfl

theorem split_body_cases (block : List Char) :
    body block = block ∧ Text.split '\n' block = Text.split '\n' (body block) ∨
      block = '\n' :: body block ∧
        Text.split '\n' block = [] :: Text.split '\n' (body block) := by
  rcases body_cases block with h | h
  · exact .inl ⟨h, by rw [h]⟩
  · refine .inr ⟨h, ?_⟩
    conv_lhs => rw [h]
    rw [Text.split, if_pos rfl]

theorem fencedAfter_of_clear (h : ∀ line ∈ lines, isFence line = false) (fenced : Bool) :
    fencedAfter fenced lines = fenced := by
  induction lines generalizing fenced with
  | nil => rfl
  | cons line lines ih =>
    rw [List.forall_mem_cons] at h
    rw [fencedAfter_cons, h.1, ih h.2, Bool.bne_false]

theorem lines_between (hreturn : '\r' ∉ block) (before after : List Char) :
    Text.lines (between before block after) =
      Text.lines (before ++ ['\n']) ++ (Text.split '\n' block ++ [] :: Text.lines after) := by
  have hbefore : Text.lines (before ++ ['\n']) = (Text.split '\n' before).map Text.dropReturn := by
    rw [Text.lines_append_newline]
    exact List.append_nil _
  have hafter : Text.lines ('\n' :: after) = [] :: Text.lines after :=
    Text.lines_newline (List.not_mem_nil) after
  rw [between, hbefore, Text.lines_append_newline, Text.lines_newline hreturn, hafter]

theorem behind_eq (after : List Char) :
    behind after = Text.unlines (trimmed ([] :: keep false false none (Text.lines after))) := by
  have happend (lines : List (List Char)) :
      trimmed ([] :: lines) = if trimmed lines = [] then [] else [] :: trimmed lines :=
    trimmed_append [[]] lines
  rw [behind, tidy_eq, happend]
  cases trimmed (keep false false none (Text.lines after)) with
  | nil => rfl
  | cons line more =>
    rw [if_neg (List.cons_ne_nil line more), Text.unlines_cons [], Text.unlines_cons line]
    cases line <;> rfl

theorem stands_of_closed (hreturn : '\r' ∉ block)
    (hclosed : Closed (Text.split '\n' (body block))) (hapart : Apart before after) :
    Stands before block after := by
  obtain ⟨hclear, hnext⟩ := hapart
  generalize hlines : Text.split '\n' (body block) = lines at hclosed
  have hbody : Text.unlines lines = body block ++ ['\n'] := by rw [← hlines, Text.unlines_split]
  -- Behind any lines the pass goes on with the block and keeps it, and then with what follows.
  have hpage (head : List (List Char)) (hkeep : keep false false none
      (Text.lines (between before block after)) =
        head ++ (lines ++ [] :: keep false false none (Text.lines after))) :
      tidy (between before block after) =
        (Text.unlines head ++ body block) ++ '\n' :: behind after := by
    have hlast : (head ++ lines).getLast? ≠ some [] := by
      have hne := hclosed.last
      rw [List.getLast?_append]
      rw [List.getLast?_eq_some_getLast hclosed.filled] at hne ⊢
      exact hne
    rw [tidy_eq, hkeep, ← List.append_assoc, trimmed_append_of_last hlast, Text.unlines_append,
      Text.unlines_append, hbody, behind_eq]
    simp
  have hbetween := lines_between hreturn before after
  rcases split_body_cases block with ⟨hblock, hsplit⟩ | ⟨hblock, hsplit⟩
  · obtain ⟨kept, indented, last, -, hkeep⟩ := exists_keep_append false false none
      (Text.lines (before ++ ['\n'])) (lines ++ [] :: Text.lines after)
    rw [fencedAfter_of_clear hclear, hclosed.keep hnext, ← hlines, ← hsplit, ← hbetween, hsplit,
      hlines] at hkeep
    exact ⟨_, hpage kept hkeep, .inr ⟨kept, by rw [hblock]⟩⟩
  · obtain ⟨kept, indented, last, hlast, hkeep⟩ := exists_keep_append false false none
      (Text.lines (before ++ ['\n'])) ([] :: (lines ++ [] :: Text.lines after))
    rw [hsplit, hlines, List.cons_append] at hbetween
    rw [fencedAfter_of_clear hclear, ← hbetween, keep_of_blank rfl, hclosed.keep hnext,
      hclosed.keep hnext] at hkeep
    by_cases hdrop : (!(indented && nextIndented (lines ++ [] :: Text.lines after)) &&
        last.all (· == [])) = true
    · -- The empty line before the block is the one that is kept, unless the block is on top.
      rw [if_pos hdrop] at hkeep
      have hempty : last.all (· == []) = true := (Bool.and_eq_true_iff.mp hdrop).2
      cases hkept : kept.getLast? with
      | none =>
        cases List.getLast?_eq_none_iff.mp hkept
        exact ⟨_, hpage [] hkeep, .inl rfl⟩
      | some line =>
        obtain ⟨head, rfl⟩ := List.getLast?_eq_some_iff.mp hkept
        have hline : line = [] := by
          rw [hlast, hkept] at hempty
          simpa using hempty
        refine ⟨_, hpage _ hkeep, .inr ⟨head, ?_⟩⟩
        conv_rhs => rw [hblock]
        rw [hline, Text.unlines_append]
        simp [Text.unlines]
    · rw [if_neg hdrop] at hkeep
      refine ⟨_, hpage (kept ++ [[]]) (by simpa using hkeep), .inr ⟨kept, ?_⟩⟩
      conv_rhs => rw [hblock]
      rw [Text.unlines_append]
      simp [Text.unlines]

def probe : List Char := ['a', '\n', '\n', '\n', 'a']

theorem behind_probe : behind probe = ['\n', 'a', '\n', '\n', 'a', '\n'] := by decide

theorem lines_probe : Text.lines probe = [['a'], [], [], ['a']] := by decide

theorem apart_probe : Apart [] probe := by
  constructor
  · decide
  · decide

theorem keep_probe_fenced (indented : Bool) (last : Option (List Char)) :
    keep true indented last ([] :: Text.lines probe) = [] :: Text.lines probe := by
  rw [lines_probe]
  rfl

theorem keep_probe (indented : Bool) (last : Option (List Char)) :
    keep false indented last ([] :: Text.lines probe) =
      if last.all (· == []) then [['a'], [], ['a']] else [[], ['a'], [], ['a']] := by
  have hnone : nextIndented (Text.lines probe) = false := by decide
  rw [keep_of_blank rfl, hnone, Bool.and_false, Bool.not_false, Bool.true_and, lines_probe]
  rfl

theorem length_body_le (block : List Char) : (body block).length ≤ block.length := by
  rcases body_cases block with h | h
  · rw [h]
  · have hlength := congrArg List.length h
    rw [List.length_cons] at hlength
    omega

theorem keep_on_top (hreturn : '\r' ∉ block) (after : List Char) :
    keep false false none (Text.lines (between [] block after)) =
      keep false false none (Text.split '\n' (body block) ++ [] :: Text.lines after) := by
  have htop : Text.lines ([] ++ ['\n']) = [[]] := rfl
  rw [lines_between hreturn, htop, List.singleton_append, keep_top_blank rfl]
  rcases split_body_cases block with ⟨-, hsplit⟩ | ⟨-, hsplit⟩
  · rw [hsplit]
  · rw [hsplit, List.cons_append, keep_top_blank rfl]

theorem eq_body_of_length_le {top : List Char}
    (htop : top = body block ∨ ∃ head, top = Text.unlines head ++ block)
    (hlength : top.length ≤ (body block).length) : top = body block := by
  rcases htop with htop | ⟨head, rfl⟩
  · exact htop
  · rw [List.length_append] at hlength
    rcases body_cases block with h | h
    · have hnil : Text.unlines head = [] := List.length_eq_zero_iff.mp (by rw [h] at hlength; omega)
      rw [hnil, h, List.nil_append]
    · have hblock := congrArg List.length h
      rw [List.length_cons] at hblock
      omega

theorem closed_of_stands (hreturn : '\r' ∉ block) (h : Stands [] block probe) :
    Closed (Text.split '\n' (body block)) := by
  obtain ⟨top, htidy, htop⟩ := h
  have hpage := keep_on_top hreturn probe
  generalize hlines : Text.split '\n' (body block) = lines at hpage ⊢
  have hbody : Text.unlines lines = body block ++ ['\n'] := by rw [← hlines, Text.unlines_split]
  have hnext : nextIndented ([] :: Text.lines probe) = nextIndented [] := by decide
  obtain ⟨kept, indented, last, hlast, hkeep, halone⟩ := keep_append hnext false false none lines
  rw [List.append_nil] at halone
  have hkept : keep false false none lines = kept := halone.trans (List.append_nil kept)
  have hlength := length_keep_le false false none lines
  rw [hkept, hbody, List.length_append, List.length_singleton] at hlength
  rw [behind_probe, tidy_eq, hpage, hkeep] at htidy
  cases hfences : fencedAfter false lines with
  | true =>
    -- A fence that is open keeps both lines of the blank run.
    rw [hfences, keep_probe_fenced, lines_probe, trimmed_eq_self_iff.mpr (by simp),
      Text.unlines_append] at htidy
    have hends := List.append_inj_right' htidy (by simp [Text.unlines])
    exact absurd hends (by decide)
  | false =>
    rw [hfences, keep_probe] at htidy
    have hempty : last.all (· == []) = false := by
      rw [Bool.eq_false_iff]
      intro hall
      rw [if_pos hall, trimmed_eq_self_iff.mpr (by simp), Text.unlines_append] at htidy
      have hlengths := congrArg List.length htidy
      have hlong : (body block).length ≤ top.length := by
        rcases htop with rfl | ⟨head, rfl⟩
        · exact Nat.le_refl _
        · rw [List.length_append]
          exact Nat.le_trans (length_body_le block) (Nat.le_add_left _ _)
      simp [Text.unlines] at hlengths
      simp [Text.unlines] at hlength
      omega
    rw [hempty, if_neg Bool.false_ne_true, trimmed_eq_self_iff.mpr (by simp), Text.unlines_append]
      at htidy
    have htext : Text.unlines kept = top ++ ['\n'] := by
      have hends : Text.unlines kept ++ Text.unlines [[], ['a'], [], ['a']] =
          (top ++ ['\n']) ++ Text.unlines [[], ['a'], [], ['a']] := by
        rw [htidy]
        simp [Text.unlines]
      exact List.append_cancel_right hends
    rw [htext, List.length_append, List.length_singleton] at hlength
    have hsame := eq_body_of_length_le htop (Nat.le_of_succ_le_succ hlength)
    have hlinesKept : kept = lines := by
      have hplain : ∀ line ∈ lines, '\n' ∉ line := by
        intro line hline
        rw [← hlines] at hline
        exact Text.not_mem_of_mem_split hline
      refine Text.unlines_inj (fun line hline => ?_) hplain (by rw [htext, hsame, hbody])
      rcases mem_keep (hkept ▸ hline) with hline | rfl
      · exact hplain line hline
      · exact List.not_mem_nil
    subst hlinesKept
    refine ⟨hkept, hfences, hlines ▸ Text.split_ne_nil _ _, fun he => ?_⟩
    rw [hlast, he] at hempty
    cases hempty

def fences (text : List Char) : Nat := (Text.lines text).countP isFence

theorem countP_split (hreturn : '\r' ∉ block) :
    (Text.split '\n' (body block)).countP isFence = fences block := by
  have hblock : (Text.split '\n' block).countP isFence = fences block := by
    rcases Text.split_eq_lines hreturn with h | h
    · rw [h, fences]
    · rw [h, List.countP_append]
      rfl
  rcases split_body_cases block with ⟨-, hsplit⟩ | ⟨-, hsplit⟩
  · rw [← hsplit, hblock]
  · rw [← hblock, hsplit, List.countP_cons]
    rfl

theorem tidy_alone (hreturn : '\r' ∉ block) :
    tidy (block ++ ['\n']) =
      Text.unlines (trimmed (keep false false none (Text.split '\n' (body block)))) := by
  have hlines : Text.lines (block ++ ['\n']) = Text.split '\n' block :=
    (Text.lines_newline hreturn []).trans (List.append_nil _)
  rw [tidy_eq, hlines]
  rcases split_body_cases block with ⟨-, hsplit⟩ | ⟨-, hsplit⟩
  · rw [hsplit]
  · rw [hsplit, keep_top_blank rfl]

theorem closed_iff (hreturn : '\r' ∉ block) :
    Closed (Text.split '\n' (body block)) ↔
      Even (fences block) ∧ tidy (block ++ ['\n']) = body block ++ ['\n'] := by
  rw [tidy_alone hreturn, ← countP_split hreturn, ← Text.unlines_split]
  have hplain {line : List Char} (h : line ∈ Text.split '\n' (body block)) : '\n' ∉ line :=
    Text.not_mem_of_mem_split h
  have hfilled := Text.split_ne_nil '\n' (body block)
  generalize Text.split '\n' (body block) = lines at hplain hfilled ⊢
  have hfences : fencedAfter false lines = false ↔ Even (lines.countP isFence) := by
    rw [fencedAfter_eq, Bool.false_bne, decide_eq_false_iff_not, Nat.not_odd_iff_even.symm,
      Nat.odd_iff]
  constructor
  · intro hclosed
    rw [hclosed.kept, trimmed_eq_self_iff.mpr hclosed.last]
    exact ⟨hfences.mp hclosed.fences, rfl⟩
  · rintro ⟨heven, halone⟩
    have htrimmed : trimmed (keep false false none lines) = lines := by
      refine Text.unlines_inj (fun line hline => ?_) (fun line => hplain) halone
      have hmem := (List.rdropWhile_prefix (· == []) _).subset hline
      rcases mem_keep hmem with hmem | rfl
      · exact hplain hmem
      · exact List.not_mem_nil
    have hkept : keep false false none lines = lines := by
      have hlength := length_keep_le false false none lines
      rw [← halone] at hlength
      exact (trimmed_eq_self_of_length hlength).symm.trans htrimmed
    rw [hkept] at htrimmed
    exact ⟨hkept, hfences.mpr heven, hfilled, trimmed_eq_self_iff.mp htrimmed⟩

/-- A block stands wherever it is put exactly if it closes its fences and the pass leaves it alone. -/
theorem stands_iff (hreturn : '\r' ∉ block) :
    (∀ before after, Apart before after → Stands before block after) ↔
      Even (fences block) ∧ tidy (block ++ ['\n']) = body block ++ ['\n'] := by
  rw [← closed_iff hreturn]
  constructor
  · intro h
    exact closed_of_stands hreturn (h [] probe apart_probe)
  · intro hclosed before after hapart
    exact stands_of_closed hreturn hclosed hapart

def IsParagraph (text : List Char) : Prop :=
  '\r' ∉ text ∧ ∀ line ∈ Text.split '\n' text, Text.isBlankLine line = false ∧ isFence line = false

theorem keep_plain (h : ∀ line ∈ lines, Text.isBlankLine line = false) (fenced indented : Bool)
    (last : Option (List Char)) : keep fenced indented last lines = lines := by
  induction lines generalizing fenced indented last with
  | nil => rfl
  | cons line lines ih =>
    rw [List.forall_mem_cons] at h
    rw [keep_of_not_blank h.1, ih h.2]

theorem IsParagraph.closed {text : List Char} (h : IsParagraph text) :
    Closed (Text.split '\n' (body text)) := by
  have hbody : Text.split '\n' (body text) = Text.split '\n' text := by
    rcases split_body_cases text with ⟨-, hsplit⟩ | ⟨-, hsplit⟩
    · exact hsplit.symm
    · have hblank := (h.2 [] (hsplit ▸ List.mem_cons_self)).1
      cases hblank
  rw [hbody]
  refine ⟨keep_plain (fun line hline => (h.2 line hline).1) _ _ _,
    fencedAfter_of_clear (fun line hline => (h.2 line hline).2) _, Text.split_ne_nil _ _, ?_⟩
  intro hlast
  have hblank := (h.2 [] (List.mem_of_getLast? hlast)).1
  cases hblank

end ApiPages.Tidy
