import ApiPages.Comment.Value
import ApiPages.Proofs.Text.Cutting

/-!
The alternatives of a type. They are joined by bars, and a bar within brackets belongs to the name
it stands in. Main statement: an annotation in parentheses is read as its names and marks, and one
without is read as its names exactly unless its first name opens and its last name closes a
parenthesis, which are then taken for a pair around the whole.
-/
namespace ApiPages

namespace TypeText

def closerOf? (c : Char) : Option Char :=
  if c = '(' then some ')' else if c = '<' then some '>' else if c = '{' then some '}'
  else if c = '[' then some ']' else none

def isCloser (c : Char) : Bool := [')', '>', '}', ']'].contains c

/-- Whether the brackets of a text close in order, with some still to close that opened before it,
and no bar stands outside of them. -/
def isWhole (closers : List Char) : List Char → Bool
  | [] => closers.isEmpty
  | c :: cs =>
    match closerOf? c with
    | some closer => isWhole (closer :: closers) cs
    | none =>
      if isCloser c then closers.head? == some c && isWhole closers.tail cs
      else (c != '|' || !closers.isEmpty) && isWhole closers cs

structure IsName (cs : List Char) : Prop where
  ne_nil : cs ≠ []
  trimmed : Text.trim cs = cs
  whole : isWhole [] cs = true

instance (cs : List Char) : Decidable (IsName cs) :=
  decidable_of_iff (cs ≠ [] ∧ Text.trim cs = cs ∧ isWhole [] cs = true)
    ⟨fun ⟨hne, htrim, hwhole⟩ => ⟨hne, htrim, hwhole⟩, fun h => ⟨h.ne_nil, h.trimmed, h.whole⟩⟩

theorem depthChange_of_closerOf? {c closer : Char} (h : closerOf? c = some closer) :
    depthChange c = 1 := by
  simp only [closerOf?] at h
  repeat' split at h
  all_goals first
    | (subst_vars; rfl)
    | cases h

theorem depthChange_of_isCloser {c : Char} (h : isCloser c = true) : depthChange c = -1 := by
  simp only [isCloser, List.contains_eq_mem, List.mem_cons, List.not_mem_nil, or_false,
    decide_eq_true_eq] at h
  rcases h with rfl | rfl | rfl | rfl <;> rfl

theorem depthChange_of_plain {c : Char} (hopen : closerOf? c = none) (hclose : isCloser c = false) :
    depthChange c = 0 := by
  rw [depthChange, if_neg, if_neg (by simpa [isCloser] using hclose)]
  intro h
  simp only [List.contains_eq_mem, List.mem_cons, List.not_mem_nil, or_false,
    decide_eq_true_eq] at h
  rcases h with rfl | rfl | rfl | rfl <;> cases hopen

theorem ne_bar_of_closerOf? {c closer : Char} (h : closerOf? c = some closer) : c ≠ '|' := by
  rintro rfl
  cases h

theorem ne_bar_of_isCloser {c : Char} (h : isCloser c = true) : c ≠ '|' := by
  rintro rfl
  cases h

theorem alternatives_cons {c : Char} {depth : Int} (h : ¬ (c = '|' ∧ depth = 0)) {cs piece : List Char}
    {more : List (List Char)} (hcs : alternatives (depth + depthChange c) cs = piece :: more) :
    alternatives depth (c :: cs) = (c :: piece) :: more := by
  rw [alternatives, if_neg h, hcs]

theorem alternatives_append {closers cs rest piece : List Char} {more : List (List Char)}
    (h : isWhole closers cs = true) (hrest : alternatives 0 rest = piece :: more) :
    alternatives closers.length (cs ++ rest) = (cs ++ piece) :: more := by
  induction cs generalizing closers with
  | nil =>
    rw [isWhole, List.isEmpty_iff] at h
    rw [h]
    exact hrest
  | cons c cs ih =>
    rw [List.cons_append, List.cons_append]
    rw [isWhole] at h
    cases hopen : closerOf? c with
    | some closer =>
      rw [hopen] at h
      apply alternatives_cons fun hbar => ne_bar_of_closerOf? hopen hbar.1
      rw [depthChange_of_closerOf? hopen]
      exact ih h
    | none =>
      rw [hopen] at h
      cases hclose : isCloser c with
      | true =>
        simp only [hclose, if_true, Bool.and_eq_true, beq_iff_eq] at h
        obtain ⟨outer, rfl⟩ := List.head?_eq_some_iff.mp h.1
        apply alternatives_cons fun hbar => ne_bar_of_isCloser hclose hbar.1
        have hdepth : ((c :: outer).length : Int) + depthChange c = outer.length := by
          rw [depthChange_of_isCloser hclose, List.length_cons]
          omega
        rw [hdepth]
        exact ih h.2
      | false =>
        simp only [hclose, Bool.false_eq_true, if_false, Bool.and_eq_true, Bool.or_eq_true, bne_iff_ne,
          Bool.not_eq_true', List.isEmpty_eq_false_iff] at h
        apply alternatives_cons
        · rintro ⟨hbar, hdepth⟩
          have hlength := List.length_pos_iff.mpr (h.1.resolve_left (· hbar))
          omega
        · rw [depthChange_of_plain hopen hclose, Int.add_zero]
          exact ih h.2

theorem alternatives_join {parts : List (List Char)} (hne : parts ≠ [])
    (h : ∀ part ∈ parts, isWhole [] part = true) :
    alternatives 0 (Text.join ['|'] parts) = parts := by
  induction parts with
  | nil => exact absurd rfl hne
  | cons part parts ih =>
    obtain ⟨hpart, hparts⟩ := List.forall_mem_cons.mp h
    cases parts with
    | nil =>
      have hend : alternatives 0 [] = [] :: [] := rfl
      simpa [Text.join] using alternatives_append hpart hend
    | cons next parts =>
      have hbar : alternatives 0 ('|' :: Text.join ['|'] (next :: parts)) = [] :: (next :: parts) := by
        rw [alternatives, if_pos ⟨rfl, rfl⟩, ih (List.cons_ne_nil _ _) hparts]
      have happend := alternatives_append hpart hbar
      rwa [List.append_nil] at happend

theorem IsName.nonEmpty? {part : List Char} (h : IsName part) : Text.nonEmpty? part = some part :=
  Text.nonEmpty?_eq_self h.ne_nil h.trimmed

theorem names_join {parts : List (List Char)} (hne : parts ≠ []) (h : ∀ part ∈ parts, IsName part) :
    names (Text.join ['|'] parts) = parts.map String.ofList := by
  have hparts : parts.filterMap Text.nonEmpty? = parts := by
    calc parts.filterMap Text.nonEmpty? = parts.filterMap some :=
          List.filterMap_congr fun part hpart => (h part hpart).nonEmpty?
      _ = parts := List.filterMap_some
  rw [names, alternatives_join hne fun part hpart => (h part hpart).whole, hparts]

def marked (repeated nullable optional : Bool) (core : List Char) : List Char :=
  (if repeated then ['.', '.', '.'] else []) ++ ((if nullable then ['?'] else []) ++
    (core ++ if optional then ['='] else []))

/-- A text that has no mark of its own, before it or behind it. -/
structure IsBare (core : List Char) : Prop where
  ne_nil : core ≠ []
  trimmed : Text.trim core = core
  dots : ¬ ['.', '.', '.'] <+: core
  question : ¬ ['?'] <+: core
  bang : ¬ ['!'] <+: core
  sign : ¬ ['='] <:+ core

section Marks

variable {core : List Char} (h : IsBare core) (repeated nullable optional : Bool)

include h

theorem IsBare.trim_marked :
    Text.trim (marked repeated nullable optional core) = marked repeated nullable optional core := by
  obtain ⟨hstart, hend⟩ := Text.trim_eq_self_iff.mp h.trimmed
  rw [Text.trimStart_eq_self_iff] at hstart
  rw [Text.trimEnd_eq_self_iff] at hend
  rw [Text.trim_eq_self_iff, Text.trimStart_eq_self_iff, Text.trimEnd_eq_self_iff]
  obtain ⟨c, cs, rfl⟩ := List.exists_cons_of_ne_nil h.ne_nil
  constructor
  · cases repeated <;> cases nullable <;> first | exact hstart | (simp [marked]; rfl)
  · simp only [marked, List.getLast?_append]
    cases optional with
    | true => simp; rfl
    | false =>
      rw [List.getLast?_eq_some_getLast h.ne_nil] at hend ⊢
      simpa using hend

theorem IsBare.after?_marked :
    Text.after? ['.', '.', '.'] (marked repeated nullable optional core) =
      if repeated then some (marked false nullable optional core) else none := by
  cases repeated with
  | true => rfl
  | false =>
    rw [if_neg Bool.false_ne_true, Option.eq_none_iff_forall_ne_some]
    intro rest hrest
    rw [Text.after?_eq_some_iff] at hrest
    have hprefix : ['.', '.', '.'] <+: marked false nullable optional core := ⟨rest, hrest.symm⟩
    cases nullable with
    | true => simp [marked] at hprefix
    | false =>
      cases optional with
      | false => exact h.dots (by simpa [marked] using hprefix)
      | true => exact h.dots ((Text.prefix_append_cons_iff (by decide)).mp hprefix)

theorem IsBare.before?_marked :
    Text.before? ['='] (marked false nullable optional core) =
      if optional then some (marked false nullable false core) else none := by
  cases optional with
  | true => simp [Text.before?_eq_some_iff, marked]
  | false =>
    rw [if_neg Bool.false_ne_true, Option.eq_none_iff_forall_ne_some]
    intro rest hrest
    rw [Text.before?_eq_some_iff] at hrest
    have hlast : core.getLast? = some '=' := by
      have hmarked := congrArg List.getLast? hrest
      simp only [marked, List.getLast?_append, List.getLast?_eq_some_getLast h.ne_nil] at hmarked ⊢
      simpa using hmarked
    obtain ⟨front, rfl⟩ := List.getLast?_eq_some_iff.mp hlast
    exact h.sign (List.suffix_append front _)

theorem IsBare.ofText_marked :
    ofText (marked repeated nullable optional core) =
      { expr := ⟨names (unwrapped core)⟩, optional := optional, nullable := nullable
        repeated := repeated } := by
  obtain ⟨c, cs, rfl⟩ := List.exists_cons_of_ne_nil h.ne_nil
  have hquestion : c ≠ '?' := fun hc => h.question (by simp [hc])
  have hbang : c ≠ '!' := fun hc => h.bang (by simp [hc])
  simp only [ofText, h.trim_marked, h.after?_marked]
  cases repeated <;> cases optional <;>
    simp only [h.before?_marked, if_true, Bool.false_eq_true, if_false] <;>
    cases nullable <;> simp [marked, hquestion, hbang]

end Marks

theorem unwrapped_parenthesized (cs : List Char) : unwrapped ('(' :: (cs ++ [')'])) = cs := by
  rw [unwrapped, Text.before?_eq_some_iff.mpr rfl]
  rfl

theorem unwrapped_of_not {cs : List Char} (h : ¬ (['('] <+: cs ∧ [')'] <:+ cs)) :
    unwrapped cs = cs := by
  simp only [unwrapped]
  split
  · rename_i rest
    cases hclose : Text.before? [')'] rest with
    | none => rfl
    | some inside =>
      rw [Text.before?_eq_some_iff] at hclose
      exact absurd ⟨⟨rest, rfl⟩, ⟨'(' :: inside, by rw [hclose]; rfl⟩⟩ h
  · rfl

theorem eq_parenthesized {cs : List Char} (hopen : ['('] <+: cs) (hclose : [')'] <:+ cs) :
    ∃ inner, cs = '(' :: (inner ++ [')']) := by
  obtain ⟨rest, rfl⟩ := hopen
  obtain ⟨front, hfront⟩ := hclose
  cases front with
  | nil => cases hfront
  | cons c inner =>
    rw [List.cons_append, List.singleton_append, List.cons.injEq] at hfront
    exact ⟨inner, by rw [hfront.2]; rfl⟩

theorem isBare_parenthesized (cs : List Char) : IsBare ('(' :: (cs ++ [')'])) := by
  refine ⟨List.cons_ne_nil _ _, ?_, by simp, by simp, by simp, ?_⟩
  · rw [Text.trim_eq_self_iff, Text.trimStart_eq_self_iff, Text.trimEnd_eq_self_iff]
    constructor
    · intro c hc
      obtain rfl := Option.some.inj hc
      rfl
    · intro c hc
      rw [← List.cons_append, List.getLast?_concat] at hc
      obtain rfl := Option.some.inj hc
      rfl
  · rw [← List.cons_append]
    rintro ⟨front, hfront⟩
    have hlast := (List.append_inj' hfront rfl).2
    cases hlast

def width : List (List Char) → Nat
  | [] => 0
  | piece :: pieces => piece.length + 1 + width pieces

theorem width_filterMap_le (pieces : List (List Char)) :
    width (pieces.filterMap Text.nonEmpty?) ≤ width pieces := by
  induction pieces with
  | nil => exact Nat.le_refl _
  | cons piece pieces ih =>
    rw [List.filterMap_cons]
    split
    · exact ih.trans (Nat.le_add_left _ _)
    · rename_i text htext
      have hlength := Text.length_nonEmpty?_le htext
      rw [width, width]
      omega

theorem width_alternatives (depth : Int) (cs : List Char) :
    width (alternatives depth cs) = cs.length + 1 := by
  induction cs generalizing depth with
  | nil => rfl
  | cons c cs ih =>
    rw [alternatives]
    split
    · rw [width, ih, List.length_nil, List.length_cons]
      omega
    · have hcs := ih (depth + depthChange c)
      split
      · rename_i hnil
        rw [hnil] at hcs
        simp [width] at hcs
      · rename_i piece pieces hcons
        rw [hcons, width] at hcs
        rw [width, List.length_cons, List.length_cons]
        omega

section Union

variable (first last : List Char) (middle : List (List Char))

theorem join_first :
    Text.join ['|'] (first :: (middle ++ [last])) =
      first ++ '|' :: Text.join ['|'] (middle ++ [last]) := by
  obtain ⟨part, parts, hparts⟩ : ∃ part parts, middle ++ [last] = part :: parts :=
    List.exists_cons_of_ne_nil (by simp)
  rw [hparts]
  simp [Text.join]

theorem join_last :
    Text.join ['|'] (first :: (middle ++ [last])) =
      Text.join ['|'] (first :: middle) ++ '|' :: last := by
  rw [← List.cons_append, Text.join_concat (List.cons_ne_nil first middle)]

theorem prefix_join_iff {mark : List Char} (h : '|' ∉ mark) :
    mark <+: Text.join ['|'] (first :: (middle ++ [last])) ↔ mark <+: first := by
  rw [join_first, Text.prefix_append_cons_iff h]

theorem suffix_join_iff {mark : List Char} (h : '|' ∉ mark) :
    mark <:+ Text.join ['|'] (first :: (middle ++ [last])) ↔ mark <:+ last := by
  rw [join_last, Text.suffix_append_cons_iff h]

variable {first last middle}

theorem isBare_join (hfirst : IsName first) (hlast : IsName last)
    (hdots : ¬ ['.', '.', '.'] <+: first) (hquestion : ¬ ['?'] <+: first) (hbang : ¬ ['!'] <+: first)
    (hsign : ¬ ['='] <:+ last) (middle : List (List Char)) :
    IsBare (Text.join ['|'] (first :: (middle ++ [last]))) := by
  obtain ⟨hstart, -⟩ := Text.trim_eq_self_iff.mp hfirst.trimmed
  obtain ⟨-, hend⟩ := Text.trim_eq_self_iff.mp hlast.trimmed
  rw [Text.trimStart_eq_self_iff] at hstart
  rw [Text.trimEnd_eq_self_iff] at hend
  refine ⟨by simp [join_first], ?_, mt (prefix_join_iff _ _ _ (by decide)).mp hdots,
    mt (prefix_join_iff _ _ _ (by decide)).mp hquestion, mt (prefix_join_iff _ _ _ (by decide)).mp hbang,
    mt (suffix_join_iff _ _ _ (by decide)).mp hsign⟩
  rw [Text.trim_eq_self_iff, Text.trimStart_eq_self_iff, Text.trimEnd_eq_self_iff]
  constructor
  · obtain ⟨c, cs, rfl⟩ := List.exists_cons_of_ne_nil hfirst.ne_nil
    rw [join_first]
    exact hstart
  · have hne := hlast.ne_nil
    rw [join_last, List.getLast?_append]
    rw [List.getLast?_eq_some_getLast hne] at hend
    rw [List.getLast?_eq_some_getLast (List.cons_ne_nil _ _), List.getLast_cons hne]
    exact hend

theorem names_unwrapped_ne (hparts : ∀ part ∈ first :: (middle ++ [last]), IsName part)
    (hopen : ['('] <+: first) (hclose : [')'] <:+ last) :
    names (unwrapped (Text.join ['|'] (first :: (middle ++ [last])))) ≠
      (first :: (middle ++ [last])).map String.ofList := by
  have hwhole := width_alternatives 0 (Text.join ['|'] (first :: (middle ++ [last])))
  rw [alternatives_join (List.cons_ne_nil _ _) fun part hpart => (hparts part hpart).whole] at hwhole
  rw [← prefix_join_iff first last middle (by decide)] at hopen
  rw [← suffix_join_iff first last middle (by decide)] at hclose
  obtain ⟨inner, hjoin⟩ := eq_parenthesized hopen hclose
  have hinner := (width_filterMap_le (alternatives 0 inner)).trans_eq (width_alternatives 0 inner)
  rw [hjoin, List.length_cons, List.length_append] at hwhole
  intro h
  rw [hjoin, unwrapped_parenthesized, names] at h
  rw [List.map_injective_iff.mpr (fun a b hab => String.ofList_inj.mp hab) h, hwhole] at hinner
  omega

end Union

/-- Alternatives in parentheses come back with the marks around them; without parentheses they come
back exactly if the first name does not open one or the last name does not close one. -/
theorem ofText_join_iff {first last : List Char} {middle : List (List Char)}
    (hparts : ∀ part ∈ first :: (middle ++ [last]), IsName part)
    (hdots : ¬ ['.', '.', '.'] <+: first) (hquestion : ¬ ['?'] <+: first) (hbang : ¬ ['!'] <+: first)
    (hsign : ¬ ['='] <:+ last) :
    (ofText (Text.join ['|'] (first :: (middle ++ [last]))) =
        { expr := ⟨(first :: (middle ++ [last])).map String.ofList⟩ } ↔
      ¬ (['('] <+: first ∧ [')'] <:+ last)) ∧
    ∀ repeated nullable optional, ofText (marked repeated nullable optional
        ('(' :: (Text.join ['|'] (first :: (middle ++ [last])) ++ [')']))) =
      { expr := ⟨(first :: (middle ++ [last])).map String.ofList⟩, optional := optional
        nullable := nullable, repeated := repeated } := by
  have hfirst := hparts first List.mem_cons_self
  have hlast := hparts last (by simp)
  have hnames := names_join (List.cons_ne_nil _ _) hparts
  have hbare := (isBare_join hfirst hlast hdots hquestion hbang hsign middle).ofText_marked
    false false false
  simp only [marked, Bool.false_eq_true, if_false, List.nil_append, List.append_nil] at hbare
  refine ⟨?_, fun repeated nullable optional => ?_⟩
  · rw [hbare]
    constructor
    · intro h hclosed
      exact names_unwrapped_ne hparts hclosed.1 hclosed.2 (by simpa using h)
    · intro h
      rw [← prefix_join_iff first last middle (by decide),
        ← suffix_join_iff first last middle (by decide)] at h
      rw [unwrapped_of_not h, hnames]
  · rw [(isBare_parenthesized _).ofText_marked, unwrapped_parenthesized, hnames]

theorem ofText_join_iff_nested :
    (ofText "Object.<string, (number|null)>|string|(a)".toList =
        { expr := ⟨["Object.<string, (number|null)>", "string", "(a)"]⟩ } ↔
      ¬ (['('] <+: "Object.<string, (number|null)>".toList ∧ [')'] <:+ "(a)".toList)) ∧
    ofText "...?(Object.<string, (number|null)>|string|(a))=".toList =
      { expr := ⟨["Object.<string, (number|null)>", "string", "(a)"]⟩, optional := true
        nullable := true, repeated := true } := by
  have hparts : ∀ part ∈ "Object.<string, (number|null)>".toList ::
      (["string".toList] ++ ["(a)".toList]), IsName part := by decide
  obtain ⟨hbare, hmarked⟩ :=
    ofText_join_iff hparts (by decide) (by decide) (by decide) (by decide)
  exact ⟨hbare, hmarked true true true⟩

theorem parenthesized_names_merge :
    IsName "(a)".toList ∧ IsName "(b)".toList ∧
      ofText (Text.join ['|'] ["(a)".toList, "(b)".toList]) = { expr := ⟨["a)|(b"]⟩ } ∧
      ofText (Text.join ['|'] ["(a)".toList, "(b)".toList]) ≠ { expr := ⟨["(a)", "(b)"]⟩ } := by
  decide

end TypeText

end ApiPages
