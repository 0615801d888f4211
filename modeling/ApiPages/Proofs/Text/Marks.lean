import Mathlib
import ApiPages.Proofs.Text.Lines

/-!
Backticks and bars, the characters that open fences and draw tables. A text is unmarked if it has
neither, and harmless if it has no backtick and no bar but behind a backslash. Harmless texts can be
put together and cut into lines, and hold no fence and no line of a table.
-/
namespace ApiPages.Text

variable {a b cs : List Char} {c : Char}

def Unmarked (cs : List Char) : Prop := ∀ c ∈ cs, c ≠ '\x60' ∧ c ≠ '|'

instance (cs : List Char) : Decidable (Unmarked cs) :=
  List.decidableBAll (fun c => c ≠ '\x60' ∧ c ≠ '|') cs

theorem unmarked_append : Unmarked (a ++ b) ↔ Unmarked a ∧ Unmarked b := List.forall_mem_append

theorem Unmarked.of_subset (h : Unmarked b) (hsub : a ⊆ b) : Unmarked a := fun c hc => h c (hsub hc)

theorem Unmarked.join {sep : List Char} (hsep : Unmarked sep) {pieces : List (List Char)}
    (h : ∀ piece ∈ pieces, Unmarked piece) : Unmarked (join sep pieces) := by
  induction pieces with
  | nil => simp [Text.join, Unmarked]
  | cons piece pieces ih =>
    rw [List.forall_mem_cons] at h
    cases pieces with
    | nil => simpa [Text.join] using h.1
    | cons next pieces =>
      have hrest := ih h.2
      rw [Text.join] at hrest ⊢
      rw [List.intercalate_cons_cons, unmarked_append, unmarked_append]
      exact ⟨⟨h.1, hsep⟩, hrest⟩

theorem Unmarked.concat {a b : String} (ha : Unmarked a.toList) (hb : Unmarked b.toList) :
    Unmarked (a ++ b).toList := by
  rw [String.toList_append]
  exact unmarked_append.mpr ⟨ha, hb⟩

theorem Unmarked.intercalate {sep : String} (hsep : Unmarked sep.toList) {texts : List String}
    (h : ∀ text ∈ texts, Unmarked text.toList) : Unmarked (sep.intercalate texts).toList := by
  rw [String.toList_intercalate]
  exact Unmarked.join hsep (List.forall_mem_map.mpr h)

/-- What may stand behind a character of a harmless text. -/
def MayStand (a b : Char) : Prop := b ≠ '\x60' ∧ (b = '|' → a = '\\')

instance : DecidableRel MayStand := fun a b =>
  inferInstanceAs (Decidable (b ≠ '\x60' ∧ (b = '|' → a = '\\')))

/-- No backtick, and a backslash before every bar. -/
def Harmless (cs : List Char) : Prop := (' ' :: cs).IsChain MayStand

instance (cs : List Char) : Decidable (Harmless cs) :=
  inferInstanceAs (Decidable ((' ' :: cs).IsChain MayStand))

theorem harmless_nil : Harmless [] := .singleton ' '

theorem Harmless.append (ha : Harmless a) (hb : Harmless b) : Harmless (a ++ b) := by
  obtain ⟨hhead, hchain⟩ := List.isChain_cons.mp hb
  rw [Harmless, ← List.cons_append, List.isChain_append]
  refine ⟨ha, hchain, fun last _ head hmem => ?_⟩
  -- The text behind does not begin with a bar, for it may stand alone.
  obtain ⟨htick, hbar⟩ := hhead head hmem
  exact ⟨htick, fun he => absurd (hbar he) (by decide)⟩

theorem Unmarked.harmless (h : Unmarked cs) : Harmless cs := by
  have hchain (c : Char) : (c :: cs).IsChain MayStand := by
    induction cs generalizing c with
    | nil => exact .singleton c
    | cons d cs ih =>
      rw [Unmarked, List.forall_mem_cons] at h
      exact .cons_cons ⟨h.1.1, fun hbar => absurd hbar h.1.2⟩ (ih h.2 d)
  exact hchain ' '

theorem Harmless.join {sep : List Char} (hsep : Harmless sep) {pieces : List (List Char)}
    (h : ∀ piece ∈ pieces, Harmless piece) : Harmless (join sep pieces) := by
  induction pieces with
  | nil => exact harmless_nil
  | cons piece pieces ih =>
    rw [List.forall_mem_cons] at h
    cases pieces with
    | nil => simpa [Text.join] using h.1
    | cons next pieces =>
      have hrest := ih h.2
      rw [Text.join] at hrest ⊢
      rw [List.intercalate_cons_cons]
      exact (h.1.append hsep).append hrest

theorem Harmless.concat {a b : String} (ha : Harmless a.toList) (hb : Harmless b.toList) :
    Harmless (a ++ b).toList := by
  rw [String.toList_append]
  exact ha.append hb

theorem Harmless.intercalate {sep : String} (hsep : Harmless sep.toList) {texts : List String}
    (h : ∀ text ∈ texts, Harmless text.toList) : Harmless (sep.intercalate texts).toList := by
  rw [String.toList_intercalate]
  exact Harmless.join hsep (List.forall_mem_map.mpr h)

theorem Harmless.of_append (h : Harmless (a ++ b)) : Harmless a := by
  rw [Harmless, ← List.cons_append, List.isChain_append] at h
  exact h.1

theorem Harmless.behind {c : Char} (h : Harmless (a ++ c :: b)) (hc : c ≠ '\\') : Harmless b := by
  rw [Harmless, ← List.cons_append, List.isChain_append] at h
  obtain ⟨hhead, hchain⟩ := List.isChain_cons.mp h.2.1
  refine List.isChain_cons.mpr ⟨fun d hd => ?_, hchain⟩
  exact ⟨(hhead d hd).1, fun hbar => absurd ((hhead d hd).2 hbar) hc⟩

theorem Harmless.split (h : Harmless cs) : ∀ piece ∈ split '\n' cs, Harmless piece := by
  generalize hn : cs.length = n
  induction n using Nat.strong_induction_on generalizing cs with
  | _ n ih =>
    rcases @split_cases '\n' cs with ⟨-, hsplit⟩ | ⟨piece, rest, -, rfl, hsplit⟩
    · rw [hsplit, List.forall_mem_singleton]
      exact h
    · rw [hsplit, List.forall_mem_cons]
      refine ⟨h.of_append, ih rest.length ?_ (h.behind (by decide)) rfl⟩
      rw [← hn, List.length_append, List.length_cons]
      omega

theorem exists_dropReturn_append (line : List Char) :
    ∃ ending, line = dropReturn line ++ ending := by
  rw [dropReturn]
  cases hbefore : before? ['\r'] line with
  | none => exact ⟨[], by simp⟩
  | some rest => exact ⟨['\r'], before?_eq_some_iff.mp hbefore⟩

theorem Harmless.lines (h : Harmless cs) : ∀ line ∈ lines cs, Harmless line := by
  intro line hline
  simp only [Text.lines, List.mem_append, List.mem_map, Option.mem_toList,
    Option.filter_eq_some_iff] at hline
  rcases hline with ⟨piece, hpiece, rfl⟩ | ⟨hlast, -⟩
  · obtain ⟨ending, hending⟩ := exists_dropReturn_append piece
    have hharmless := h.split piece (List.dropLast_subset _ hpiece)
    rw [hending] at hharmless
    exact hharmless.of_append
  · exact h.split line (List.mem_of_getLast? hlast)

theorem Harmless.unlines {ls : List (List Char)} (h : ∀ line ∈ ls, Harmless line) :
    Harmless (unlines ls) := by
  induction ls with
  | nil => exact harmless_nil
  | cons line ls ih =>
    rw [List.forall_mem_cons] at h
    rw [unlines_cons, List.append_cons]
    exact (h.1.append (by decide)).append (ih h.2)

theorem Harmless.chain_within {part : List Char} (h : Harmless cs) (hwithin : part <:+: cs) :
    part.IsChain MayStand := by
  have hchain := (List.isChain_cons.mp h).2
  exact hchain.infix hwithin

theorem Harmless.tick_not_mem (h : Harmless cs) : '\x60' ∉ cs := by
  have hchain {ds : List Char} (c : Char) (hc : (c :: ds).IsChain MayStand) : '\x60' ∉ ds := by
    induction ds generalizing c with
    | nil => exact List.not_mem_nil
    | cons d ds ih =>
      rw [List.isChain_cons_cons] at hc
      rw [List.mem_cons, not_or]
      exact ⟨Ne.symm hc.1.1, ih d hc.2⟩
  exact hchain ' ' h

theorem within_of_contains {part : List Char} (h : contains part cs = true) : part <:+: cs := by
  obtain ⟨⟨before, after⟩, hsplit⟩ := Option.isSome_iff_exists.mp h
  exact ⟨before, after, (eq_append_of_splitAt? hsplit).symm⟩

theorem mem_replace {part new : List Char} {c : Char} (h : c ∈ replace part new cs) :
    c ∈ cs ∨ c ∈ new := by
  rw [replace] at h
  generalize cs.length = n at h
  induction n generalizing cs with
  | zero => exact .inl h
  | succ n ih =>
    cases cs with
    | nil => cases h
    | cons d cs =>
      rw [replaceFrom] at h
      split at h
      · next rest hafter =>
        rcases List.mem_append.mp h with h | h
        · exact .inr h
        · refine (ih h).imp (fun hmem => ?_) id
          rw [after?_eq_some_iff.mp hafter]
          exact List.mem_append_right part hmem
      · rcases List.mem_cons.mp h with rfl | h
        · exact .inl List.mem_cons_self
        · exact (ih h).imp (List.mem_cons_of_mem d) id

theorem Unmarked.replace {part new : List Char} (h : Unmarked cs) (hnew : Unmarked new) :
    Unmarked (replace part new cs) := by
  intro c hc
  exact (mem_replace hc).elim (h c) (hnew c)

theorem Unmarked.trimStart (h : Unmarked cs) : Unmarked (trimStart cs) :=
  h.of_subset (List.dropWhile_subset isBlank)

theorem Unmarked.trim (h : Unmarked cs) : Unmarked (trim cs) :=
  h.trimStart.of_subset (Text.trim_prefix cs).subset

theorem Unmarked.behind (h : Unmarked cs) (hcut : after? a cs = some b) : Unmarked b := by
  rw [after?_eq_some_iff.mp hcut, unmarked_append] at h
  exact h.2

theorem Unmarked.cut {sep : Char} (h : Unmarked cs) (hcut : splitFirst? sep cs = some (a, b)) :
    Unmarked a ∧ Unmarked b := by
  rw [eq_append_of_splitFirst? hcut, unmarked_append] at h
  exact ⟨h.1, h.2.of_subset (List.subset_cons_self sep b)⟩

theorem eq_of_toLower {mark : Char} (hmark : mark.isAlpha = false) (h : c.toLower = mark) :
    c = mark := by
  have halpha : c.isAlpha = false := by rw [← Char.isAlpha_toLower_eq_isAlpha, h, hmark]
  have hupper : ¬ c.isUpper := by simp_all [Char.isAlpha]
  rw [← h, Char.toLower_eq_of_not_isUpper hupper]

theorem eq_of_toUpper {mark : Char} (hmark : mark.isAlpha = false) (h : c.toUpper = mark) :
    c = mark := by
  have halpha : c.isAlpha = false := by rw [← Char.isAlpha_toUpper_eq_isAlpha, h, hmark]
  have hlower : ¬ c.isLower := by simp_all [Char.isAlpha]
  rw [← h, Char.toUpper_eq_of_not_isLower hlower]

theorem unmarked_toLower (h : Unmarked [c]) : Unmarked [c.toLower] := by
  rw [Unmarked, List.forall_mem_singleton] at h ⊢
  exact ⟨fun he => h.1 (eq_of_toLower (by decide) he), fun he => h.2 (eq_of_toLower (by decide) he)⟩

theorem unmarked_toUpper (h : Unmarked [c]) : Unmarked [c.toUpper] := by
  rw [Unmarked, List.forall_mem_singleton] at h ⊢
  exact ⟨fun he => h.1 (eq_of_toUpper (by decide) he), fun he => h.2 (eq_of_toUpper (by decide) he)⟩

theorem ofNat_ne {n : Nat} {mark : Char} (hmark : mark.toNat ≠ 0) (h : n ≠ mark.toNat) :
    Char.ofNat n ≠ mark := by
  intro he
  have hn := congrArg Char.toNat he
  rw [Char.toNat_ofNat] at hn
  split at hn
  · exact h hn
  · exact hmark hn.symm

theorem lower?_ne {r : LetterTable.CaseRun} (hr : r ∈ LetterTable.lowerCase) (n : Nat) {mark : Nat}
    (hmark : mark ∈ [0x60, 0x7c]) : r.lower? n ≠ some mark := by
  have hruns : ∀ r ∈ LetterTable.lowerCase, ∀ mark ∈ [0x60, 0x7c],
      mark < r.target ∨ r.target + (r.last - r.first) < mark := by decide +kernel
  have hrun := hruns r hr mark hmark
  rw [LetterTable.CaseRun.lower?]
  split
  · rw [ne_eq, Option.some.injEq]
    omega
  · simp

theorem unmarked_lowerChar (h : Unmarked [c]) : Unmarked (lowerChar c) := by
  rw [lowerChar]
  split_ifs
  · exact unmarked_toLower h
  · decide
  · split
    · next n hfound =>
      obtain ⟨r, hr, hlower⟩ := List.exists_of_findSome?_eq_some hfound
      have hne {mark : Nat} (hmark : mark ∈ [0x60, 0x7c]) : n ≠ mark :=
        fun he => lower?_ne hr c.toNat hmark (he ▸ hlower)
      rw [Unmarked, List.forall_mem_singleton]
      exact ⟨ofNat_ne (by decide) (hne (by decide)), ofNat_ne (by decide) (hne (by decide))⟩
    · exact h
end ApiPages.Text
