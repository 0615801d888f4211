import Mathlib.Data.List.Nodup
import ApiPages.Catalogue

/-!
The ids of the entries. Every id is counted as it was made, before numbers are put behind it, so a
number can only meet an id that was made with one. Main statement: the ids of a page differ exactly
if no entry is made with the id that another one gets by its number.
-/
namespace ApiPages.Catalogue

def suffixed (id : String) (n : Nat) : String := id ++ "_" ++ toString n

def draftIds (showPrivate : Bool) (doclets : List Doclet) : List String :=
  (doclets.filter (·.isShown showPrivate)).flatMap fun d =>
    d.longname :: if d.kind = .classKind ∧ d.tags.hideConstructor = false then
      [d.longname ++ "()"] else []

def numberedIds (earlier : List String) : List String → List String
  | [] => []
  | id :: ids =>
    (if earlier.count id = 0 then id else suffixed id (earlier.count id + 1)) ::
      numberedIds (id :: earlier) ids

theorem suffixed_toList (id : String) (n : Nat) :
    (suffixed id n).toList = id.toList ++ '_' :: Nat.toDigits 10 n := by
  simp [suffixed, Nat.toList_repr]

theorem append_underscore_inj {a b c d : List Char} (hb : '_' ∉ b) (hd : '_' ∉ d)
    (h : a ++ '_' :: b = c ++ '_' :: d) : a = c ∧ b = d := by
  induction a generalizing c with
  | nil =>
    cases c with
    | nil => simpa using h
    | cons x c =>
      have hm : '_' ∈ b := by simp_all
      exact absurd hm hb
  | cons x a ih =>
    cases c with
    | nil =>
      have hm : '_' ∈ d := by
        have ht : a ++ '_' :: b = d := (List.cons.inj h).2
        simp [← ht]
      exact absurd hm hd
    | cons y c =>
      obtain ⟨hx, ht⟩ := List.cons.inj h
      obtain ⟨ha, he⟩ := ih ht
      exact ⟨by rw [hx, ha], he⟩

theorem suffixed_inj {x y : String} {m n : Nat} (h : suffixed x m = suffixed y n) :
    x = y ∧ m = n := by
  have ht := congrArg String.toList h
  rw [suffixed_toList, suffixed_toList] at ht
  obtain ⟨hx, hd⟩ :=
    append_underscore_inj Nat.underscore_not_in_toDigits Nat.underscore_not_in_toDigits ht
  have hn := congrArg (fun ds => Nat.ofDigitChars 10 ds 0) hd
  simp only [Nat.ofDigitChars_ten_toDigits] at hn
  exact ⟨String.toList_inj.mp hx, hn⟩

theorem ids_numbered (earlier : List String) (es : List Entry) :
    (numbered earlier es).map (·.id) = numberedIds earlier (es.map (·.id)) := by
  induction es generalizing earlier with
  | nil => rfl
  | cons e es ih => simp [numbered, numberedIds, ih, suffixed]

theorem ids_parts (d : Doclet) :
    (Entry.ofDoclet d).parts.map (·.id) =
      d.longname :: if d.kind = .classKind ∧ d.tags.hideConstructor = false then
        [d.longname ++ "()"] else [] := by
  by_cases hk : d.kind = .classKind <;> by_cases hh : d.tags.hideConstructor = false <;>
    simp [Entry.parts, Entry.ofDoclet, Entry.classPart, Entry.constructorPart, hk, hh]

theorem map_zipIdx_fst {α β : Type} (f : α → β) (xs : List α) :
    xs.zipIdx.map (fun p => f p.1) = xs.map f := by
  change xs.zipIdx.map (f ∘ Prod.fst) = xs.map f
  rw [← List.map_map, List.zipIdx_map_fst]

theorem ids_ofDoclets (showPrivate : Bool) (doclets : List Doclet) :
    (ofDoclets showPrivate doclets).map (·.id) = numberedIds [] (draftIds showPrivate doclets) := by
  simp only [ofDoclets, List.map_map]
  rw [show ∀ modules, ((fun e : Entry => e.id) ∘ fun p : Entry × Nat =>
      { p.1 with order := UInt64.ofNat p.2, isExported := isExport modules p.1 }) =
      fun p => p.1.id from fun _ => rfl, map_zipIdx_fst, ids_numbered, List.map_flatMap]
  simp only [ids_parts, draftIds]

theorem count_shift (id x : String) (earlier ids : List String) :
    (id :: earlier).count x + ids.count x = earlier.count x + (id :: ids).count x := by
  simp only [List.count_cons]
  omega

theorem count_lt_iff (id x : String) (earlier : List String) (n : Nat) :
    earlier.count x < n ↔
      (x = id ∧ n = earlier.count id + 1) ∨ (id :: earlier).count x < n := by
  by_cases hx : x = id
  · subst hx
    simp only [List.count_cons_self, true_and]
    omega
  · simp [List.count_cons_of_ne (Ne.symm hx), hx]

def Makes (earlier ids : List String) (made : String) : Prop :=
  (made ∈ ids ∧ made ∉ earlier) ∨
    ∃ id n, 2 ≤ n ∧ earlier.count id < n ∧ n ≤ earlier.count id + ids.count id ∧
      made = suffixed id n

section Cons

variable {id made : String} {earlier ids : List String}

theorem makes_cons_of_fresh (hid : id ∉ earlier) :
    Makes earlier (id :: ids) made ↔ made = id ∨ Makes (id :: earlier) ids made := by
  have hlater (x : String) (n : Nat) (hn : 2 ≤ n) :
      (id :: earlier).count x < n ↔ earlier.count x < n := by
    rw [count_lt_iff id x earlier n, List.count_eq_zero.mpr hid]
    omega
  simp only [Makes, count_shift]
  constructor
  · rintro (⟨hm, he⟩ | ⟨x, n, hn, hlt, hle, rfl⟩)
    · by_cases hmade : made = id
      · exact .inl hmade
      · exact .inr (.inl ⟨(List.mem_cons.mp hm).resolve_left hmade, by simp [hmade, he]⟩)
    · exact .inr (.inr ⟨x, n, hn, (hlater x n hn).mpr hlt, hle, rfl⟩)
  · rintro (rfl | ⟨hm, he⟩ | ⟨x, n, hn, hlt, hle, rfl⟩)
    · exact .inl ⟨List.mem_cons_self, hid⟩
    · exact .inl ⟨List.mem_cons_of_mem _ hm, fun h => he (List.mem_cons_of_mem _ h)⟩
    · exact .inr ⟨x, n, hn, (hlater x n hn).mp hlt, hle, rfl⟩

theorem makes_cons_of_used (hid : id ∈ earlier) :
    Makes earlier (id :: ids) made ↔
      made = suffixed id (earlier.count id + 1) ∨ Makes (id :: earlier) ids made := by
  have hpos : 0 < earlier.count id := List.count_pos_iff.mpr hid
  simp only [Makes, count_shift]
  constructor
  · rintro (⟨hm, he⟩ | ⟨x, n, hn, hlt, hle, rfl⟩)
    · have hmade : made ≠ id := fun h => he (h ▸ hid)
      exact .inr (.inl ⟨(List.mem_cons.mp hm).resolve_left hmade, by simp [hmade, he]⟩)
    · rcases (count_lt_iff id x earlier n).mp hlt with ⟨rfl, rfl⟩ | hlt
      · exact .inl rfl
      · exact .inr (.inr ⟨x, n, hn, hlt, hle, rfl⟩)
  · rintro (rfl | ⟨hm, he⟩ | ⟨x, n, hn, hlt, hle, rfl⟩)
    · refine .inr ⟨id, earlier.count id + 1, by omega, by omega, ?_, rfl⟩
      rw [List.count_cons_self]
      omega
    · exact .inl ⟨List.mem_cons_of_mem _ hm, fun h => he (List.mem_cons_of_mem _ h)⟩
    · exact .inr ⟨x, n, hn, (count_lt_iff id x earlier n).mpr (.inr hlt), hle, rfl⟩

end Cons

theorem mem_numberedIds {earlier ids : List String} {made : String} :
    made ∈ numberedIds earlier ids ↔ Makes earlier ids made := by
  induction ids generalizing earlier with
  | nil =>
    simp only [numberedIds, Makes, List.not_mem_nil, false_and, List.count_nil, false_or,
      false_iff, not_exists, not_and]
    intro id n _ hlt hle
    omega
  | cons id ids ih =>
    rw [numberedIds, List.mem_cons, ih]
    by_cases hid : id ∈ earlier
    · rw [if_neg (Nat.ne_zero_of_lt (List.count_pos_iff.mpr hid)), makes_cons_of_used hid]
    · rw [if_pos (List.count_eq_zero.mpr hid), makes_cons_of_fresh hid]

/-- No use of an id from the second on is numbered into an id that is itself made for the first
time here. -/
def Apart (earlier ids : List String) : Prop :=
  ∀ id n, 2 ≤ n → earlier.count id < n → n ≤ earlier.count id + ids.count id →
    suffixed id n ∈ ids → suffixed id n ∈ earlier

section Cons

variable {id : String} {earlier ids : List String}

theorem Apart.tail (h : Apart earlier (id :: ids)) : Apart (id :: earlier) ids := by
  intro x n hn hlt hle hm
  have hlt' := (count_lt_iff id x earlier n).mpr (.inr hlt)
  have hle' := count_shift id x earlier ids ▸ hle
  exact List.mem_cons_of_mem _ (h x n hn hlt' hle' (List.mem_cons_of_mem _ hm))

theorem apart_cons_of_fresh (hid : id ∉ earlier) :
    Apart earlier (id :: ids) ↔ ¬ Makes (id :: earlier) ids id ∧ Apart (id :: earlier) ids := by
  constructor
  · intro hapart
    refine ⟨?_, hapart.tail⟩
    rintro (⟨-, hnot⟩ | ⟨x, n, hn, hlt, hle, hx⟩)
    · exact hnot List.mem_cons_self
    · have hlt' := (count_lt_iff id x earlier n).mpr (.inr hlt)
      have hmem := hapart x n hn hlt' (count_shift id x earlier ids ▸ hle)
        (hx ▸ List.mem_cons_self)
      exact hid (hx ▸ hmem)
  · rintro ⟨hhead, htail⟩ x n hn hlt hle hm
    have hle' := count_shift id x earlier ids ▸ hle
    have hlt' : (id :: earlier).count x < n := by
      rcases (count_lt_iff id x earlier n).mp hlt with ⟨-, rfl⟩ | hlt'
      · rw [List.count_eq_zero.mpr hid] at hn
        omega
      · exact hlt'
    have hne : suffixed x n ≠ id := fun hx => hhead (.inr ⟨x, n, hn, hlt', hle', hx.symm⟩)
    have hmem := htail x n hn hlt' hle' ((List.mem_cons.mp hm).resolve_left hne)
    exact (List.mem_cons.mp hmem).resolve_left hne

theorem apart_cons_of_used (hid : id ∈ earlier) :
    Apart earlier (id :: ids) ↔
      ¬ Makes (id :: earlier) ids (suffixed id (earlier.count id + 1)) ∧
        Apart (id :: earlier) ids := by
  have hpos : 0 < earlier.count id := List.count_pos_iff.mpr hid
  constructor
  · intro hapart
    refine ⟨?_, hapart.tail⟩
    rintro (⟨hm, hnot⟩ | ⟨x, n, -, hlt, -, hx⟩)
    · refine hnot (List.mem_cons_of_mem _ ?_)
      refine hapart id _ (by omega) (by omega) ?_ (List.mem_cons_of_mem _ hm)
      rw [List.count_cons_self]
      omega
    · obtain ⟨rfl, rfl⟩ := suffixed_inj hx
      rw [List.count_cons_self] at hlt
      omega
  · rintro ⟨hhead, htail⟩ x n hn hlt hle hm
    -- Only the next use of `id` gets the number at hand; any other lies beyond it.
    by_cases hx : suffixed x n = id
    · exact hx ▸ hid
    have hids := (List.mem_cons.mp hm).resolve_left hx
    rcases (count_lt_iff id x earlier n).mp hlt with ⟨rfl, rfl⟩ | hlt'
    · by_contra he
      exact hhead (.inl ⟨hids, by simp [hx, he]⟩)
    · have hmem := htail x n hn hlt' (count_shift id x earlier ids ▸ hle) hids
      exact (List.mem_cons.mp hmem).resolve_left hx

end Cons

theorem numberedIds_nodup_iff (earlier ids : List String) :
    (numberedIds earlier ids).Nodup ↔ Apart earlier ids := by
  induction ids generalizing earlier with
  | nil =>
    simp only [numberedIds, List.nodup_nil, true_iff, Apart]
    intro id n _ _ _ hm
    exact absurd hm List.not_mem_nil
  | cons id ids ih =>
    rw [numberedIds, List.nodup_cons, ih, mem_numberedIds]
    by_cases hid : id ∈ earlier
    · rw [if_neg (Nat.ne_zero_of_lt (List.count_pos_iff.mpr hid)), apart_cons_of_used hid]
    · rw [if_pos (List.count_eq_zero.mpr hid), apart_cons_of_fresh hid]

/-- An id is repeated only where an entry is made with the id that another gets by its number. -/
theorem ids_nodup_iff (showPrivate : Bool) (doclets : List Doclet) :
    ((ofDoclets showPrivate doclets).map (·.id)).Nodup ↔
      ∀ id n, 2 ≤ n → n ≤ (draftIds showPrivate doclets).count id →
        suffixed id n ∉ draftIds showPrivate doclets := by
  rw [ids_ofDoclets, numberedIds_nodup_iff]
  constructor
  · intro hapart id n hn hle hm
    have hmem := hapart id n hn (by simp; omega) (by simpa using hle) hm
    exact absurd hmem List.not_mem_nil
  · intro hnone id n hn _ hle hm
    exact absurd hm (hnone id n hn (by simpa using hle))

theorem ids_not_nodup :
    ¬ ((ofDoclets false [{ longname := "a" }, { longname := "a" }, { longname := "a_2" }]).map
      (·.id)).Nodup := by
  decide +kernel

end ApiPages.Catalogue
