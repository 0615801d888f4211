import ApiPages.Text.Line

/-!
Characters by their code points: letters and digits, none of which is a blank, and ranges of them.
-/
namespace ApiPages.Text

variable {c : Char}

theorem toNat_bounds {low high : Char} (h : low ≤ c ∧ c ≤ high) :
    low.toNat ≤ c.toNat ∧ c.toNat ≤ high.toNat :=
  ⟨UInt32.le_iff_toNat_le.mp h.1, UInt32.le_iff_toNat_le.mp h.2⟩

theorem toNat_of_isAlpha (h : c.isAlpha = true) : 65 ≤ c.toNat ∧ c.toNat ≤ 122 := by
  have hranges : ('A' ≤ c ∧ c ≤ 'Z') ∨ ('a' ≤ c ∧ c ≤ 'z') := by
    rcases Bool.or_eq_true_iff.mp h with hupper | hlower
    · exact .inl (of_decide_eq_true hupper)
    · obtain ⟨hlow, hhigh⟩ := Bool.and_eq_true_iff.mp hlower
      exact .inr ⟨of_decide_eq_true hlow, of_decide_eq_true hhigh⟩
  rcases hranges with h | h
  · exact ⟨(toNat_bounds h).1, Nat.le_trans (toNat_bounds h).2 (by decide)⟩
  · exact ⟨Nat.le_trans (by decide) (toNat_bounds h).1, (toNat_bounds h).2⟩

theorem toNat_of_isAlphanum (h : c.isAlphanum = true) : 48 ≤ c.toNat ∧ c.toNat ≤ 122 := by
  rcases Bool.or_eq_true_iff.mp h with halpha | hdigit
  · obtain ⟨hlow, hhigh⟩ := toNat_of_isAlpha halpha
    exact ⟨Nat.le_trans (by decide) hlow, hhigh⟩
  · obtain ⟨hlow, hhigh⟩ := Bool.and_eq_true_iff.mp hdigit
    have hrange : '0' ≤ c ∧ c ≤ '9' := ⟨of_decide_eq_true hlow, of_decide_eq_true hhigh⟩
    exact ⟨(toNat_bounds hrange).1, Nat.le_trans (toNat_bounds hrange).2 (by decide)⟩

theorem isBlank_of_isAlphanum (h : c.isAlphanum = true) : isBlank c = false := by
  obtain ⟨hlow, hhigh⟩ := toNat_of_isAlphanum h
  have hall : ∀ n < 123, 48 ≤ n → isBlank (Char.ofNat n) = false := by decide +kernel
  simpa only [Char.ofNat_toNat] using hall c.toNat (Nat.lt_succ_of_le hhigh) hlow

theorem of_covered {ranges : List (Nat × Nat)} {p : Nat → Bool} {n : Nat}
    (h : covered ranges n = true)
    (hall : (ranges.all fun r => (List.range' r.1 (r.2 + 1 - r.1)).all p) = true) : p n = true := by
  obtain ⟨r, hr, hn⟩ := List.any_eq_true.mp h
  rw [Bool.and_eq_true, decide_eq_true_eq, decide_eq_true_eq] at hn
  refine List.all_eq_true.mp (List.all_eq_true.mp hall r hr) n ?_
  rw [List.mem_range'_1]
  omega

end ApiPages.Text
