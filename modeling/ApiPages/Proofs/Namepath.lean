import ApiPages.Namepath

/-!
Namepaths put together and taken apart. Reading goes from the left and keeps whether a quote is
open; the last separator that stands outside quotes parts the path. Main statement: a parent that
closes its quotes, a separator and a child without one outside quotes are found again.
-/
namespace ApiPages.Namepath

def quotedAfter (quoted : Bool) (cs : List Char) : Bool := quoted != (cs.count '"' % 2 == 1)

@[simp] theorem quotedAfter_nil (quoted : Bool) : quotedAfter quoted [] = quoted := by
  cases quoted <;> rfl

theorem quotedAfter_cons (quoted : Bool) (c : Char) (cs : List Char) :
    quotedAfter quoted (c :: cs) = quotedAfter (quoted != (c == '"')) cs := by
  by_cases hc : c = '"'
  · have hodd : ((cs.count '"' + 1) % 2 == 1) = !(cs.count '"' % 2 == 1) := by
      rcases Nat.mod_two_eq_zero_or_one (cs.count '"') with h | h <;> simp [Nat.add_mod, h]
    simp only [quotedAfter, hc, List.count_cons_self, hodd, beq_self_eq_true]
    cases quoted <;> cases cs.count '"' % 2 == 1 <;> rfl
  · have hbeq : (c == '"') = false := beq_eq_false_iff_ne.mpr hc
    simp [quotedAfter, hc, hbeq]

def Undivided (quoted : Bool) (cs : List Char) : Prop :=
  ∀ before c after, cs = before ++ c :: after → quotedAfter quoted before = false →
    scopeOf? c = none

theorem undivided_cons {quoted : Bool} {c : Char} {cs : List Char} :
    Undivided quoted (c :: cs) ↔
      (quoted = false → scopeOf? c = none) ∧ Undivided (quoted != (c == '"')) cs := by
  constructor
  · intro h
    refine ⟨fun hq => h [] c cs rfl (by simpa using hq), fun before x after hcs hq => ?_⟩
    exact h (c :: before) x after (by rw [hcs, List.cons_append]) (by rwa [quotedAfter_cons])
  · rintro ⟨hhead, htail⟩ before x after hcs hq
    cases before with
    | nil =>
      obtain ⟨rfl, -⟩ := List.cons.inj hcs
      exact hhead (by simpa using hq)
    | cons y before =>
      obtain ⟨rfl, hrest⟩ := List.cons.inj hcs
      exact htail before x after hrest (by rwa [quotedAfter_cons] at hq)

theorem lastSeparator?_eq_none_iff {quoted : Bool} {cs : List Char} :
    lastSeparator? quoted cs = none ↔ Undivided quoted cs := by
  induction cs generalizing quoted with
  | nil => simp [lastSeparator?, Undivided]
  | cons c cs ih =>
    rw [undivided_cons, ← ih, lastSeparator?]
    cases lastSeparator? (quoted != (c == '"')) cs with
    | some found => simp
    | none => cases quoted <;> simp

theorem lastSeparator?_append (quoted : Bool) {parent path child rest : List Char} {scope : Scope}
    (h : lastSeparator? (quotedAfter quoted parent) path = some (rest, scope, child)) :
    lastSeparator? quoted (parent ++ path) = some (parent ++ rest, scope, child) := by
  induction parent generalizing quoted with
  | nil => simpa using h
  | cons c parent ih =>
    rw [quotedAfter_cons] at h
    simp only [List.cons_append, lastSeparator?, ih _ h]

theorem scopeOf?_ne_global (c : Char) : scopeOf? c ≠ some .globalScope := by
  simp only [scopeOf?]
  repeat' split
  all_goals simp

theorem scope_of_lastSeparator? {quoted : Bool} {path parent child : List Char} {scope : Scope}
    (h : lastSeparator? quoted path = some (parent, scope, child)) : scope ≠ .globalScope := by
  induction path generalizing quoted parent with
  | nil => simp [lastSeparator?] at h
  | cons c cs ih =>
    simp only [lastSeparator?] at h
    cases hrest : lastSeparator? (quoted != (c == '"')) cs with
    | some found =>
      simp only [hrest, Option.some.injEq, Prod.mk.injEq] at h
      obtain ⟨-, rfl, rfl⟩ := h
      exact ih hrest
    | none =>
      simp only [hrest] at h
      split at h
      · cases h
      · obtain ⟨s, hs, heq⟩ := Option.map_eq_some_iff.mp h
        obtain ⟨-, rfl, -⟩ := heq
        rintro rfl
        exact scopeOf?_ne_global c hs

theorem split?_eq_some {path parent child : List Char} {scope : Scope}
    (h : split? path = some (parent, scope, child)) :
    parent ≠ [] ∧ child ≠ [] ∧ scope ≠ .globalScope := by
  rw [split?] at h
  split at h
  next parent' scope' child' hlast =>
    split at h
    · cases h
    · rename_i hne
      obtain ⟨rfl, rfl, rfl⟩ : parent' = parent ∧ scope' = scope ∧ child' = child := by
        simpa using h
      exact ⟨fun hp => hne (.inl hp), fun hc => hne (.inr hc), scope_of_lastSeparator? hlast⟩
  next => cases h

theorem exists_separator {scope : Scope} (h : scope ≠ .globalScope) :
    ∃ c, scope.separator.toList = [c] ∧ scopeOf? c = some scope ∧ c ≠ '"' := by
  cases scope
  case globalScope => exact absurd rfl h
  all_goals exact ⟨_, rfl, rfl, by decide⟩

theorem split?_joined {parent child : List Char} {scope : Scope} (hparent : parent ≠ [])
    (hquotes : quotedAfter false parent = false) (hscope : scope ≠ .globalScope)
    (hchild : child ≠ []) (hwhole : Undivided false child) :
    split? (parent ++ scope.separator.toList ++ child) = some (parent, scope, child) := by
  obtain ⟨c, hsep, hc, hquote⟩ := exists_separator hscope
  have hlast : lastSeparator? (quotedAfter false parent) (c :: child) = some ([], scope, child) := by
    have hbeq : (c == '"') = false := beq_eq_false_iff_ne.mpr hquote
    rw [hquotes]
    simp [lastSeparator?, hbeq, lastSeparator?_eq_none_iff.mpr hwhole, hc]
  have hjoined := lastSeparator?_append false hlast
  rw [hsep, List.append_assoc, List.singleton_append, split?, hjoined]
  simp [hparent, hchild]

end ApiPages.Namepath
