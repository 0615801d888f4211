import ApiPages.Proofs.Source.ClassLine

/-!
The scope that a line of code asks for. Whatever a line declares is static, belongs to an instance
or has no scope of its own: only a tag puts an identifier at the top.
-/
namespace ApiPages.Source.Declaration

variable {code owner : List Char} {d : Declaration}

theorem scope_withValue (d : Declaration) (rhs : List Char) (fallback : Kind) :
    (d.withValue rhs fallback).scope = d.scope := by
  obtain ⟨kind, -, async, generator, literal, heq⟩ := exists_withValue d rhs fallback
  rw [heq]

theorem memberScope_ne_global (static : Bool) : memberScope static ≠ .globalScope := by
  cases static <;> decide

def Sited (d : Declaration) : Prop := d.scope ≠ some .globalScope

theorem Sited.of_none (h : d.scope = none) : d.Sited := by
  rw [Sited, h]
  simp

theorem Sited.withValue (h : d.Sited) (rhs : List Char) (fallback : Kind) :
    (d.withValue rhs fallback).Sited := by
  rwa [Sited, scope_withValue]

theorem IsMember.sited (h : d.IsMember owner) : d.Sited := by
  obtain ⟨static, hscope⟩ := h.scope
  rw [Sited, hscope, Ne, Option.some.injEq]
  exact memberScope_ne_global static

theorem sited_of_thisMember? (h : thisMember? owner code = some d) : d.Sited := by
  simp only [thisMember?, bind, pure, Option.bind_eq_some_iff] at h
  obtain ⟨_, -, _, -, _, -, h⟩ := h
  obtain rfl := Option.some.inj h
  exact Sited.withValue (by simp [Sited]) _ _

theorem sited_of_function? (h : function? code = some d) : d.Sited := by
  simp only [function?, bind, pure, Option.bind_eq_some_iff] at h
  obtain ⟨_, -, _, -, h⟩ := h
  obtain rfl := Option.some.inj h
  exact .of_none rfl

theorem sited_of_class? (h : class? code = some d) : d.Sited := by
  simp only [class?, bind, pure, Option.bind_eq_some_iff] at h
  obtain ⟨_, -, _, -, h⟩ := h
  obtain rfl := Option.some.inj h
  exact .of_none rfl

theorem sited_of_binding? (h : binding? code = some d) : d.Sited := by
  simp only [binding?, bind, pure] at h
  split at h
  all_goals
    simp only [Option.bind_eq_some_iff] at h
    obtain ⟨_, -, _, -, h⟩ := h
    split at h
    · obtain rfl := Option.some.inj h
      exact Sited.withValue (.of_none rfl) _ _
    · split at h
      · obtain rfl := Option.some.inj h
        exact .of_none rfl
      · cases h

theorem sited_of_exportsMember? (h : exportsMember? code = some d) : d.Sited := by
  simp only [exportsMember?, bind, pure, Option.bind_eq_some_iff] at h
  obtain ⟨_, -, _, -, _, -, h⟩ := h
  obtain rfl := Option.some.inj h
  exact Sited.withValue (.of_none rfl) _ _

theorem sited_of_prototypeMember? (h : prototypeMember? code = some d) : d.Sited := by
  simp only [prototypeMember?, bind, Option.bind_eq_some_iff] at h
  obtain ⟨_, -, h⟩ := h
  split at h
  · split at h
    · obtain rfl := Option.some.inj h
      exact Sited.withValue (by simp [Sited]) _ _
    · cases h
  · cases h

theorem sited_of_assignment? (h : assignment? code = some d) : d.Sited := by
  simp only [assignment?, bind, Option.bind_eq_some_iff] at h
  obtain ⟨_, -, h⟩ := h
  split at h
  · split at h
    · cases h
    · obtain rfl := Option.some.inj h
      exact Sited.withValue (.of_none rfl) _ _
    · split at h
      · obtain rfl := Option.some.inj h
        exact .of_none rfl
      · obtain rfl := Option.some.inj h
        exact Sited.withValue (by simp [Sited]) _ _
  · cases h

theorem sited_ofPlainLine (code : List Char) : (ofPlainLine code).Sited := by
  simp only [ofPlainLine]
  generalize (withoutExport code).2 = rest
  change ((((function? rest).or _).getD {} : Declaration)).Sited
  cases hread : (function? rest).or ((class? rest).or ((binding? rest).or
      ((exportsMember? rest).or ((prototypeMember? rest).or (assignment? rest))))) with
  | none => exact .of_none rfl
  | some d =>
    simp only [Option.or_eq_some_iff] at hread
    rcases hread with h | ⟨-, h | ⟨-, h | ⟨-, h | ⟨-, h | ⟨-, h⟩⟩⟩⟩⟩
    · exact sited_of_function? h
    · exact sited_of_class? h
    · exact sited_of_binding? h
    · exact sited_of_exportsMember? h
    · exact sited_of_prototypeMember? h
    · exact sited_of_assignment? h

theorem sited_of_ofClassLine? {e : Enclosing} (h : ofClassLine? e code = some d)
    (hplain : d.isConstructor = false) : d.Sited := by
  cases hdirect : e.direct with
  | true =>
    have he : e = { name := e.name, direct := true } := by rw [← hdirect]
    rw [he] at h
    exact (isMember_of_ofClassLine? h hplain).sited
  | false =>
    rw [ofClassLine?, if_neg (by simp [hdirect])] at h
    exact sited_of_thisMember? h

theorem sited_ofLine (e : Option Enclosing) (code : List Char)
    (hplain : (ofLine e code).isConstructor = false) : (ofLine e code).Sited := by
  rw [ofLine] at hplain ⊢
  cases hclass : e.bind fun e => ofClassLine? e code with
  | none => exact sited_ofPlainLine code
  | some d =>
    obtain ⟨e, -, hline⟩ := Option.bind_eq_some_iff.mp hclass
    rw [hclass, Option.getD_some] at hplain
    exact sited_of_ofClassLine? hline hplain

end ApiPages.Source.Declaration
