import Mathlib.Data.List.TakeDrop
import Mathlib.Data.List.TakeWhile
import ApiPages.Proofs.Text.Letters
import ApiPages.Source.Declaration

/-!
What a line of a class body declares. A method or a field is a member of the class by the name that
the body was opened with, is static or belongs to the instance, and has a plain name that may be
marked private.
-/
namespace ApiPages.Source

theorem isNamePart_of_isNameStart {c : Char} (h : isNameStart c = true) : isNamePart c = true := by
  simp only [isNameStart, isNamePart, Bool.or_eq_true, beq_iff_eq] at h ⊢
  rcases h with (halpha | rfl) | rfl
  · left
    have hascii : c.toNat < 0x80 := Nat.lt_of_le_of_lt (Text.toNat_of_isAlpha halpha).2 (by decide)
    simp [Text.isWordChar, hascii, Char.isAlphanum, halpha]
  · exact .inl (by decide)
  · exact .inr rfl

theorem name?_eq_some {cs name rest : List Char} (h : name? cs = some (name, rest)) :
    ∃ c part, name = c :: part ∧ isNameStart c = true ∧ ∀ x ∈ part, isNamePart x = true := by
  cases cs with
  | nil => cases h
  | cons c cs =>
    simp only [name?] at h
    split at h
    · rename_i hc
      simp only [Option.some.injEq, Prod.mk.injEq, List.span_eq_takeWhile_dropWhile] at h
      exact ⟨c, _, h.1.symm, hc, fun x hx => List.mem_takeWhile_imp hx⟩
    · cases h

namespace Declaration

def IsMemberName (name : List Char) : Prop :=
  ∃ c part, name = c :: part ∧ (c = '#' ∨ isNameStart c = true) ∧ ∀ x ∈ part, isNamePart x = true

theorem memberName?_eq_some {cs name rest : List Char} (h : memberName? cs = some (name, rest)) :
    IsMemberName name := by
  simp only [memberName?] at h
  split at h
  · obtain ⟨⟨plain, rest'⟩, hplain, heq⟩ := Option.map_eq_some_iff.mp h
    obtain ⟨rfl, -⟩ := Prod.mk.inj heq
    obtain ⟨c, part, rfl, hc, hpart⟩ := name?_eq_some hplain
    exact ⟨'#', c :: part, rfl, .inl rfl,
      List.forall_mem_cons.mpr ⟨isNamePart_of_isNameStart hc, hpart⟩⟩
  · obtain ⟨c, part, rfl, hc, hpart⟩ := name?_eq_some h
    exact ⟨c, part, rfl, .inr hc, hpart⟩

structure IsMember (owner : List Char) (d : Declaration) : Prop where
  name : IsMemberName d.name
  parent : d.parent = some owner
  scope : ∃ static, d.scope = some (memberScope static)
  kind : d.kind = some .function ∨ d.kind = some .classKind ∨ d.kind = some .member

theorem exists_withValue (d : Declaration) (rhs : List Char) (fallback : Kind) :
    ∃ kind ∈ [Kind.function, .classKind, fallback], ∃ async generator literal,
      d.withValue rhs fallback =
        { d with kind := some kind, async := async, generator := generator, literal := literal } := by
  simp only [Declaration.withValue]
  split
  · exact ⟨.function, by simp, _, _, _, rfl⟩
  · split
    · exact ⟨.function, by simp, _, _, _, rfl⟩
    · split
      · exact ⟨.classKind, by simp, _, _, _, rfl⟩
      · exact ⟨fallback, by simp, _, _, _, rfl⟩

theorem IsMember.withValue {owner : List Char} {d : Declaration} (hname : IsMemberName d.name)
    (hparent : d.parent = some owner) (hscope : ∃ static, d.scope = some (memberScope static))
    (rhs : List Char) : IsMember owner (d.withValue rhs .member) := by
  obtain ⟨kind, hkind, async, generator, literal, heq⟩ := exists_withValue d rhs .member
  rw [heq]
  refine ⟨hname, hparent, hscope, ?_⟩
  simpa using hkind

theorem isMember_of_method? {owner code : List Char} {d : Declaration}
    (h : method? owner code = some d) (hplain : d.isConstructor = false) : IsMember owner d := by
  have hmem := List.mem_of_mem_head? (Option.mem_def.mpr h)
  obtain ⟨⟨static, cs⟩, -, hmem⟩ := List.mem_flatMap.mp hmem
  obtain ⟨⟨async, cs⟩, -, hmem⟩ := List.mem_flatMap.mp hmem
  obtain ⟨⟨generator, cs⟩, -, hmem⟩ := List.mem_flatMap.mp hmem
  obtain ⟨⟨accessor, cs⟩, -, hmem⟩ := List.mem_flatMap.mp hmem
  obtain ⟨⟨name, cs⟩, hname, hmem⟩ := List.mem_flatMap.mp hmem
  have hname := memberName?_eq_some (Option.mem_toList.mp hname)
  simp only at hmem
  split at hmem
  · exact absurd hmem List.not_mem_nil
  split at hmem
  · rw [List.mem_singleton.mp hmem] at hplain
    cases hplain
  · rw [List.mem_singleton.mp hmem]
    refine ⟨hname, rfl, ⟨static, rfl⟩, ?_⟩
    cases accessor with
    | true => exact .inr (.inr rfl)
    | false => exact .inl rfl

theorem isMember_of_field? {owner code : List Char} {d : Declaration}
    (h : field? owner code = some d) : IsMember owner d := by
  have hmem := List.mem_of_mem_head? (Option.mem_def.mpr h)
  obtain ⟨⟨static, cs⟩, -, hmem⟩ := List.mem_flatMap.mp hmem
  obtain ⟨⟨name, cs⟩, hname, hmem⟩ := List.mem_flatMap.mp hmem
  have hname := memberName?_eq_some (Option.mem_toList.mp hname)
  simp only at hmem
  split at hmem
  · rw [List.mem_singleton.mp hmem]
    exact .withValue hname rfl ⟨static, rfl⟩ _
  · split at hmem
    · rw [List.mem_singleton.mp hmem]
      exact ⟨hname, rfl, ⟨static, rfl⟩, .inr (.inr rfl)⟩
    · exact absurd hmem List.not_mem_nil

theorem isMember_of_ofClassLine? {owner code : List Char} {d : Declaration}
    (h : ofClassLine? { name := owner, direct := true } code = some d)
    (hplain : d.isConstructor = false) : IsMember owner d := by
  rw [ofClassLine?, if_pos rfl, Option.or_eq_some_iff] at h
  rcases h with h | ⟨-, h⟩
  · exact isMember_of_method? h hplain
  · exact isMember_of_field? h

end Declaration

end ApiPages.Source
