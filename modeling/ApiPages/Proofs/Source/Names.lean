import Mathlib.Data.List.TakeDrop
import ApiPages.Proofs.Source.ClassLine
import ApiPages.Proofs.Text.Cutting

/-!
Names and words at the head of a line. A name goes as far as its characters do, so what stands
behind it is no part of it; a word is read only with a blank behind it, and the blanks go with it.
-/
namespace ApiPages.Source

variable {cs name rest word : List Char}

theorem isNamePart_of_isBlank {c : Char} (h : Text.isBlank c = true) : isNamePart c = false := by
  have hpart := Text.of_covered (p := fun n => !isNamePart (Char.ofNat n)) h (by decide +kernel)
  rwa [Char.ofNat_toNat, Bool.not_eq_true'] at hpart

theorem isBlank_of_isNamePart {c : Char} (h : isNamePart c = true) : Text.isBlank c = false := by
  by_contra hblank
  rw [Bool.not_eq_false] at hblank
  rw [isNamePart_of_isBlank hblank] at h
  cases h

theorem isName_cons {c : Char} :
    isName (c :: cs) = true ↔ isNameStart c = true ∧ ∀ x ∈ cs, isNamePart x = true := by
  rw [isName, Bool.and_eq_true, List.all_eq_true]

theorem isNamePart_of_mem {c : Char} (h : isName name = true) (hc : c ∈ name) :
    isNamePart c = true := by
  obtain ⟨first, more, rfl⟩ := List.exists_cons_of_ne_nil (List.ne_nil_of_mem hc)
  obtain ⟨hfirst, hmore⟩ := isName_cons.mp h
  rcases List.mem_cons.mp hc with rfl | hc
  · exact isNamePart_of_isNameStart hfirst
  · exact hmore c hc

theorem name?_append (h : isName name = true) (hrest : ∀ c ∈ rest.head?, isNamePart c = false) :
    name? (name ++ rest) = some (name, rest) := by
  cases name with
  | nil => cases h
  | cons c name =>
    obtain ⟨hc, hname⟩ := isName_cons.mp h
    simp only [List.cons_append, name?, hc, if_true, Text.span_append hname hrest]

theorem eq_append_of_name? (h : name? cs = some (name, rest)) :
    cs = name ++ rest ∧ isName name = true := by
  cases cs with
  | nil => cases h
  | cons c cs =>
    simp only [name?] at h
    split at h
    · next hc =>
      simp only [Option.some.injEq, Prod.mk.injEq, List.span_eq_takeWhile_dropWhile] at h
      obtain ⟨rfl, rfl⟩ := h
      rw [List.cons_append, List.takeWhile_append_dropWhile]
      exact ⟨rfl, isName_cons.mpr ⟨hc, fun x hx => List.mem_takeWhile_imp hx⟩⟩
    · cases h

theorem name?_eq_none {c : Char} (h : isNameStart c = false) : name? (c :: cs) = none := by
  simp [name?, h]

theorem trimStart_name (h : isName name = true) (behind : List Char) :
    Text.trimStart (name ++ behind) = name ++ behind := by
  obtain ⟨c, more, rfl⟩ := List.exists_cons_of_ne_nil (l := name) (by rintro rfl; cases h)
  refine Text.trimStart_eq_self_iff.mpr fun d hd => ?_
  obtain rfl := Option.some.inj hd
  exact isBlank_of_isNamePart (isNamePart_of_mem h List.mem_cons_self)

theorem afterWord?_eq_some (h : afterWord? word cs = some rest) :
    ∃ c behind, cs = word ++ c :: behind ∧ Text.isBlank c = true ∧ rest = Text.trimStart behind := by
  rw [afterWord?] at h
  split at h
  · next c behind hafter =>
    split at h
    · next hblank =>
      exact ⟨c, behind, Text.after?_eq_some_iff.mp hafter, hblank, (Option.some.inj h).symm⟩
    · cases h
  · cases h

section Suffixes

variable {rhs : List Char}

theorem suffix_of_after? (h : Text.after? word cs = some rest) : rest <:+ cs :=
  ⟨word, (Text.after?_eq_some_iff.mp h).symm⟩

theorem suffix_of_afterWord? (h : afterWord? word cs = some rest) : rest <:+ cs := by
  obtain ⟨c, behind, rfl, -, rfl⟩ := afterWord?_eq_some h
  refine (List.dropWhile_suffix Text.isBlank).trans ((List.suffix_cons c behind).trans ?_)
  exact List.suffix_append word (c :: behind)

theorem suffix_of_name? {named : List Char × List Char} (h : name? cs = some named) :
    named.2 <:+ cs :=
  ⟨named.1, (eq_append_of_name? h).1.symm⟩

theorem suffix_of_assigned? (h : assigned? cs = some rhs) : rhs <:+ cs := by
  rw [assigned?] at h
  split at h
  · next behind hstart =>
    obtain rfl := Option.some.inj h
    refine (List.dropWhile_suffix Text.isBlank).trans ((List.suffix_cons '=' behind).trans ?_)
    rw [← hstart]
    exact List.dropWhile_suffix Text.isBlank
  · cases h

theorem suffix_of_target? {target : List (List Char) × List Char}
    (h : Declaration.target? cs = some target) : target.2 <:+ cs := by
  simp only [Declaration.target?, List.span_eq_takeWhile_dropWhile, Option.map_eq_some_iff] at h
  obtain ⟨rhs, hrhs, rfl⟩ := h
  exact (suffix_of_assigned? hrhs).trans (List.dropWhile_suffix _)

theorem suffix_of_withoutExport (code : List Char) : (Declaration.withoutExport code).2 <:+ code := by
  rw [Declaration.withoutExport]
  cases hexport : afterWord? "export".toList code with
  | none => exact List.suffix_refl code
  | some rest =>
    have hrest := suffix_of_afterWord? hexport
    cases hdefault : afterWord? "default".toList rest with
    | none => simpa only [hdefault, Option.getD_none] using hrest
    | some behind =>
      simpa only [hdefault, Option.getD_some] using (suffix_of_afterWord? hdefault).trans hrest

end Suffixes

section FirstName

variable {first tail : List Char}

theorem eq_of_afterWord? (hfirst : isName first = true) (hstop : ∀ d ∈ tail.head?, isNamePart d = false)
    (hword : isName word = true) (h : afterWord? word (first ++ tail) = some rest) :
    word = first ∧ rest = Text.trimStart tail := by
  obtain ⟨c, behind, hline, hblank, rfl⟩ := afterWord?_eq_some h
  have hspan := Text.span_append (fun x hx => isNamePart_of_mem hfirst hx) hstop
  have hback := Text.span_append (b := c :: behind) (fun x hx => isNamePart_of_mem hword hx)
    (by simpa using isNamePart_of_isBlank hblank)
  rw [hline, hback, Prod.mk.injEq] at hspan
  refine ⟨hspan.1, ?_⟩
  rw [← hspan.2, Text.trimStart, Text.trimStart, List.dropWhile_cons_of_pos hblank]

theorem eq_of_dotted (word : List Char) (hfirst : isName first = true)
    (hstop : ∀ d ∈ tail.head?, isNamePart d = false) (hword : isName word = true)
    (h : Text.after? (word ++ ['.']) (first ++ tail) = some rest) : word = first := by
  rw [Text.after?_eq_some_iff, List.append_assoc, List.singleton_append] at h
  have hdot : ∀ c ∈ ('.' :: rest).head?, isNamePart c = false := by
    intro c hc
    obtain rfl := Option.some.inj hc
    decide
  have hspan := Text.span_append (fun x hx => isNamePart_of_mem hfirst hx) hstop
  rw [h, Text.span_append (fun x hx => isNamePart_of_mem hword hx) hdot, Prod.mk.injEq] at hspan
  exact hspan.1

end FirstName

namespace Declaration

theorem withValue_congr {rhs rhs' : List Char} (h : plainValue rhs = plainValue rhs')
    (d : Declaration) (fallback : Kind) : d.withValue rhs fallback = d.withValue rhs' fallback := by
  rw [withValue, withValue, h]

def bindingWords : List (List Char) := ["const".toList, "let".toList, "var".toList]

def bindingStart? (code : List Char) : Option (Kind × List Char) :=
  match afterWord? "const".toList code with
  | some rest => some (.constant, rest)
  | none =>
    ((afterWord? "let".toList code).or (afterWord? "var".toList code)).map fun rest =>
      (.member, rest)

theorem bindingStart?_eq_some {code : List Char} {fallback : Kind}
    (h : bindingStart? code = some (fallback, rest)) :
    ∃ word ∈ bindingWords, afterWord? word code = some rest := by
  rw [bindingStart?] at h
  split at h
  · next found hfound =>
    obtain ⟨-, rfl⟩ := Prod.mk.inj (Option.some.inj h)
    exact ⟨_, by decide, hfound⟩
  · obtain ⟨found, hfound, heq⟩ := Option.map_eq_some_iff.mp h
    obtain ⟨-, rfl⟩ := Prod.mk.inj heq
    rw [Option.or_eq_some_iff] at hfound
    rcases hfound with hfound | ⟨-, hfound⟩
    · exact ⟨_, by decide, hfound⟩
    · exact ⟨_, by decide, hfound⟩

theorem exists_bindingStart? {code : List Char} (hword : word ∈ bindingWords)
    (h : afterWord? word code = some rest) :
    ∃ fallback, bindingStart? code = some (fallback, rest) := by
  obtain ⟨c, behind, hcode, -, -⟩ := afterWord?_eq_some h
  simp only [bindingWords, List.mem_cons, List.not_mem_nil, or_false] at hword
  rcases hword with rfl | rfl | rfl
  · exact ⟨.constant, by rw [bindingStart?, h]⟩
  · have hconst : afterWord? "const".toList code = none := by rw [hcode]; rfl
    exact ⟨.member, by rw [bindingStart?, hconst, h]; rfl⟩
  · have hconst : afterWord? "const".toList code = none := by rw [hcode]; rfl
    have hlet : afterWord? "let".toList code = none := by rw [hcode]; rfl
    exact ⟨.member, by rw [bindingStart?, hconst, hlet, h]; rfl⟩

theorem binding?_eq (code : List Char) : binding? code =
    (bindingStart? code).bind fun start => (name? start.2).bind fun named =>
      match assigned? named.2 with
      | some rhs => some (({ name := named.1 : Declaration }).withValue rhs start.1)
      | none =>
        if Text.trimStart named.2 = [] then some { kind := some start.1, name := named.1 } else none := by
  rw [binding?, bindingStart?]
  cases afterWord? "const".toList code with
  | some rest => rfl
  | none => rfl

end Declaration

end ApiPages.Source
