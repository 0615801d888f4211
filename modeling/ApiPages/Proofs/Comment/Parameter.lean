import ApiPages.Comment.Value
import ApiPages.Proofs.Text.Cutting

/-!
Parameters as they are written: a type in braces, a name, which stands in brackets when it is
optional or has a default, and a description behind a dash. A closing bracket ends the name, also
one that the default opened. Main statement: a written parameter is read as what it says exactly if
its default has no closing bracket.
-/
namespace ApiPages

structure ParamText where
  type : Option (List Char) := none
  name : List Char
  optional : Bool := false
  default : Option (List Char) := none
  description : Option (List Char) := none

namespace TagValue

def closesBraces (depth : Nat) : List Char → Bool
  | [] => depth == 0
  | c :: cs =>
    if c = '{' then closesBraces (depth + 1) cs
    else if c = '}' then depth != 0 && closesBraces (depth - 1) cs
    else closesBraces depth cs

end TagValue

namespace ParamText

def isBracketed (p : ParamText) : Bool := p.optional || p.default.isSome

def remark (p : ParamText) : List Char :=
  match p.description with
  | some text => [' ', '-', ' '] ++ text
  | none => []

def untyped (p : ParamText) : List Char :=
  match p.default with
  | some text => '[' :: (p.name ++ '=' :: (text ++ ']' :: p.remark))
  | none => if p.optional then '[' :: (p.name ++ ']' :: p.remark) else p.name ++ p.remark

def written (p : ParamText) : List Char :=
  match p.type with
  | some text => '{' :: (text ++ '}' :: ' ' :: p.untyped)
  | none => p.untyped

def meant (p : ParamText) : Param :=
  let type := (p.type.map TypeText.ofText).getD {}
  { type := type.expr?, name := String.ofList p.name
    description := p.description.map String.ofList
    optional := p.isBracketed || type.optional, default := p.default.map String.ofList
    nullable := type.nullable, repeated := type.repeated }

structure Printable (p : ParamText) : Prop where
  type : ∀ text ∈ p.type, TagValue.closesBraces 0 text = true
  name_ne_nil : p.name ≠ []
  name : ∀ c ∈ p.name, Text.isBlank c = false ∧ c ∉ ['=', '{', '}', '[', ']']
  default : ∀ text ∈ p.default, text ≠ [] ∧ Text.trim text = text
  description : ∀ text ∈ p.description, text ≠ [] ∧ Text.trim text = text

instance (p : ParamText) : Decidable p.Printable :=
  decidable_of_iff ((∀ text ∈ p.type, TagValue.closesBraces 0 text = true) ∧ p.name ≠ [] ∧
      (p.name.all fun c => decide (Text.isBlank c = false ∧ c ∉ ['=', '{', '}', '[', ']'])) = true ∧
      (∀ text ∈ p.default, text ≠ [] ∧ Text.trim text = text) ∧
      ∀ text ∈ p.description, text ≠ [] ∧ Text.trim text = text)
    ⟨fun ⟨type, hne, name, default, description⟩ => ⟨type, hne,
        fun c hc => of_decide_eq_true (List.all_eq_true.mp name c hc), default, description⟩,
      fun h => ⟨h.type, h.name_ne_nil, List.all_eq_true.mpr fun c hc => decide_eq_true (h.name c hc),
        h.default, h.description⟩⟩

end ParamText

theorem TypeText.ofText_trim (raw : List Char) : ofText (Text.trim raw) = ofText raw := by
  simp only [ofText, Text.trim_trim]

namespace TagValue

theorem closingBrace?_append {depth : Nat} {text : List Char} (h : closesBraces depth text = true)
    (rest : List Char) : closingBrace? depth (text ++ '}' :: rest) = some (text, rest) := by
  induction text generalizing depth with
  | nil =>
    obtain rfl : depth = 0 := by simpa [closesBraces] using h
    simp [closingBrace?]
  | cons c text ih =>
    rw [closesBraces] at h
    by_cases hopen : c = '{'
    · rw [if_pos hopen] at h
      simp [closingBrace?, hopen, ih h]
    · rw [if_neg hopen] at h
      by_cases hclose : c = '}'
      · rw [if_pos hclose, Bool.and_eq_true, bne_iff_ne] at h
        simp [closingBrace?, hclose, h.1, ih h.2]
      · rw [if_neg hclose] at h
        simp [closingBrace?, hopen, hclose, ih h]

theorem splitType_typed {text : List Char} (h : closesBraces 0 text = true) (rest : List Char) :
    splitType ('{' :: (text ++ '}' :: rest)) = (some (Text.trim text), Text.trimStart rest) := by
  have hstart : Text.trimStart ('{' :: (text ++ '}' :: rest)) = '{' :: (text ++ '}' :: rest) :=
    Text.trimStart_eq_self_iff.mpr fun c hc => by
      obtain rfl := Option.some.inj hc
      rfl
  simp only [splitType, hstart, closingBrace?_append h]

theorem splitType_untyped {c : Char} (hblank : Text.isBlank c = false) (hbrace : c ≠ '{')
    (cs : List Char) : splitType (c :: cs) = (none, c :: cs) := by
  have hstart : Text.trimStart (c :: cs) = c :: cs :=
    Text.trimStart_eq_self_iff.mpr fun d hd => by
      obtain rfl := Option.some.inj hd
      exact hblank
  simp only [splitType, hstart]
  split
  · next rest heq => exact absurd (List.cons.inj heq).1 hbrace
  · rfl

theorem text?_eq_some {cs : List Char} (hne : cs ≠ []) (htrim : Text.trim cs = cs) :
    text? cs = some (String.ofList cs) := by
  rw [text?, Text.nonEmpty?_eq_self hne htrim, Option.map_some]

theorem text?_ne_of_length_lt {cs text : List Char} (h : cs.length < text.length) :
    text? cs ≠ some (String.ofList text) := by
  intro heq
  obtain ⟨shown, hshown, hofList⟩ := Option.map_eq_some_iff.mp heq
  have hlength := Text.length_nonEmpty?_le hshown
  rw [String.ofList_inj.mp hofList] at hlength
  omega

end TagValue

namespace ParamText

open TagValue

namespace Printable

variable {p : ParamText} (h : p.Printable)

include h

theorem trim_name : Text.trim p.name = p.name :=
  Text.trim_of_not_blank fun c hc => (h.name c hc).1

theorem not_mem_name {c : Char} (hc : c ∈ ['=', '{', '}', '[', ']']) : c ∉ p.name :=
  fun hmem => (h.name c hmem).2 hc

theorem splitType_written :
    splitType p.written = (p.type.map Text.trim, p.untyped) := by
  -- Neither the bracket nor the name looks like a type or a blank.
  obtain ⟨c, cs, hcons, hblank, hbrace⟩ : ∃ c cs, p.untyped = c :: cs ∧ Text.isBlank c = false ∧
      c ≠ '{' := by
    obtain ⟨c, cs, hname⟩ := List.exists_cons_of_ne_nil h.name_ne_nil
    have hc : c ∈ p.name := by rw [hname]; exact List.mem_cons_self
    rw [untyped]
    split
    · exact ⟨'[', _, rfl, rfl, by decide⟩
    · split
      · exact ⟨'[', _, rfl, rfl, by decide⟩
      · refine ⟨c, cs ++ p.remark, by rw [hname]; rfl, (h.name c hc).1, ?_⟩
        rintro rfl
        exact h.not_mem_name (by decide) hc
  rw [written]
  cases htype : p.type with
  | none =>
    simp only [hcons, Option.map_none]
    exact splitType_untyped hblank hbrace cs
  | some text =>
    have hstart : Text.trimStart (' ' :: p.untyped) = p.untyped := by
      rw [hcons, Text.trimStart, List.dropWhile_cons_of_pos rfl,
        List.dropWhile_cons_of_neg (by simp [hblank])]
    simp only [splitType_typed (h.type text htype), hstart, Option.map_some]

theorem description?_remark : description? p.remark = p.description.map String.ofList := by
  rw [remark]
  cases hdescription : p.description with
  | none => rfl
  | some text =>
    obtain ⟨hne, htrim⟩ := h.description text hdescription
    have hbehind : text? (' ' :: text) = text? text := by
      have hstart : Text.trimStart (' ' :: text) = Text.trimStart text := by
        rw [Text.trimStart, List.dropWhile_cons_of_pos rfl, Text.trimStart]
      rw [text?, text?, Text.nonEmpty?, Text.nonEmpty?, Text.trim, hstart, Text.trim]
    change text? (' ' :: text) = some (String.ofList text)
    rw [hbehind, text?_eq_some hne htrim]

theorem bracketed_plain (rest : List Char) :
    bracketed (p.name ++ ']' :: rest) = (p.name, none, rest) := by
  have hsign : '=' ∉ p.name := h.not_mem_name (by decide)
  have hclose : ']' ∉ p.name := h.not_mem_name (by decide)
  simp only [bracketed, Text.splitFirst?_append_cons hclose, Option.getD_some,
    Text.splitFirst?_of_not_mem hsign, h.trim_name]

theorem bracketed_default {text : List Char} (htext : ']' ∉ text) (rest : List Char) :
    bracketed (p.name ++ '=' :: (text ++ ']' :: rest)) = (p.name, text? text, rest) := by
  have hsign : '=' ∉ p.name := h.not_mem_name (by decide)
  have hclose : ']' ∉ p.name ++ '=' :: text := by
    simp [h.not_mem_name, htext]
  have hcut := Text.splitFirst?_append_cons hclose rest
  rw [List.append_assoc, List.cons_append] at hcut
  simp only [bracketed, hcut, Option.getD_some, Text.splitFirst?_append_cons hsign, h.trim_name]

theorem param_of_bracketed {inner rest : List Char} {default : Option String}
    (huntyped : p.untyped = '[' :: inner) (hinner : bracketed inner = (p.name, default, rest)) :
    param p.written =
      { p.meant with optional := true, default := default, description := description? rest } := by
  simp only [param, meant, h.splitType_written, huntyped, hinner, Option.map_map,
    Function.comp_def, TypeText.ofText_trim, Bool.true_or]

theorem param_of_word (hplain : p.isBracketed = false) : param p.written = p.meant := by
  obtain ⟨hoptional, hdefault⟩ := Bool.or_eq_false_iff.mp hplain
  rw [Option.isSome_eq_false_iff, Option.isNone_iff_eq_none] at hdefault
  have huntyped : p.untyped = p.name ++ p.remark := by
    simp [untyped, hoptional, hdefault]
  have hword : firstWord (p.name ++ p.remark) = (p.name, p.remark) := by
    refine Text.span_append (fun c hc => by simp [(h.name c hc).1]) ?_
    rw [remark]
    cases p.description with
    | none => simp
    | some text =>
      intro c hc
      obtain rfl := Option.some.inj hc
      rfl
  have hbracket : ∀ inner, p.name ++ p.remark ≠ '[' :: inner := by
    intro inner heq
    obtain ⟨c, cs, hname⟩ := List.exists_cons_of_ne_nil h.name_ne_nil
    rw [hname, List.cons_append, List.cons.injEq] at heq
    exact h.not_mem_name (c := '[') (by decide) (by rw [hname, heq.1]; exact List.mem_cons_self)
  simp only [param, meant, h.splitType_written, huntyped, hword, h.trim_name, h.description?_remark,
    hplain, hdefault, Option.map_none, Option.map_map, Function.comp_def, TypeText.ofText_trim]

end Printable

/-- A written parameter is read as what it says, exactly if its default has no closing bracket. -/
theorem param_written_iff {p : ParamText} (h : p.Printable) :
    param p.written = p.meant ↔ ∀ text ∈ p.default, ']' ∉ text := by
  cases hdefault : p.default with
  | none =>
    have hread : param p.written = p.meant := by
      cases hoptional : p.optional with
      | false => exact h.param_of_word (by simp [isBracketed, hoptional, hdefault])
      | true =>
        have huntyped : p.untyped = '[' :: (p.name ++ ']' :: p.remark) := by
          simp [untyped, hoptional, hdefault]
        rw [h.param_of_bracketed huntyped (h.bracketed_plain p.remark), h.description?_remark]
        simp [meant, isBracketed, hoptional, hdefault]
    simp [hread]
  | some text =>
    have huntyped : p.untyped = '[' :: (p.name ++ '=' :: (text ++ ']' :: p.remark)) := by
      simp [untyped, hdefault]
    obtain ⟨hne, htrim⟩ := h.default text hdefault
    by_cases hclose : ']' ∈ text
    · obtain ⟨before, behind, rfl, hbefore⟩ := List.eq_append_cons_of_mem hclose
      have hinner := h.bracketed_default hbefore (behind ++ ']' :: p.remark)
      rw [List.append_assoc, List.cons_append] at huntyped
      have hshort : before.length < (before ++ ']' :: behind).length := by
        simp
      rw [h.param_of_bracketed huntyped hinner]
      constructor
      · intro heq
        have hread := congrArg Param.default heq
        simp only [meant, hdefault, Option.map_some] at hread
        exact absurd hread (text?_ne_of_length_lt hshort)
      · intro hnone
        exact absurd hclose (hnone _ rfl)
    · rw [h.param_of_bracketed huntyped (h.bracketed_default hclose p.remark), h.description?_remark,
        text?_eq_some hne htrim]
      simp [meant, isBracketed, hdefault, hclose]

def limits : ParamText where
  type := some "...?Object.<string, \x7bdepth: number\x7d>=".toList
  name := "options.limits".toList
  default := some "(a = 'b') => \x7b\x7d".toList
  description := some "- how deep [at most]\nto go".toList

theorem param_written_iff_limits : limits.Printable ∧
    (param limits.written = limits.meant ↔ ∀ text ∈ limits.default, ']' ∉ text) :=
  have hprintable : limits.Printable := by decide +kernel
  ⟨hprintable, param_written_iff hprintable⟩

def keys : ParamText where
  type := some "Array".toList
  name := "keys".toList
  default := some "[]".toList
  description := some "The keys.".toList

theorem param_written_emptyList : keys.Printable ∧ param keys.written ≠ keys.meant ∧
    (param keys.written).default = some "[" ∧
    (param keys.written).description = some "] - The keys." := by
  have hprintable : keys.Printable := by decide +kernel
  refine ⟨hprintable, ?_, by decide +kernel, by decide +kernel⟩
  decide +kernel

end ParamText

end ApiPages
