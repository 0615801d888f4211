import ApiPages.Extract.FileDoclets
import ApiPages.Proofs.Source.CodeLine
import ApiPages.Proofs.Source.Names

/-!
A semicolon behind a line. Every form of a line is read from its head, so a semicolon behind it is
left over or goes with the value, where it is cut off again. Main statement: a line and the line with
a semicolon declare the same exactly unless the line binds a name to no value, which with a semicolon
is no binding at all.
-/
namespace ApiPages.Source

def terminated (cs : List Char) : List Char := cs ++ [';']

@[simp] theorem terminated_nil : terminated [] = [';'] := rfl

@[simp] theorem terminated_cons (c : Char) (cs : List Char) :
    terminated (c :: cs) = c :: terminated cs := rfl

/-- The last character that is no blank is neither a semicolon nor a comma. -/
def IsOpen (cs : List Char) : Prop := ∀ c ∈ (Text.trimEnd cs).getLast?, c ≠ ';' ∧ c ≠ ','

instance (cs : List Char) : Decidable (IsOpen cs) :=
  decidable_of_iff ((Text.trimEnd cs).getLast? ≠ some ';' ∧ (Text.trimEnd cs).getLast? ≠ some ',')
    ⟨fun ⟨hmark, hcomma⟩ _ hc => ⟨fun heq => hmark (heq ▸ hc), fun heq => hcomma (heq ▸ hc)⟩,
      fun h => ⟨fun hmark => (h _ hmark).1 rfl, fun hcomma => (h _ hcomma).2 rfl⟩⟩

section Reading

variable {p : Char → Bool} {word rhs rest cs : List Char}

theorem IsOpen.of_suffix (h : IsOpen cs) (hrest : rest <:+ cs) : IsOpen rest := by
  obtain ⟨front, rfl⟩ := hrest
  intro c hc
  apply h c
  rw [Text.trimEnd, Text.dropEndWhile, List.reverse_append, List.dropWhile_append]
  split
  · next hnil =>
    rw [Text.trimEnd, Text.dropEndWhile, List.isEmpty_iff.mp hnil] at hc
    cases hc
  · rw [List.reverse_append, List.getLast?_append, List.reverse_reverse]
    rw [Text.trimEnd, Text.dropEndWhile] at hc
    rw [hc]
    rfl

theorem dropEndWhile_terminated (hp : p ';' = true) (cs : List Char) :
    Text.dropEndWhile p (terminated cs) = Text.dropEndWhile p cs := by
  rw [terminated, Text.dropEndWhile, List.reverse_concat, List.dropWhile_cons_of_pos hp,
    Text.dropEndWhile]

theorem trimStart_terminated (cs : List Char) :
    Text.trimStart (terminated cs) = terminated (Text.trimStart cs) := by
  rw [terminated, Text.trimStart, List.dropWhile_append]
  split
  · next h => rw [Text.trimStart, List.isEmpty_iff.mp h]; rfl
  · rfl

theorem IsOpen.ne_of_getLast? (h : IsOpen cs) {c : Char} (hc : c ∈ cs.getLast?) : c ≠ ';' ∧ c ≠ ',' := by
  cases hblank : Text.isBlank c with
  | true =>
    constructor <;>
    · rintro rfl
      cases hblank
  | false =>
    have hself : Text.trimEnd cs = cs := Text.trimEnd_eq_self_iff.mpr fun d hd => by
      obtain rfl := Option.some.inj (hc.symm.trans hd)
      exact hblank
    exact h c (by rwa [hself])

theorem plainValue_of_isOpen (h : IsOpen rhs) : plainValue rhs = Text.trim rhs := by
  have hopen : IsOpen (Text.trimStart rhs) := h.of_suffix (List.dropWhile_suffix Text.isBlank)
  rw [plainValue, Text.dropEndWhile_of_getLast?, Text.trim_trim]
  intro c hc
  simpa using hopen c hc

theorem plainValue_terminated (h : IsOpen rhs) : plainValue (terminated rhs) = plainValue rhs := by
  have hopen : IsOpen (Text.trimStart rhs) := h.of_suffix (List.dropWhile_suffix Text.isBlank)
  have htrim : Text.trim (terminated rhs) = terminated (Text.trimStart rhs) := by
    rw [Text.trim, trimStart_terminated, Text.trimEnd_eq_self_iff, terminated, List.getLast?_concat]
    intro c hc
    obtain rfl := Option.some.inj hc
    rfl
  rw [plainValue_of_isOpen h, plainValue, htrim, dropEndWhile_terminated rfl,
    Text.dropEndWhile_of_getLast?, Text.trim_trimStart]
  intro c hc
  simpa using hopen.ne_of_getLast? hc

theorem after?_terminated (h : ';' ∉ word) (cs : List Char) :
    Text.after? word (terminated cs) = (Text.after? word cs).map terminated := by
  induction word generalizing cs with
  | nil => rfl
  | cons c word ih =>
    obtain ⟨hc, hword⟩ := not_or.mp (mt List.mem_cons.mpr h)
    cases cs with
    | nil => simp [Text.after?, Ne.symm hc]
    | cons d cs =>
      rw [terminated_cons, Text.after?, Text.after?, ih hword]
      split <;> rfl

theorem afterWord?_terminated (h : ';' ∉ word) (cs : List Char) :
    afterWord? word (terminated cs) = (afterWord? word cs).map terminated := by
  rw [afterWord?, afterWord?, after?_terminated h]
  cases Text.after? word cs with
  | none => rfl
  | some behind =>
    cases behind with
    | nil => rfl
    | cons c behind =>
      simp only [Option.map_some, terminated_cons, trimStart_terminated]
      split <;> rfl

theorem span_terminated (hp : p ';' = false) (cs : List Char) :
    (terminated cs).span p = Prod.map id terminated (cs.span p) := by
  have hstop : ∀ c ∈ (terminated (cs.dropWhile p)).head?, p c = false := by
    intro c hc
    have hhead := List.head?_dropWhile_not p cs
    rw [terminated, List.head?_append] at hc
    cases hrest : (cs.dropWhile p).head? with
    | none =>
      rw [hrest] at hc
      obtain rfl := Option.some.inj hc
      exact hp
    | some d =>
      rw [hrest] at hc hhead
      obtain rfl := Option.some.inj hc
      exact hhead
  have hcut : terminated cs = cs.takeWhile p ++ terminated (cs.dropWhile p) := by
    rw [terminated, terminated, ← List.append_assoc, List.takeWhile_append_dropWhile]
  rw [hcut, Text.span_append (fun c hc => List.mem_takeWhile_imp hc) hstop,
    List.span_eq_takeWhile_dropWhile]
  rfl

theorem name?_terminated (cs : List Char) :
    name? (terminated cs) = (name? cs).map (Prod.map id terminated) := by
  cases cs with
  | nil => rfl
  | cons c cs =>
    have hspan := span_terminated (p := isNamePart) (by decide) cs
    simp only [terminated_cons, name?, hspan]
    split <;> rfl

theorem assigned?_terminated (cs : List Char) :
    assigned? (terminated cs) = (assigned? cs).map terminated := by
  rw [assigned?, assigned?, trimStart_terminated]
  cases Text.trimStart cs with
  | nil => rfl
  | cons c rest =>
    by_cases hc : c = '='
    · subst hc
      exact congrArg some (trimStart_terminated rest)
    · simp [hc]

theorem mayStar_terminated (cs : List Char) :
    mayStar (terminated cs) = Prod.map id terminated (mayStar cs) := by
  rw [mayStar, mayStar, trimStart_terminated]
  cases Text.trimStart cs with
  | nil => rfl
  | cons c rest =>
    by_cases hc : c = '*'
    · subst hc
      exact congrArg (Prod.mk true) (trimStart_terminated rest)
    · simp [hc]

theorem mayLead_terminated (h : ';' ∉ word) (cs : List Char) :
    mayLead word (terminated cs) = (mayLead word cs).map (Prod.map id terminated) := by
  rw [mayLead, mayLead, afterWord?_terminated h]
  cases afterWord? word cs with
  | none => rfl
  | some rest => rfl

end Reading

namespace Declaration

section Forms

variable {code rest rhs : List Char}

theorem memberName?_terminated (cs : List Char) :
    memberName? (terminated cs) = (memberName? cs).map (Prod.map id terminated) := by
  cases cs with
  | nil => rfl
  | cons c rest =>
    by_cases hc : c = '#'
    · subst hc
      rw [terminated_cons, memberName?, memberName?, name?_terminated]
      cases name? rest with
      | none => rfl
      | some named => rfl
    · have hname := name?_terminated (c :: rest)
      simpa [memberName?, hc] using hname

theorem starWays_terminated (cs : List Char) :
    starWays (terminated cs) = (starWays cs).map (Prod.map id terminated) := by
  cases cs with
  | nil => rfl
  | cons c rest =>
    by_cases hc : c = '*'
    · subst hc
      simp [starWays, trimStart_terminated]
    · simp [starWays, hc]

theorem accessorWays_terminated (cs : List Char) :
    accessorWays (terminated cs) = (accessorWays cs).map (Prod.map id terminated) := by
  rw [accessorWays, accessorWays, afterWord?_terminated (by decide), afterWord?_terminated (by decide)]
  cases afterWord? "get".toList cs with
  | some rest => rfl
  | none =>
    cases afterWord? "set".toList cs with
    | some rest => rfl
    | none => rfl

theorem head?_terminated {c : Char} (hc : c ≠ ';') (cs : List Char) :
    (terminated cs).head? = some c ↔ cs.head? = some c := by
  cases cs with
  | nil => simp [Ne.symm hc]
  | cons d cs => rfl

theorem method?_terminated (owner code : List Char) :
    method? owner (terminated code) = method? owner code := by
  simp only [method?, mayLead_terminated (by decide : ';' ∉ "static".toList),
    mayLead_terminated (by decide : ';' ∉ "async".toList), starWays_terminated,
    accessorWays_terminated, memberName?_terminated, List.flatMap_map, Option.toList_map,
    Prod.map_fst, Prod.map_snd, id, trimStart_terminated, ne_eq,
    head?_terminated (by decide : '(' ≠ ';')]

theorem field?_terminated (owner code : List Char) :
    field? owner (terminated code) = field? owner code := by
  rw [field?, field?, dropEndWhile_terminated rfl]

def functionFrom? (async : Bool) (rest : List Char) : Option Declaration :=
  (Text.after? "function".toList rest).bind fun rest => (name? (mayStar rest).2).bind fun named =>
    some { kind := some .function, name := named.1, async := async, generator := (mayStar rest).1 }

theorem function?_eq (code : List Char) : function? code =
    ((afterWord? "async".toList code).map (functionFrom? true)).getD (functionFrom? false code) := by
  rw [function?]
  cases afterWord? "async".toList code with
  | some rest => rfl
  | none => rfl

theorem functionFrom?_terminated (async : Bool) (rest : List Char) :
    functionFrom? async (terminated rest) = functionFrom? async rest := by
  rw [functionFrom?, after?_terminated (by decide), Option.bind_map]
  refine Option.bind_congr fun behind _ => ?_
  rw [Function.comp_apply, mayStar_terminated, Prod.map_snd, name?_terminated, Option.bind_map]
  rfl

theorem function?_terminated (code : List Char) : function? (terminated code) = function? code := by
  rw [function?_eq, function?_eq, afterWord?_terminated (by decide), functionFrom?_terminated,
    Option.map_map]
  cases afterWord? "async".toList code with
  | some rest => exact functionFrom?_terminated true rest
  | none => rfl

theorem base?_terminated (rest : List Char) : base? (terminated rest) = base? rest := by
  have hpart := fun cs => span_terminated (p := fun c => isNamePart c || c == '.') (by decide) cs
  have hextends := afterWord?_terminated (by decide : ';' ∉ "extends".toList) (Text.trimStart rest)
  rw [← trimStart_terminated] at hextends
  simp only [List.span_eq_takeWhile_dropWhile, Prod.map, id, Prod.mk.injEq] at hpart
  cases rest with
  | nil => rfl
  | cons c more =>
    rw [terminated_cons] at hextends ⊢
    rw [base?, base?, hextends]
    cases afterWord? "extends".toList (Text.trimStart (c :: more)) with
    | none => rfl
    | some base => simp only [Option.map_some, (hpart base).1]

theorem class?_terminated (code : List Char) : class? (terminated code) = class? code := by
  simp only [class?, afterWord?_terminated (by decide : ';' ∉ "class".toList), bind, Option.bind_map]
  refine Option.bind_congr fun rest _ => ?_
  rw [Function.comp_apply, name?_terminated, Option.bind_map]
  refine Option.bind_congr fun named _ => ?_
  simp only [Function.comp_apply, Prod.map_fst, Prod.map_snd, id, base?_terminated]

theorem target?_terminated (code : List Char) :
    target? (terminated code) = (target? code).map (Prod.map id terminated) := by
  simp only [target?, span_terminated (p := fun c => isNamePart c || c == '.') (by decide),
    Prod.map_snd, Prod.map_fst, id, assigned?_terminated, Option.map_map]
  rfl

theorem bindingStart?_terminated (code : List Char) :
    bindingStart? (terminated code) = (bindingStart? code).map (Prod.map id terminated) := by
  rw [bindingStart?, bindingStart?, afterWord?_terminated (by decide),
    afterWord?_terminated (by decide), afterWord?_terminated (by decide)]
  cases afterWord? "const".toList code with
  | some rest => rfl
  | none =>
    rw [← Option.map_or, Option.map_none, Option.map_map, Option.map_map]
    rfl

theorem withoutExport_terminated (code : List Char) :
    withoutExport (terminated code) = Prod.map id terminated (withoutExport code) := by
  rw [withoutExport, withoutExport, afterWord?_terminated (by decide)]
  cases afterWord? "export".toList code with
  | none => rfl
  | some rest =>
    simp only [Option.map_some, afterWord?_terminated (by decide : ';' ∉ "default".toList)]
    cases afterWord? "default".toList rest with
    | none => rfl
    | some behind => rfl

theorem withValue_terminated (h : IsOpen rhs) (d : Declaration) (fallback : Kind) :
    d.withValue (terminated rhs) fallback = d.withValue rhs fallback :=
  withValue_congr (plainValue_terminated h) d fallback

theorem named_terminated (h : IsOpen rest) (d : List Char → Declaration) :
    ((name? (terminated rest)).bind fun named => (assigned? named.2).bind fun rhs =>
        some ((d named.1).withValue rhs .member)) =
      (name? rest).bind fun named => (assigned? named.2).bind fun rhs =>
        some ((d named.1).withValue rhs .member) := by
  rw [name?_terminated, Option.bind_map]
  refine Option.bind_congr fun named hnamed => ?_
  rw [Function.comp_apply, Prod.map_snd, assigned?_terminated, Option.bind_map]
  refine Option.bind_congr fun rhs hrhs => ?_
  have hopen := (h.of_suffix (suffix_of_name? hnamed)).of_suffix (suffix_of_assigned? hrhs)
  exact congrArg some (withValue_terminated hopen _ _)

theorem thisMember?_terminated (h : IsOpen code) (owner : List Char) :
    thisMember? owner (terminated code) = thisMember? owner code := by
  simp only [thisMember?, after?_terminated (by decide : ';' ∉ "this.".toList), bind, Option.bind_map]
  refine Option.bind_congr fun rest hrest => ?_
  exact named_terminated (h.of_suffix (suffix_of_after? hrest)) fun name =>
    { name := name, parent := some owner, scope := some .instanceScope }

theorem exportsMember?_terminated (h : IsOpen code) :
    exportsMember? (terminated code) = exportsMember? code := by
  have hmodule : (Text.after? "module.".toList (terminated code)).getD (terminated code) =
      terminated ((Text.after? "module.".toList code).getD code) := by
    rw [after?_terminated (by decide)]
    cases Text.after? "module.".toList code with
    | some rest => rfl
    | none => rfl
  have hopen : IsOpen ((Text.after? "module.".toList code).getD code) := by
    cases hrest : Text.after? "module.".toList code with
    | some rest => exact h.of_suffix (suffix_of_after? hrest)
    | none => exact h
  simp only [exportsMember?, hmodule, after?_terminated (by decide : ';' ∉ "exports.".toList), bind,
    Option.bind_map]
  refine Option.bind_congr fun rest hrest => ?_
  exact named_terminated (hopen.of_suffix (suffix_of_after? hrest)) fun name =>
    { name := name, exported := true }

theorem prototypeMember?_terminated (h : IsOpen code) :
    prototypeMember? (terminated code) = prototypeMember? code := by
  simp only [prototypeMember?, target?_terminated, bind, Option.bind_map]
  refine Option.bind_congr fun target htarget => ?_
  have hopen := h.of_suffix (suffix_of_target? htarget)
  simp only [Function.comp_apply, Prod.map_fst, Prod.map_snd, id, withValue_terminated hopen]

theorem assignment?_terminated (h : IsOpen code) :
    assignment? (terminated code) = assignment? code := by
  simp only [assignment?, target?_terminated, bind, Option.bind_map]
  refine Option.bind_congr fun target htarget => ?_
  have hopen := h.of_suffix (suffix_of_target? htarget)
  simp only [Function.comp_apply, Prod.map_fst, Prod.map_snd, id, withValue_terminated hopen]

theorem ofClassLine?_terminated (h : IsOpen code) (enclosing : Enclosing) :
    ofClassLine? enclosing (terminated code) = ofClassLine? enclosing code := by
  rw [ofClassLine?, ofClassLine?, method?_terminated, field?_terminated, thisMember?_terminated h]

end Forms

/-- A word that opens a binding, and a name without a value. -/
def IsBareBinding (code : List Char) : Prop :=
  ∃ word ∈ bindingWords, ∃ gap name behind, gap ≠ [] ∧ Text.isBlankLine gap = true ∧
    isName name = true ∧ Text.isBlankLine behind = true ∧ code = word ++ (gap ++ (name ++ behind))

section Bindings

variable {code name behind : List Char}

theorem isBareBinding_iff : IsBareBinding code ↔ ∃ word ∈ bindingWords, ∃ name behind,
    isName name = true ∧ Text.isBlankLine behind = true ∧
      afterWord? word code = some (name ++ behind) := by
  constructor
  · rintro ⟨word, hword, gap, name, behind, hgap, hblank, hname, hbehind, rfl⟩
    refine ⟨word, hword, name, behind, hname, hbehind, ?_⟩
    obtain ⟨c, gap, rfl⟩ := List.exists_cons_of_ne_nil hgap
    obtain ⟨hc, hblank⟩ := List.forall_mem_cons.mp (List.all_eq_true.mp hblank)
    have hafter : Text.after? word (word ++ (c :: gap ++ (name ++ behind))) =
        some (c :: (gap ++ (name ++ behind))) := Text.after?_eq_some_iff.mpr rfl
    rw [afterWord?, hafter]
    simp only [if_pos hc, Text.trimStart_append_of_blank (List.all_eq_true.mpr hblank),
      trimStart_name hname]
  · rintro ⟨word, hword, name, behind, hname, hbehind, hafter⟩
    obtain ⟨c, more, rfl, hc, hmore⟩ := afterWord?_eq_some hafter
    refine ⟨word, hword, c :: more.takeWhile Text.isBlank, name, behind, List.cons_ne_nil _ _, ?_,
      hname, hbehind, ?_⟩
    · refine List.all_eq_true.mpr (List.forall_mem_cons.mpr ⟨hc, fun x hx => ?_⟩)
      exact List.mem_takeWhile_imp hx
    · rw [hmore, List.cons_append, Text.trimStart, List.takeWhile_append_dropWhile]

theorem binding?_terminated (h : IsOpen code) (hbare : ¬ IsBareBinding code) :
    binding? (terminated code) = binding? code := by
  rw [binding?_eq, binding?_eq, bindingStart?_terminated, Option.bind_map]
  refine Option.bind_congr fun ⟨fallback, rest⟩ hstart => ?_
  obtain ⟨word, hword, hrest⟩ := bindingStart?_eq_some hstart
  rw [Function.comp_apply, Prod.map_snd, name?_terminated, Option.bind_map]
  refine Option.bind_congr fun ⟨name, behind⟩ hname => ?_
  simp only [Function.comp_apply, Prod.map_fst, Prod.map_snd, id, assigned?_terminated]
  cases hrhs : assigned? behind with
  | some rhs =>
    have hopen := h.of_suffix (suffix_of_afterWord? hrest)
    have hopen := (hopen.of_suffix (suffix_of_name? hname)).of_suffix (suffix_of_assigned? hrhs)
    exact congrArg some (withValue_terminated hopen _ _)
  | none =>
    have hbehind : Text.trimStart behind ≠ [] := by
      intro hblank
      obtain ⟨rfl, hplain⟩ := eq_append_of_name? hname
      exact hbare (isBareBinding_iff.mpr
        ⟨word, hword, name, behind, hplain, Text.trimStart_eq_nil_iff.mp hblank, hrest⟩)
    have hmore : Text.trimStart (terminated behind) ≠ [] := by
      rw [trimStart_terminated, terminated]
      simp
    simp only [Option.map_none, if_neg hbehind, if_neg hmore]

theorem ofPlainLine_terminated (h : IsOpen code) (hbare : ¬ IsBareBinding (withoutExport code).2) :
    ofPlainLine (terminated code) = ofPlainLine code := by
  have hopen : IsOpen (withoutExport code).2 := h.of_suffix (suffix_of_withoutExport code)
  simp only [ofPlainLine, withoutExport_terminated, Prod.map_fst, Prod.map_snd, id,
    function?_terminated, class?_terminated, binding?_terminated hopen hbare,
    exportsMember?_terminated hopen, prototypeMember?_terminated hopen, assignment?_terminated hopen]

structure OpensWithNames (first rest : List Char) : Prop where
  name : isName first = true
  gap : ∃ c ∈ rest.head?, Text.isBlank c = true
  next : ∃ d more, Text.trimStart rest = d :: more ∧ isNameStart d = true

namespace OpensWithNames

variable {first rest word : List Char} (h : OpensWithNames first rest)

include h

theorem stops : ∀ d ∈ rest.head?, isNamePart d = false := by
  obtain ⟨c, hc, hblank⟩ := h.gap
  intro d hd
  obtain rfl := Option.some.inj (hc.symm.trans hd)
  exact isNamePart_of_isBlank hblank

theorem exists_cons : ∃ c more, first ++ rest = c :: more ∧ isNameStart c = true := by
  obtain ⟨c, part, rfl⟩ := List.exists_cons_of_ne_nil (l := first) fun hnil => by
    have hname := h.name
    rw [hnil] at hname
    cases hname
  exact ⟨c, part ++ rest, rfl, (isName_cons.mp h.name).1⟩

theorem afterWord?_eq_none (hword : isName word = true) (hne : word ≠ first) :
    afterWord? word (first ++ rest) = none := by
  rw [Option.eq_none_iff_forall_ne_some]
  intro behind hbehind
  exact hne (eq_of_afterWord? h.name h.stops hword hbehind).1

theorem after?_eq_none (word : List Char) (hword : isName word = true)
    (hne : word ≠ first) : Text.after? (word ++ ['.']) (first ++ rest) = none := by
  rw [Option.eq_none_iff_forall_ne_some]
  intro behind hbehind
  exact hne (eq_of_dotted word h.name h.stops hword hbehind)

theorem assigned?_eq_none : assigned? rest = none := by
  obtain ⟨d, more, hrest, hd⟩ := h.next
  have hne : d ≠ '=' := by
    rintro rfl
    cases hd
  rw [assigned?, hrest]
  simp [hne]

theorem head?_ne : (Text.trimStart rest).head? ≠ some '(' := by
  obtain ⟨d, more, hrest, hd⟩ := h.next
  rw [hrest]
  intro hopen
  obtain rfl := Option.some.inj hopen
  cases hd

theorem memberName? : Declaration.memberName? (first ++ rest) = some (first, rest) := by
  have hname := name?_append h.name h.stops
  obtain ⟨c, more, hcons, hc⟩ := h.exists_cons
  have hne : c ≠ '#' := by
    rintro rfl
    cases hc
  rw [hcons] at hname ⊢
  simpa [Declaration.memberName?, hne] using hname

theorem starWays : Declaration.starWays (first ++ rest) = [(false, first ++ rest)] := by
  obtain ⟨c, more, hcons, hc⟩ := h.exists_cons
  have hne : c ≠ '*' := by
    rintro rfl
    cases hc
  rw [hcons]
  simp [Declaration.starWays, hne]

theorem method?_eq_none (owner : List Char)
    (hlead : first ∉ ["static".toList, "async".toList, "get".toList, "set".toList]) :
    method? owner (first ++ rest) = none := by
  simp only [List.mem_cons, List.not_mem_nil, or_false, not_or] at hlead
  obtain ⟨hstatic, hasync, hget, hset⟩ := hlead
  simp only [method?, mayLead, accessorWays, h.afterWord?_eq_none (by decide) (Ne.symm hstatic),
    h.afterWord?_eq_none (by decide) (Ne.symm hasync), h.afterWord?_eq_none (by decide) (Ne.symm hget),
    h.afterWord?_eq_none (by decide) (Ne.symm hset), h.starWays, h.memberName?, h.head?_ne,
    Option.or_none, Option.toList_none, Option.toList_some, List.map_nil, List.nil_append,
    List.flatMap_cons, List.flatMap_nil, List.append_nil, if_true, ne_eq, not_false_eq_true,
    List.head?_nil]

theorem field?_eq_none (owner : List Char) (hopen : IsOpen (first ++ rest))
    (hstatic : first ≠ "static".toList) : field? owner (first ++ rest) = none := by
  have hend : Text.dropEndWhile (· = ';') (first ++ rest) = first ++ rest :=
    Text.dropEndWhile_of_getLast? fun c hc => by simpa using (hopen.ne_of_getLast? hc).1
  have hne : Text.trimStart rest ≠ [] := by
    obtain ⟨d, more, hrest, -⟩ := h.next
    rw [hrest]
    exact List.cons_ne_nil d more
  simp only [field?, hend, mayLead, h.afterWord?_eq_none (by decide) (Ne.symm hstatic), h.memberName?,
    h.assigned?_eq_none, if_neg hne, Option.toList_none, Option.toList_some, List.map_nil,
    List.nil_append, List.flatMap_cons, List.flatMap_nil, List.append_nil, List.head?_nil]

theorem thisMember?_eq_none (owner : List Char) (hthis : first ≠ "this".toList) :
    thisMember? owner (first ++ rest) = none := by
  have hno : Text.after? "this.".toList (first ++ rest) = none :=
    h.after?_eq_none "this".toList (by decide) (Ne.symm hthis)
  simp only [thisMember?, hno, bind, Option.bind_none]

theorem exportsMember?_eq_none (hmodule : first ≠ "module".toList) (hexports : first ≠ "exports".toList) :
    exportsMember? (first ++ rest) = none := by
  have hno : Text.after? "module.".toList (first ++ rest) = none :=
    h.after?_eq_none "module".toList (by decide) (Ne.symm hmodule)
  have hnot : Text.after? "exports.".toList (first ++ rest) = none :=
    h.after?_eq_none "exports".toList (by decide) (Ne.symm hexports)
  simp only [exportsMember?, hno, hnot, Option.getD_none, bind, Option.bind_none]

theorem target?_eq_none : target? (first ++ rest) = none := by
  have hspan : (first ++ rest).span (fun c => isNamePart c || c == '.') = (first, rest) := by
    refine Text.span_append (fun c hc => ?_) fun c hc => ?_
    · rw [isNamePart_of_mem h.name hc, Bool.true_or]
    · obtain ⟨d, hd, hblank⟩ := h.gap
      obtain rfl := Option.some.inj (hd.symm.trans hc)
      have hdot : d ≠ '.' := by
        rintro rfl
        cases hblank
      simp [isNamePart_of_isBlank hblank, hdot]
  simp only [target?, hspan, h.assigned?_eq_none, Option.map_none]

end OpensWithNames

theorem IsBareBinding.opens (h : IsBareBinding code) :
    ∃ word ∈ bindingWords, ∃ rest, code = word ++ rest ∧ OpensWithNames word rest := by
  obtain ⟨word, hword, gap, name, behind, hgap, hblank, hname, -, rfl⟩ := h
  have hwords : ∀ word ∈ bindingWords, isName word = true := by decide
  refine ⟨word, hword, _, rfl, hwords word hword, ?_, ?_⟩
  · obtain ⟨c, gap, rfl⟩ := List.exists_cons_of_ne_nil hgap
    exact ⟨c, rfl, (List.forall_mem_cons.mp (List.all_eq_true.mp hblank)).1⟩
  · obtain ⟨d, part, rfl⟩ := List.exists_cons_of_ne_nil (l := name) (by rintro rfl; cases hname)
    rw [Text.trimStart_append_of_blank hblank, trimStart_name hname]
    exact ⟨d, part ++ behind, rfl, (isName_cons.mp hname).1⟩

theorem opens_of_withoutExport (h : IsBareBinding (withoutExport code).2) :
    ∃ first ∈ "export".toList :: bindingWords, ∃ rest,
      code = first ++ rest ∧ OpensWithNames first rest := by
  rw [withoutExport] at h
  cases hexport : afterWord? "export".toList code with
  | none =>
    rw [hexport] at h
    obtain ⟨word, hword, hopens⟩ := h.opens
    exact ⟨word, List.mem_cons_of_mem _ hword, hopens⟩
  | some rest =>
    simp only [hexport] at h
    obtain ⟨c, behind, rfl, hc, rfl⟩ := afterWord?_eq_some hexport
    refine ⟨_, List.mem_cons_self, c :: behind, rfl, by decide, ⟨c, rfl, hc⟩, ?_⟩
    rw [Text.trimStart, List.dropWhile_cons_of_pos hc]
    cases hdefault : afterWord? "default".toList (Text.trimStart behind) with
    | none =>
      rw [hdefault] at h
      obtain ⟨word, -, rest, hrest, hopens⟩ := h.opens
      obtain ⟨d, more, hcons, hd⟩ := hopens.exists_cons
      exact ⟨d, more, hrest.trans hcons, hd⟩
    | some inner =>
      obtain ⟨d, more, hmore, -⟩ := afterWord?_eq_some hdefault
      exact ⟨'d', _, hmore, by decide⟩

theorem IsBareBinding.binding? (h : IsBareBinding code) :
    (∃ fallback name, Declaration.binding? code = some { kind := some fallback, name := name }) ∧
      Declaration.binding? (terminated code) = none := by
  obtain ⟨word, hword, name, behind, hname, hbehind, hrest⟩ := isBareBinding_iff.mp h
  obtain ⟨fallback, hstart⟩ := exists_bindingStart? hword hrest
  have hblank : Text.trimStart behind = [] := Text.trimStart_eq_nil_iff.mpr hbehind
  have hstop : ∀ c ∈ behind.head?, isNamePart c = false := fun c hc =>
    isNamePart_of_isBlank (List.all_eq_true.mp hbehind c (List.mem_of_mem_head? hc))
  have hassigned : assigned? behind = none := by
    rw [assigned?, hblank]
  constructor
  · refine ⟨fallback, name, ?_⟩
    simp only [binding?_eq, hstart, name?_append hname hstop, Option.bind_some, hassigned, hblank,
      if_true]
  · have hne : Text.trimStart (terminated behind) ≠ [] := by
      rw [trimStart_terminated, terminated]
      simp
    simp only [binding?_eq, bindingStart?_terminated, hstart, name?_terminated,
      name?_append hname hstop, assigned?_terminated, hassigned, Option.map_some, Option.map_none,
      Option.bind_some, Prod.map_fst, Prod.map_snd, id, if_neg hne]

theorem IsBareBinding.eq_none (h : IsBareBinding code) : function? code = none ∧ class? code = none := by
  obtain ⟨word, hword, rest, rfl, -⟩ := h.opens
  simp only [bindingWords, List.mem_cons, List.not_mem_nil, or_false] at hword
  rcases hword with rfl | rfl | rfl <;> exact ⟨rfl, rfl⟩

theorem ofClassLine?_of_bare (h : IsBareBinding (withoutExport code).2) (hopen : IsOpen code)
    (enclosing : Enclosing) : ofClassLine? enclosing code = none := by
  obtain ⟨first, hfirst, rest, rfl, hopens⟩ := opens_of_withoutExport h
  have hlead : ∀ first ∈ "export".toList :: bindingWords,
      first ∉ ["static".toList, "async".toList, "get".toList, "set".toList] ∧
        first ≠ "static".toList ∧ first ≠ "this".toList := by decide
  obtain ⟨hlead, hstatic, hthis⟩ := hlead first hfirst
  rw [ofClassLine?, hopens.method?_eq_none _ hlead, hopens.field?_eq_none _ hopen hstatic,
    hopens.thisMember?_eq_none _ hthis]
  split <;> rfl

theorem kind_ofPlainLine_of_bare (h : IsBareBinding (withoutExport code).2) (hopen : IsOpen code) :
    (ofPlainLine code).kind ≠ none ∧ (ofPlainLine (terminated code)).kind = none := by
  have hopen : IsOpen (withoutExport code).2 := hopen.of_suffix (suffix_of_withoutExport code)
  obtain ⟨⟨fallback, name, hbinding⟩, hnone⟩ := h.binding?
  obtain ⟨hfunction, hclass⟩ := h.eq_none
  constructor
  · simp only [ofPlainLine, hfunction, hclass, hbinding, Option.none_or, Option.some_or,
      Option.getD_some, ne_eq, reduceCtorEq, not_false_eq_true]
  · obtain ⟨word, hword, rest, hcode, hopens⟩ := h.opens
    have hmark : ∀ word ∈ bindingWords, word ≠ "module".toList ∧ word ≠ "exports".toList := by decide
    obtain ⟨hmodule, hexports⟩ := hmark word hword
    have hmember := hopens.exportsMember?_eq_none hmodule hexports
    have htarget := target?_terminated (word ++ rest)
    rw [hopens.target?_eq_none, Option.map_none] at htarget
    rw [← hcode] at hmember htarget
    simp only [ofPlainLine, withoutExport_terminated, Prod.map_snd, function?_terminated, hfunction,
      class?_terminated, hclass, hnone, exportsMember?_terminated hopen, hmember, prototypeMember?,
      assignment?, htarget, bind, Option.bind_none, Option.none_or, Option.getD_none]

/-- A semicolon behind a line changes what the line declares exactly when the line binds a name to no
value; where it changes nothing, a comment before either line adds the same doclet. -/
theorem ofLine_terminated_iff (h : IsOpen code) (enclosing : Option Enclosing) :
    (ofLine enclosing (terminated code) = ofLine enclosing code ↔
      ¬ IsBareBinding (withoutExport code).2) ∧
    (¬ IsBareBinding (withoutExport code).2 → ∀ (f : FileDoclets) (block : Block),
      f.add { block with code := some (terminated code), enclosing := enclosing } =
        f.add { block with code := some code, enclosing := enclosing }) := by
  have hclass : (enclosing.bind fun e => ofClassLine? e (terminated code)) =
      enclosing.bind fun e => ofClassLine? e code :=
    Option.bind_congr fun e _ => ofClassLine?_terminated h e
  have hsame (hbare : ¬ IsBareBinding (withoutExport code).2) :
      ofLine enclosing (terminated code) = ofLine enclosing code := by
    rw [ofLine, ofLine, hclass, ofPlainLine_terminated h hbare]
  refine ⟨⟨fun heq hbare => ?_, hsame⟩, fun hbare f block => ?_⟩
  -- No class body makes a member of a bare binding, so both lines are read as plain ones.
  · have hnone : (enclosing.bind fun e => ofClassLine? e code) = none := by
      cases enclosing with
      | none => rfl
      | some e => exact ofClassLine?_of_bare hbare h e
    rw [ofLine, ofLine, hclass, hnone, Option.getD_none, Option.getD_none] at heq
    obtain ⟨hkind, hnot⟩ := kind_ofPlainLine_of_bare hbare h
    exact hkind ((congrArg kind heq).symm.trans hnot)
  · simp only [FileDoclets.add, Option.map_some, hsame hbare, Doclet.of]

theorem ofLine_terminated_iff_field :
    IsOpen "static area = (r) => r * r".toList ∧
      ofLine (some { name := "Circle".toList, direct := true })
          (terminated "static area = (r) => r * r".toList) =
        { kind := some .function, name := "area".toList, parent := some "Circle".toList,
          scope := some .staticScope } ∧
      ¬ IsBareBinding (withoutExport "static area = (r) => r * r".toList).2 := by
  have hopen : IsOpen "static area = (r) => r * r".toList := by decide +kernel
  have hiff := (ofLine_terminated_iff hopen (some { name := "Circle".toList, direct := true })).1
  exact ⟨hopen, by decide +kernel, hiff.mp (by decide +kernel)⟩

theorem bare_binding_lost :
    IsOpen "let count".toList ∧
      ofLine none "let count".toList = { kind := some .member, name := "count".toList } ∧
      ofLine none (terminated "let count".toList) = {} := by
  decide +kernel

end Bindings

end Declaration

end ApiPages.Source
