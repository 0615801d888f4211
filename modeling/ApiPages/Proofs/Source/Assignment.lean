import ApiPages.Proofs.Source.Names
import ApiPages.Proofs.Source.Scopes

/-!
Assignments outside of classes. A line that assigns to a dotted path of names declares the last of
them as a static member of the ones before it. Main statement: it does exactly unless the first name
goes on behind the word `function`, which is then read as a function of the name that is left.
-/
namespace ApiPages.Source.Declaration

def assignmentLine (path : List (List Char)) (rhs : List Char) : List Char :=
  Text.join ['.'] path ++ " = ".toList ++ rhs

/-- A dotted path that no other form of a line lays claim to. Of the words that are reserved only
`export` would. -/
structure IsTarget (path : List (List Char)) : Prop where
  names : ∀ part ∈ path, isName part = true
  plain : "prototype".toList ∉ path
  first : ∀ first ∈ path.head?, first ∉ ["module".toList, "exports".toList, "export".toList]

instance (path : List (List Char)) : Decidable (IsTarget path) :=
  decidable_of_iff ((∀ part ∈ path, isName part = true) ∧ "prototype".toList ∉ path ∧
      ∀ first ∈ path.head?, first ∉ ["module".toList, "exports".toList, "export".toList])
    ⟨fun ⟨names, plain, first⟩ => ⟨names, plain, first⟩, fun h => ⟨h.names, h.plain, h.first⟩⟩

def ofTarget (owner : List (List Char)) (name : List Char) : Declaration where
  name := name
  parent := if owner = [] then none else some (Text.join ['.'] owner)
  scope := if owner = [] then none else some .staticScope

/-- The name starts with the word `function` and goes on with a name. -/
def IsFunctionLed (name : List Char) : Prop :=
  ∃ rest, isName rest = true ∧ name = "function".toList ++ rest

def IsBehind (tail : List Char) : Prop :=
  ∃ c behind, (c = '.' ∨ c = '=') ∧ Text.trimStart tail = c :: behind ∧
    ∀ d ∈ tail.head?, isNamePart d = false

section Line

variable {first tail word rest : List Char} {path : List (List Char)}

theorem exists_behind (hne : path ≠ []) (rhs : List Char) :
    ∃ first ∈ path.head?, ∃ tail, assignmentLine path rhs = first ++ tail ∧ IsBehind tail := by
  cases path with
  | nil => exact absurd rfl hne
  | cons first more =>
    refine ⟨first, rfl, ?_⟩
    cases more with
    | nil =>
      refine ⟨" = ".toList ++ rhs, by simp [assignmentLine, Text.join], '=', ' ' :: rhs, .inr rfl, rfl, ?_⟩
      intro d hd
      obtain rfl := Option.some.inj hd
      decide
    | cons next more =>
      refine ⟨'.' :: assignmentLine (next :: more) rhs, ?_, '.', _, .inl rfl, rfl, ?_⟩
      · rw [assignmentLine, assignmentLine, Text.join, List.intercalate_cons_cons, Text.join]
        simp
      · intro d hd
        obtain rfl := Option.some.inj hd
        decide

theorem IsBehind.stops (htail : IsBehind tail) : ∀ d ∈ tail.head?, isNamePart d = false := by
  obtain ⟨-, -, -, -, hstop⟩ := htail
  exact hstop

theorem after?_line (htail : IsBehind tail) (hword : isName word = true)
    (h : Text.after? word (first ++ tail) = some rest) :
    ∃ more, first = word ++ more ∧ rest = more ++ tail := by
  rw [Text.after?_eq_some_iff, List.append_eq_append_iff] at h
  rcases h with ⟨more, hmore, hbehind⟩ | ⟨more, hmore, hbehind⟩
  · cases more with
    | nil => exact ⟨[], by simpa using hmore.symm, by simpa using hbehind.symm⟩
    | cons c more =>
      have hpart := isNamePart_of_mem hword (by simp [hmore] : c ∈ word)
      rw [htail.stops c (by rw [hbehind]; rfl)] at hpart
      cases hpart
  · exact ⟨more, hmore, hbehind⟩

theorem IsBehind.name?_eq_none (htail : IsBehind tail) : name? (Text.trimStart tail) = none := by
  obtain ⟨c, behind, hc, hstart, -⟩ := htail
  rw [hstart]
  rcases hc with rfl | rfl <;> exact Source.name?_eq_none (by decide)

theorem IsBehind.mayStar (htail : IsBehind tail) : mayStar tail = (false, Text.trimStart tail) := by
  obtain ⟨c, behind, hc, hstart, -⟩ := htail
  rw [Source.mayStar, hstart]
  rcases hc with rfl | rfl <;> rfl

theorem mayStar_of_isNamePart {c : Char} (hc : isNamePart c = true) (cs : List Char) :
    mayStar (c :: cs) = (false, c :: cs) := by
  have hstart : Text.trimStart (c :: cs) = c :: cs :=
    Text.trimStart_eq_self_iff.mpr fun d hd => by
      obtain rfl := Option.some.inj hd
      exact isBlank_of_isNamePart hc
  have hstar : c ≠ '*' := by
    rintro rfl
    cases hc
  rw [Source.mayStar, hstart]
  split
  · next rest heq => exact absurd (List.cons.inj heq).1 hstar
  · rfl

theorem function?_line (hfirst : isName first = true) (htail : IsBehind tail)
    (hled : ¬ IsFunctionLed first) : function? (first ++ tail) = none := by
  have hasync : ∀ rest, afterWord? "async".toList (first ++ tail) = some rest →
      Text.after? "function".toList rest = none := by
    intro rest hrest
    obtain ⟨-, rfl⟩ := eq_of_afterWord? hfirst htail.stops (by decide) hrest
    obtain ⟨c, behind, hc, hstart, -⟩ := htail
    rw [hstart]
    rcases hc with rfl | rfl <;> rfl
  have hplain : ∀ rest, Text.after? "function".toList (first ++ tail) = some rest →
      name? (mayStar rest).2 = none := by
    intro rest hrest
    obtain ⟨more, rfl, rfl⟩ := after?_line htail (by decide) hrest
    cases more with
    | nil =>
      rw [List.nil_append, htail.mayStar]
      exact htail.name?_eq_none
    | cons c more =>
      have hparts : ∀ x ∈ c :: more, isNamePart x = true := fun x hx =>
        isNamePart_of_mem hfirst (List.mem_append_right _ hx)
      have hc : isNameStart c = false := by
        by_contra hstart
        rw [Bool.not_eq_false] at hstart
        refine hled ⟨c :: more, isName_cons.mpr ⟨hstart, ?_⟩, rfl⟩
        exact (List.forall_mem_cons.mp hparts).2
      rw [List.cons_append, mayStar_of_isNamePart (hparts c List.mem_cons_self)]
      exact Source.name?_eq_none hc
  rw [Option.eq_none_iff_forall_ne_some]
  intro d hd
  simp only [function?, bind, Option.bind_eq_some_iff] at hd
  obtain ⟨rest, hrest, ⟨name, behind⟩, hname, -⟩ := hd
  cases hword : afterWord? "async".toList (first ++ tail) with
  | some inner =>
    rw [hword] at hrest
    rw [hasync inner hword] at hrest
    cases hrest
  | none =>
    rw [hword] at hrest
    rw [hplain rest hrest] at hname
    cases hname

theorem function?_led (hrest : isName rest = true) (htail : IsBehind tail) :
    function? ("function".toList ++ rest ++ tail) = some { kind := some .function, name := rest } := by
  have hfirst : isName ("function".toList ++ rest) = true := by
    refine isName_cons.mpr ⟨by decide, ?_⟩
    intro x hx
    rcases List.mem_append.mp hx with hx | hx
    · exact List.all_eq_true.mp (by decide : "unction".toList.all isNamePart = true) x hx
    · exact isNamePart_of_mem hrest hx
  have hasync : afterWord? "async".toList ("function".toList ++ rest ++ tail) = none := by
    rw [Option.eq_none_iff_forall_ne_some]
    intro behind hbehind
    obtain ⟨hword, -⟩ := eq_of_afterWord? hfirst htail.stops (by decide) hbehind
    cases (List.cons.inj hword).1
  have hfunction : Text.after? "function".toList ("function".toList ++ rest ++ tail) =
      some (rest ++ tail) := Text.after?_eq_some_iff.mpr (List.append_assoc _ _ _)
  have hstar : mayStar (rest ++ tail) = (false, rest ++ tail) := by
    obtain ⟨c, more, rfl⟩ := List.exists_cons_of_ne_nil (l := rest) (by rintro rfl; cases hrest)
    exact mayStar_of_isNamePart (isNamePart_of_mem hrest List.mem_cons_self) _
  simp only [function?, hasync, hfunction, hstar, name?_append hrest htail.stops, bind, Option.bind_some,
    pure]

theorem class?_line (hfirst : isName first = true) (htail : IsBehind tail) :
    class? (first ++ tail) = none := by
  rw [Option.eq_none_iff_forall_ne_some]
  intro d hd
  simp only [class?, bind, Option.bind_eq_some_iff] at hd
  obtain ⟨rest, hrest, ⟨name, behind⟩, hname, -⟩ := hd
  obtain ⟨-, rfl⟩ := eq_of_afterWord? hfirst htail.stops (by decide) hrest
  rw [htail.name?_eq_none] at hname
  cases hname

theorem binding?_line (hfirst : isName first = true) (htail : IsBehind tail) :
    binding? (first ++ tail) = none := by
  rw [Option.eq_none_iff_forall_ne_some]
  intro d hd
  simp only [binding?_eq, Option.bind_eq_some_iff] at hd
  obtain ⟨⟨fallback, rest⟩, hstart, ⟨name, behind⟩, hname, -⟩ := hd
  obtain ⟨word, hword, hrest⟩ := bindingStart?_eq_some hstart
  have hwords : ∀ word ∈ bindingWords, isName word = true := by decide
  obtain ⟨-, rfl⟩ := eq_of_afterWord? hfirst htail.stops (hwords word hword) hrest
  rw [htail.name?_eq_none] at hname
  cases hname

theorem exportsMember?_line (hfirst : isName first = true) (htail : IsBehind tail)
    (hmodule : first ≠ "module".toList) (hexports : first ≠ "exports".toList) :
    exportsMember? (first ++ tail) = none := by
  have hno : Text.after? "module.".toList (first ++ tail) = none := by
    rw [Option.eq_none_iff_forall_ne_some]
    intro rest hrest
    exact hmodule (eq_of_dotted "module".toList hfirst htail.stops (by decide) hrest).symm
  rw [Option.eq_none_iff_forall_ne_some]
  intro d hd
  simp only [exportsMember?, hno, Option.getD_none, bind, Option.bind_eq_some_iff] at hd
  obtain ⟨rest, hrest, -⟩ := hd
  exact hexports (eq_of_dotted "exports".toList hfirst htail.stops (by decide) hrest).symm

theorem withoutExport_line (hfirst : isName first = true) (htail : IsBehind tail)
    (hexport : first ≠ "export".toList) : withoutExport (first ++ tail) = (false, first ++ tail) := by
  rw [withoutExport]
  split
  · next rest hrest =>
    exact absurd (eq_of_afterWord? hfirst htail.stops (by decide) hrest).1.symm hexport
  · rfl

end Line

theorem dot_not_mem {part : List Char} (h : isName part = true) : '.' ∉ part := by
  intro hmem
  have hdot := isNamePart_of_mem h hmem
  cases hdot

section Target

variable {owner : List (List Char)} {name : List Char}

theorem target?_line {path : List (List Char)} (hne : path ≠ [])
    (hnames : ∀ part ∈ path, isName part = true) (rhs : List Char) :
    target? (assignmentLine path rhs) = some (path, Text.trimStart rhs) := by
  have hpath : ∀ c ∈ Text.join ['.'] path, (isNamePart c || c == '.') = true := by
    intro c hc
    rcases Text.eq_or_mem_of_mem_join hc with rfl | ⟨part, hpart, hc⟩
    · rfl
    · rw [isNamePart_of_mem (hnames part hpart) hc, Bool.true_or]
  have hstop : ∀ c ∈ (" = ".toList ++ rhs).head?, (isNamePart c || c == '.') = false := by
    intro c hc
    obtain rfl := Option.some.inj hc
    decide
  have hspan : (assignmentLine path rhs).span (fun c => isNamePart c || c == '.') =
      (Text.join ['.'] path, " = ".toList ++ rhs) := by
    rw [assignmentLine, List.append_assoc]
    exact Text.span_append hpath hstop
  have hassigned : assigned? (" = ".toList ++ rhs) = some (Text.trimStart rhs) := rfl
  simp only [target?, hspan, hassigned, Option.map_some,
    Text.split_join (fun part hpart => dot_not_mem (hnames part hpart)) hne]

theorem plainValue_trimStart (rhs : List Char) : plainValue (Text.trimStart rhs) = plainValue rhs := by
  rw [plainValue, plainValue, Text.trim_trimStart]

variable (h : IsTarget (owner ++ [name])) (rhs : List Char)

include h

theorem prototypeMember?_line :
    prototypeMember? (assignmentLine (owner ++ [name]) rhs) = none := by
  simp only [prototypeMember?, target?_line (by simp) h.names, bind, Option.bind_some,
    List.reverse_append, List.reverse_singleton, List.singleton_append]
  split
  · next found prototype rest hparts =>
    have hmem : prototype ∈ owner ++ [name] := by
      rw [List.cons.injEq] at hparts
      rw [List.mem_append, ← List.mem_reverse, hparts.2]
      simp
    rw [if_neg]
    rintro ⟨rfl, -⟩
    exact h.plain hmem
  · rfl

theorem assignment?_line :
    assignment? (assignmentLine (owner ++ [name]) rhs) =
      some ((ofTarget owner name).withValue rhs .member) := by
  have hall : (owner ++ [name]).all isName = true := List.all_eq_true.mpr h.names
  simp only [assignment?, target?_line (by simp) h.names, bind, Option.bind_some, if_pos hall,
    List.reverse_append, List.reverse_singleton, List.singleton_append,
    withValue_congr (plainValue_trimStart rhs)]
  rcases List.eq_nil_or_concat' owner with rfl | ⟨outer, last, rfl⟩
  · simp only [List.reverse_nil, ofTarget, if_true]
  · have hmodule : Text.join ['.'] (outer ++ [last]) ≠ "module".toList := by
      intro hjoin
      have hdots : ∀ part ∈ outer ++ [last], '.' ∉ part := fun part hpart =>
        dot_not_mem (h.names part (List.mem_append_left _ hpart))
      have hsplit := congrArg (Text.split '.') hjoin
      rw [Text.split_join hdots (by simp), Text.split_of_not_mem (by decide)] at hsplit
      exact h.first "module".toList (by rw [hsplit]; rfl) (by decide)
    have hreverse : (outer ++ [last]).reverse = last :: outer.reverse := List.reverse_concat
    have hback : (last :: outer.reverse).reverse = outer ++ [last] := by simp
    have howner : outer ++ [last] ≠ [] := by simp
    simp only [hreverse, hback, if_neg hmodule, ofTarget, if_neg howner]

end Target

theorem ofLine_line {owner : List (List Char)} {name first tail : List Char}
    (h : IsTarget (owner ++ [name])) (rhs : List Char) (hmem : first ∈ (owner ++ [name]).head?)
    (hline : assignmentLine (owner ++ [name]) rhs = first ++ tail) (htail : IsBehind tail) :
    ofLine none (first ++ tail) =
      (function? (first ++ tail)).getD ((ofTarget owner name).withValue rhs .member) := by
  have hfirst : isName first = true := h.names first (List.mem_of_mem_head? hmem)
  have hreserved := h.first first hmem
  simp only [List.mem_cons, List.not_mem_nil, or_false, not_or] at hreserved
  obtain ⟨hmodule, hexports, hexport⟩ := hreserved
  have hprototype := prototypeMember?_line h rhs
  have hassignment := assignment?_line h rhs
  rw [hline] at hprototype hassignment
  change ofPlainLine (first ++ tail) = _
  simp only [ofPlainLine, withoutExport_line hfirst htail hexport, class?_line hfirst htail,
    binding?_line hfirst htail, exportsMember?_line hfirst htail hmodule hexports, hprototype,
    hassignment, Option.none_or, Bool.false_or]
  generalize (ofTarget owner name).withValue rhs .member = told
  cases function? (first ++ tail) with
  | none => rfl
  | some d => rfl

theorem name_withValue (d : Declaration) (rhs : List Char) (fallback : Kind) :
    (d.withValue rhs fallback).name = d.name := by
  obtain ⟨kind, -, async, generator, literal, heq⟩ := exists_withValue d rhs fallback
  rw [heq]

/-- An assignment declares the last name of its path as a static member of the ones before it,
exactly unless the first name starts with the word `function` and goes on with a name. -/
theorem ofLine_assignment_iff {owner : List (List Char)} {name : List Char}
    (h : IsTarget (owner ++ [name])) (rhs : List Char) :
    ofLine none (assignmentLine (owner ++ [name]) rhs) =
        (ofTarget owner name).withValue rhs .member ↔
      ∀ first ∈ (owner ++ [name]).head?, ¬ IsFunctionLed first := by
  have hne : owner ++ [name] ≠ [] := by simp
  obtain ⟨first, hmem, tail, hline, htail⟩ := exists_behind hne rhs
  have hfirst : isName first = true := h.names first (List.mem_of_mem_head? hmem)
  rw [hline, ofLine_line h rhs hmem hline htail]
  constructor
  · intro heq first' hmem' hled
    obtain rfl : first = first' := Option.some.inj (hmem.symm.trans hmem')
    obtain ⟨rest, hrest, rfl⟩ := hled
    rw [function?_led hrest htail, Option.getD_some] at heq
    have hscope := congrArg Declaration.scope heq
    have hname := congrArg Declaration.name heq
    rw [scope_withValue] at hscope
    rw [name_withValue] at hname
    have howner : owner = [] := by
      by_contra howner
      simp [ofTarget, howner] at hscope
    -- The path is the first name alone, and the name that is read is shorter.
    obtain rfl : rest = name := hname
    rw [howner] at hmem
    have hlength := congrArg List.length (Option.some.inj hmem)
    have hword : "function".toList.length = 8 := rfl
    rw [List.length_append, hword] at hlength
    omega
  · intro hall
    rw [function?_line hfirst htail (hall first hmem), Option.getD_none]

theorem ofLine_assignment_iff_nested :
    IsTarget ["shapes".toList, "$Circle".toList, "area2".toList] ∧
      (ofLine none "shapes.$Circle.area2 = async (r) => r.x == 2;".toList =
          { kind := some .function, name := "area2".toList, parent := some "shapes.$Circle".toList,
            scope := some .staticScope, async := true } ↔
        ∀ first ∈ ["shapes".toList, "$Circle".toList, "area2".toList].head?, ¬ IsFunctionLed first) := by
  have htarget : IsTarget (["shapes".toList, "$Circle".toList] ++ ["area2".toList]) := by
    decide +kernel
  have hiff := ofLine_assignment_iff htarget "async (r) => r.x == 2;".toList
  have hvalue : (ofTarget ["shapes".toList, "$Circle".toList] "area2".toList).withValue
      "async (r) => r.x == 2;".toList .member =
      { kind := some .function, name := "area2".toList, parent := some "shapes.$Circle".toList,
        scope := some .staticScope, async := true } := by decide +kernel
  rw [hvalue] at hiff
  exact ⟨htarget, hiff⟩

theorem functions_misread :
    IsTarget ["functions".toList] ∧
      ofLine none (assignmentLine ["functions".toList] "[]".toList) =
        { kind := some .function, name := "s".toList } ∧
      (ofTarget [] "functions".toList).withValue "[]".toList .member =
        { kind := some .member, name := "functions".toList } := by
  decide +kernel

end ApiPages.Source.Declaration
