import ApiPages.Comment.Basic
import ApiPages.Proofs.Source.WholeComment
import ApiPages.Proofs.Text.Letters
import ApiPages.Proofs.Text.Lines

/-!
Comments as they are written: every line behind a margin, a tag as its title and its value. Main
statement: a written comment is scanned as one block and read back as it was exactly if no value
starts on a line of its own with what begins a tag.
-/
namespace ApiPages

namespace Comment

def beginsTag (line : List Char) : Bool :=
  match Text.trimStart line with
  | '@' :: c :: _ => c.isAlpha
  | _ => false

end Comment

namespace Tag

def head (tag : Tag) : List Char := '@' :: tag.title.toList

def lines (tag : Tag) : List (List Char) :=
  match Text.split '\n' tag.value with
  | [] => [tag.head]
  | first :: more =>
    if first.head?.any Text.isBlank then tag.head :: first :: more
    else (tag.head ++ ' ' :: first) :: more

/-- Whether the value starts on a line of its own that begins a tag. -/
def startsAnother (tag : Tag) : Bool :=
  (Text.split '\n' tag.value).head?.any fun first =>
    first.head?.any Text.isBlank && Comment.beginsTag first

end Tag

namespace Comment

def textLines (c : Comment) : List (List Char) :=
  (c.description.map (Text.split '\n')).getD []

def lines (c : Comment) : List (List Char) := c.textLines ++ c.tags.flatMap Tag.lines

def margin : List Char := [' ', '*', ' ']

def decorated (lines : List (List Char)) : List Char :=
  ['/', '*', '*', '\n'] ++ (Text.unlines (lines.map (margin ++ ·)) ++ [' ', '*', '/'])

def written (c : Comment) : List Char := decorated c.lines

/-- A line that can stand in a comment: it ends in no blank, and closes no comment. -/
structure IsLine (line : List Char) : Prop where
  trimmed : Text.trimEnd line = line
  unbroken : '\r' ∉ line
  staysOpen : ¬ ['*', '/'] <:+: line

end Comment

def Tag.isTitle : List Char → Bool
  | [] => false
  | c :: cs => c.isAlpha && cs.all fun d => d.isAlphanum || d == '_'

structure Tag.Printable (tag : Tag) : Prop where
  title : Tag.isTitle tag.title.toList = true
  value : if tag.title = "example" then
      tag.value = [] ∨ Text.trimEnd tag.value = tag.value ∧
        ∀ first ∈ (Text.split '\n' tag.value).head?, Text.isBlankLine first = false
    else Text.trim tag.value = tag.value
  lines : ∀ line ∈ Text.split '\n' tag.value, Comment.IsLine line
  more : ∀ line ∈ (Text.split '\n' tag.value).tail, Comment.beginsTag line = false

structure Comment.Printable (c : Comment) : Prop where
  description : ∀ text ∈ c.description, text ≠ [] ∧ Text.trim text = text ∧
    ∀ line ∈ Text.split '\n' text, IsLine line ∧ beginsTag line = false
  tags : ∀ tag ∈ c.tags, tag.Printable

instance (line : List Char) : Decidable (Comment.IsLine line) :=
  decidable_of_iff (Text.trimEnd line = line ∧ '\r' ∉ line ∧ ¬ ['*', '/'] <:+: line)
    ⟨fun ⟨trimmed, unbroken, staysOpen⟩ => ⟨trimmed, unbroken, staysOpen⟩,
      fun h => ⟨h.trimmed, h.unbroken, h.staysOpen⟩⟩

instance (tag : Tag) : Decidable tag.Printable :=
  decidable_of_iff (Tag.isTitle tag.title.toList = true ∧
      (if tag.title = "example" then
        tag.value = [] ∨ Text.trimEnd tag.value = tag.value ∧
          ∀ first ∈ (Text.split '\n' tag.value).head?, Text.isBlankLine first = false
      else Text.trim tag.value = tag.value) ∧
      (∀ line ∈ Text.split '\n' tag.value, Comment.IsLine line) ∧
      ∀ line ∈ (Text.split '\n' tag.value).tail, Comment.beginsTag line = false)
    ⟨fun ⟨title, value, lines, more⟩ => ⟨title, value, lines, more⟩,
      fun h => ⟨h.title, h.value, h.lines, h.more⟩⟩

instance (c : Comment) : Decidable c.Printable :=
  decidable_of_iff ((∀ text ∈ c.description, text ≠ [] ∧ Text.trim text = text ∧
      ∀ line ∈ Text.split '\n' text, Comment.IsLine line ∧ Comment.beginsTag line = false) ∧
      ∀ tag ∈ c.tags, tag.Printable)
    ⟨fun ⟨description, tags⟩ => ⟨description, tags⟩, fun h => ⟨h.description, h.tags⟩⟩

namespace Comment

theorem isSome_tagStart? (line : List Char) : (tagStart? line).isSome = beginsTag line := by
  rw [tagStart?, beginsTag]
  generalize Text.trimStart line = text
  match text with
  | [] => rfl
  | [a] => simp
  | a :: c :: rest =>
    by_cases ha : a = '@'
    · rw [ha]
      cases hc : c.isAlpha <;> simp [hc]
    · simp [ha]

theorem gather_cons_of_not {line : List Char} (h : beginsTag line = false) (more : List (List Char)) :
    gather (line :: more) = (line :: (gather more).1, (gather more).2) := by
  rw [← isSome_tagStart?, Option.isSome_eq_false_iff, Option.isNone_iff_eq_none] at h
  rw [gather, h]

theorem gather_cons_of_tag {line value : List Char} {title : String}
    (h : tagStart? line = some (title, value)) (more : List (List Char)) :
    gather (line :: more) =
      ([], ⟨title, Text.join ['\n'] (value :: (gather more).1)⟩ :: (gather more).2) := by
  rw [gather, h]

theorem gather_append {body : List (List Char)} (h : ∀ line ∈ body, beginsTag line = false)
    (more : List (List Char)) :
    gather (body ++ more) = (body ++ (gather more).1, (gather more).2) := by
  induction body with
  | nil => rfl
  | cons line body ih =>
    obtain ⟨hline, hbody⟩ := List.forall_mem_cons.mp h
    rw [List.cons_append, gather_cons_of_not hline, ih hbody]
    rfl

theorem countP_beginsTag {body : List (List Char)} (h : ∀ line ∈ body, beginsTag line = false) :
    body.countP beginsTag = 0 := by
  rw [List.countP_eq_zero]
  intro line hline
  rw [h line hline]
  exact Bool.false_ne_true

theorem length_gather (lines : List (List Char)) :
    (gather lines).2.length = lines.countP beginsTag := by
  induction lines with
  | nil => rfl
  | cons line more ih =>
    rw [gather, List.countP_cons, ← ih, ← isSome_tagStart?]
    cases tagStart? line <;> rfl

theorem of_mem_title {title : List Char} (h : Tag.isTitle title = true) {c : Char} (hc : c ∈ title) :
    isTitleChar c = true ∧ Text.isBlank c = false ∧ c ∉ ['!', '*', '\n', '\r'] := by
  have halnum : c.isAlphanum = true ∨ c = '_' := by
    cases title with
    | nil => cases hc
    | cons d ds =>
      simp only [Tag.isTitle, Bool.and_eq_true, List.all_eq_true, Bool.or_eq_true, beq_iff_eq] at h
      rcases List.mem_cons.mp hc with rfl | hc
      · exact .inl (by simp [Char.isAlphanum, h.1])
      · exact h.2 c hc
  rcases halnum with halnum | rfl
  · have hlow := (Text.toNat_of_isAlphanum halnum).1
    refine ⟨by simp [isTitleChar, halnum], Text.isBlank_of_isAlphanum halnum, fun hmem => ?_⟩
    simp only [List.mem_cons, List.not_mem_nil, or_false] at hmem
    rcases hmem with rfl | rfl | rfl | rfl <;> exact absurd hlow (by decide)
  · decide

theorem tagStart?_title {title : List Char} (h : Tag.isTitle title = true) (rest : List Char)
    (hrest : ∀ c ∈ rest.head?, isTitleChar c = false) :
    tagStart? ('@' :: (title ++ rest)) = some (String.ofList title, Text.trimStart rest) := by
  have hspan : (title ++ rest).span isTitleChar = (title, rest) := by
    have hnone : rest.takeWhile isTitleChar = [] ∧ rest.dropWhile isTitleChar = rest := by
      cases rest with
      | nil => exact ⟨rfl, rfl⟩
      | cons c rest =>
        have hc := hrest c rfl
        exact ⟨List.takeWhile_cons_of_neg (by simp [hc]), List.dropWhile_cons_of_neg (by simp [hc])⟩
    have htitle : ∀ c ∈ title, isTitleChar c = true := fun c hc => (of_mem_title h hc).1
    rw [List.span_eq_takeWhile_dropWhile, List.takeWhile_append_of_pos htitle,
      List.dropWhile_append_of_pos htitle, hnone.1, hnone.2, List.append_nil]
  have hkept : Text.dropEndWhile (· = '!') title = title := by
    have hends : ∀ c ∈ title.reverse.head?, c ≠ '!' := by
      intro c hc
      have hmem : c ∈ title := List.mem_reverse.mp (List.mem_of_mem_head? hc)
      exact fun he => (of_mem_title h hmem).2.2 (by simp [he])
    rw [Text.dropEndWhile]
    cases hreverse : title.reverse with
    | nil => rw [List.reverse_eq_nil_iff.mp hreverse]; rfl
    | cons c cs =>
      have hc : c ≠ '!' := hends c (by rw [hreverse]; rfl)
      rw [List.dropWhile_cons_of_neg (by simpa using hc), ← hreverse, List.reverse_reverse]
  have hstart : Text.trimStart ('@' :: (title ++ rest)) = '@' :: (title ++ rest) := rfl
  cases title with
  | nil => cases h
  | cons c cs =>
    have hc : c.isAlpha = true := by
      rw [Tag.isTitle, Bool.and_eq_true] at h
      exact h.1
    rw [List.cons_append] at hspan hstart ⊢
    simp only [tagStart?, hstart, hc, if_true, hspan, hkept]

end Comment

namespace Tag.Printable

variable {tag : Tag} (h : tag.Printable)

include h

theorem trimEnd_value : Text.trimEnd tag.value = tag.value := by
  have hvalue := h.value
  split at hvalue
  · rcases hvalue with hnil | hvalue
    · rw [hnil]
      rfl
    · exact hvalue.1
  · exact (Text.trim_eq_self_iff.mp hvalue).2

theorem first_line (hne : tag.value ≠ []) : ∃ first more, Text.split '\n' tag.value = first :: more ∧
    Text.isBlankLine first = false ∧
      (first.head?.any Text.isBlank = true → tag.title = "example") := by
  have hvalue := h.value
  split at hvalue
  · rename_i htitle
    obtain ⟨first, more, hsplit⟩ := List.exists_cons_of_ne_nil (Text.split_ne_nil '\n' tag.value)
    exact ⟨first, more, hsplit, (hvalue.resolve_left hne).2 first (by rw [hsplit]; rfl),
      fun _ => htitle⟩
  · have hstart := (Text.trim_eq_self_iff.mp hvalue).1
    obtain ⟨c, cs, hcs⟩ := List.exists_cons_of_ne_nil hne
    rw [hcs, Text.trimStart_eq_self_iff] at hstart
    have hc : Text.isBlank c = false := hstart c rfl
    obtain ⟨line, more, hsplit⟩ := Text.exists_first_line hc cs
    refine ⟨c :: line, more, by rw [hcs, hsplit], by simp [Text.isBlankLine, hc], fun hblank => ?_⟩
    simp [hc] at hblank

theorem of_first_blank {first : List Char} {more : List (List Char)}
    (hsplit : Text.split '\n' tag.value = first :: more)
    (hblank : first.head?.any Text.isBlank = true) :
    tag.value ≠ [] ∧ Text.isBlankLine first = false ∧ tag.title = "example" := by
  have hne : tag.value ≠ [] := by
    intro hnil
    rw [hnil] at hsplit
    cases hsplit
    cases hblank
  obtain ⟨first', more', hsplit', hfirst, hexample⟩ := h.first_line hne
  rw [hsplit] at hsplit'
  cases hsplit'
  exact ⟨hne, hfirst, hexample hblank⟩

theorem trimBlankLines_value (hne : tag.value ≠ []) {lead : List Char} (hlead : ∀ d ∈ lead, d = '\n') :
    Text.trimBlankLines (lead ++ tag.value) = tag.value := by
  obtain ⟨first, more, hsplit, hblank, -⟩ := h.first_line hne
  rw [Text.trimBlankLines_append hlead, h.trimEnd_value]
  rw [hsplit]
  intro line hline
  obtain rfl := Option.some.inj hline
  exact hblank

theorem settle_self : Comment.settle tag = tag := by
  have hvalue := h.value
  have hsettled : (if tag.title = "example" then Text.trimBlankLines tag.value
      else Text.trim tag.value) = tag.value := by
    split
    · by_cases hnil : tag.value = []
      · rw [hnil]
        rfl
      · exact h.trimBlankLines_value hnil (List.forall_mem_nil _)
    · rename_i htitle
      rwa [if_neg htitle] at hvalue
  rw [Comment.settle, hsettled]

theorem settle_below {first : List Char} {more : List (List Char)}
    (hsplit : Text.split '\n' tag.value = first :: more)
    (hblank : first.head?.any Text.isBlank = true) :
    Comment.settle ⟨tag.title, '\n' :: tag.value⟩ = tag := by
  obtain ⟨hne, -, hexample⟩ := h.of_first_blank hsplit hblank
  have hkept : Text.trimBlankLines (['\n'] ++ tag.value) = tag.value :=
    h.trimBlankLines_value hne (by simp)
  rw [Comment.settle, if_pos hexample]
  exact congrArg (Tag.mk tag.title) hkept

theorem trimEnd_head : Text.trimEnd tag.head = tag.head := by
  rw [Text.trimEnd_eq_self_iff]
  intro c hc
  rcases List.mem_cons.mp (List.mem_of_getLast? hc) with rfl | hmem
  · rfl
  · exact (Comment.of_mem_title h.title hmem).2.1

theorem map_trimEnd_lines : ∃ first more, Text.split '\n' tag.value = first :: more ∧
    (first.head?.any Text.isBlank = true ∧
        tag.lines.map Text.trimEnd = tag.head :: first :: more ∨
      first.head?.any Text.isBlank = false ∧ ∃ behind, Text.trimStart behind = first ∧
        (∀ c ∈ behind.head?, c = ' ') ∧
        tag.lines.map Text.trimEnd = (tag.head ++ behind) :: more) := by
  obtain ⟨first, more, hsplit⟩ := List.exists_cons_of_ne_nil (Text.split_ne_nil '\n' tag.value)
  have hlines := h.lines
  rw [hsplit, List.forall_mem_cons] at hlines
  have hmore : more.map Text.trimEnd = more :=
    Text.map_trimEnd fun line hline => (hlines.2 line hline).trimmed
  refine ⟨first, more, hsplit, ?_⟩
  cases hblank : first.head?.any Text.isBlank with
  | true =>
    refine .inl ⟨rfl, ?_⟩
    simp only [Tag.lines, hsplit, hblank, if_true, List.map_cons, h.trimEnd_head, hlines.1.trimmed,
      hmore]
  | false =>
    right
    have hstart : Text.trimStart (' ' :: first) = first := by
      have hfirst : Text.trimStart first = first := by
        rw [Text.trimStart_eq_self_iff]
        intro c hc
        rw [Option.mem_def.mp hc] at hblank
        exact hblank
      exact hfirst
    have hprinted : tag.lines.map Text.trimEnd =
        Text.trimEnd (tag.head ++ ' ' :: first) :: more := by
      simp only [Tag.lines, hsplit, hblank, Bool.false_eq_true, if_false, List.map_cons, hmore]
    rw [hprinted]
    by_cases hnil : first = []
    · refine ⟨rfl, [], hnil.symm, by simp, ?_⟩
      rw [hnil, Text.trimEnd_concat rfl, h.trimEnd_head, List.append_nil]
    · refine ⟨rfl, ' ' :: first, hstart, by simp, ?_⟩
      rw [List.append_cons, Text.trimEnd_append hnil hlines.1.trimmed]

theorem tagStart?_head (behind : List Char) (hspace : ∀ c ∈ behind.head?, c = ' ') :
    Comment.tagStart? (tag.head ++ behind) = some (tag.title, Text.trimStart behind) := by
  have htitle := Comment.tagStart?_title h.title behind fun c hc => by
    rw [hspace c hc]
    rfl
  rwa [String.ofList_toList] at htitle

theorem gather_lines (hown : tag.startsAnother = false) {rest : List (List Char)}
    (hrest : (Comment.gather rest).1 = []) :
    ∃ value, Comment.gather (tag.lines.map Text.trimEnd ++ rest) =
        ([], ⟨tag.title, value⟩ :: (Comment.gather rest).2) ∧
      Comment.settle ⟨tag.title, value⟩ = tag := by
  obtain ⟨first, more, hsplit, hlines⟩ := h.map_trimEnd_lines
  have hmore := h.more
  have hjoin := Text.join_split '\n' tag.value
  rw [hsplit] at hjoin
  rw [hsplit, List.tail_cons] at hmore
  have hbody := Comment.gather_append hmore rest
  rw [hrest, List.append_nil] at hbody
  rcases hlines with ⟨hblank, hlines⟩ | ⟨-, behind, hbehind, hspace, hlines⟩
  · have hfirst : Comment.beginsTag first = false := by
      simpa [Tag.startsAnother, hsplit, hblank] using hown
    have hbelow : Text.join ['\n'] ([] :: first :: more) = '\n' :: tag.value := by
      rw [← hjoin]
      rfl
    have htitle := h.tagStart?_head [] (by simp)
    rw [List.append_nil] at htitle
    refine ⟨'\n' :: tag.value, ?_, h.settle_below hsplit hblank⟩
    rw [hlines, List.cons_append, List.cons_append, Comment.gather_cons_of_tag htitle,
      Comment.gather_cons_of_not hfirst, hbody]
    simp only [Text.trimStart, List.dropWhile_nil, ← hbelow]
  · refine ⟨tag.value, ?_, h.settle_self⟩
    rw [hlines, List.cons_append, Comment.gather_cons_of_tag (h.tagStart?_head behind hspace), hbody,
      hbehind, hjoin]

theorem countP_lines : (tag.lines.map Text.trimEnd).countP Comment.beginsTag =
    1 + if tag.startsAnother then 1 else 0 := by
  obtain ⟨first, more, hsplit, hlines⟩ := h.map_trimEnd_lines
  have hmore := h.more
  rw [hsplit, List.tail_cons] at hmore
  have hnone := Comment.countP_beginsTag hmore
  have hhead (behind : List Char) (hspace : ∀ c ∈ behind.head?, c = ' ') :
      Comment.beginsTag (tag.head ++ behind) = true := by
    rw [← Comment.isSome_tagStart?, h.tagStart?_head behind hspace]
    rfl
  rcases hlines with ⟨hblank, hlines⟩ | ⟨hblank, behind, -, hspace, hlines⟩
  · have htitle := hhead [] (by simp)
    rw [List.append_nil] at htitle
    have hstarts : tag.startsAnother = Comment.beginsTag first := by
      simp [Tag.startsAnother, hsplit, hblank]
    rw [hlines, List.countP_cons_of_pos htitle, List.countP_cons, hnone, hstarts, Nat.zero_add,
      Nat.add_comm]
  · have hstarts : tag.startsAnother = false := by
      simp [Tag.startsAnother, hsplit, hblank]
    rw [hlines, List.countP_cons_of_pos (hhead behind hspace), hnone, hstarts]
    rfl

end Tag.Printable

namespace Comment

def Holds (line : List Char) : Prop :=
  '\n' ∉ line ∧ '\r' ∉ line ∧ line.IsChain Source.StaysOpen

theorem clean_decorated {ls : List (List Char)} (h : ∀ line ∈ ls, '\n' ∉ line ∧ '\r' ∉ line) :
    clean (decorated ls) =
      Text.trimBlankLines ('\n' :: Text.unlines (ls.map Text.trimEnd)) := by
  have htrim : Text.trim (decorated ls) = decorated ls := by
    rw [Text.trim_eq_self_iff]
    exact ⟨rfl, by rw [decorated, ← List.append_assoc]; exact Text.trimEnd_append (by simp) rfl _⟩
  have hhead : without "/**".toList (decorated ls) =
      Text.unlines ([] :: ls.map (margin ++ ·)) ++ [' '] ++ ['*', '/'] := by
    rw [without, decorated, Text.unlines_cons]
    simp [Text.after?]
  have htail : Text.before? "*/".toList
      (Text.unlines ([] :: ls.map (margin ++ ·)) ++ [' '] ++ ['*', '/']) =
      some (Text.unlines ([] :: ls.map (margin ++ ·)) ++ [' ']) := Text.before?_eq_some_iff.mpr rfl
  have hlines : Text.lines (Text.unlines ([] :: ls.map (margin ++ ·)) ++ [' ']) =
      ([] :: ls.map (margin ++ ·)) ++ [[' ']] := by
    apply Text.lines_unlines
    rw [List.forall_mem_cons, List.forall_mem_map]
    refine ⟨by simp, fun line hline => ?_⟩
    obtain ⟨hnewline, hreturn⟩ := h line hline
    simp [margin, hnewline, hreturn]
  have hmargins : (([] :: ls.map (margin ++ ·)) ++ [[' ']]).map
      (fun line => Text.trimEnd (withoutMargin line)) = ([] :: ls.map Text.trimEnd) ++ [[]] := by
    rw [List.map_append, List.map_cons, List.map_map]
    rfl
  simp only [clean, htrim, hhead, htail, Option.getD_some, hlines, hmargins]
  rw [Text.join_concat (List.cons_ne_nil _ _), ← Text.unlines_eq_join (List.cons_ne_nil _ _),
    Text.unlines_cons, List.nil_append]

theorem isComment_decorated {ls : List (List Char)}
    (h : ∀ line ∈ ls, line.IsChain Source.StaysOpen) : Source.IsComment (decorated ls) := by
  have hlines : ∃ more, Text.unlines (ls.map (margin ++ ·)) ++ [' ', '*'] = ' ' :: more ∧
      (' ' :: more).IsChain Source.StaysOpen := by
    induction ls with
    | nil => exact ⟨['*'], rfl, by simp [Source.StaysOpen]⟩
    | cons line ls ih =>
      obtain ⟨hline, hls⟩ := List.forall_mem_cons.mp h
      obtain ⟨more, hmore, hopen⟩ := ih hls
      refine ⟨'*' :: ' ' :: (line ++ '\n' :: ' ' :: more), ?_, ?_⟩
      · rw [List.map_cons, Text.unlines_cons, List.append_assoc, List.cons_append, hmore]
        simp [margin]
      · have hbreak := Source.isChain_cons_of_ne_star (show '\n' ≠ '*' by decide) hopen
        have hrest := Source.isChain_append_cons_of_ne_slash (by decide) hline hbreak
        have hspace := Source.isChain_cons_of_ne_star (show ' ' ≠ '*' by decide) hrest
        have hstar := Source.isChain_append_cons_of_ne_slash (by decide) (.singleton '*') hspace
        exact Source.isChain_cons_of_ne_star (by decide) hstar
  obtain ⟨more, hmore, hopen⟩ := hlines
  refine ⟨'*' :: '\n' :: (Text.unlines (ls.map (margin ++ ·)) ++ [' ']), by simp [decorated], ?_⟩
  have hinner : '*' :: '\n' :: (Text.unlines (ls.map (margin ++ ·)) ++ [' ']) ++ ['*'] =
      ['*'] ++ '\n' :: ' ' :: more := by
    rw [← hmore]
    simp
  rw [← Source.isChain_staysOpen_iff, hinner]
  have hbreak := Source.isChain_cons_of_ne_star (show '\n' ≠ '*' by decide) hopen
  exact Source.isChain_append_cons_of_ne_slash (by decide) (.singleton '*') hbreak

theorem IsLine.holds {line : List Char} (h : IsLine line) (hnewline : '\n' ∉ line) : Holds line :=
  ⟨hnewline, h.unbroken, Source.isChain_staysOpen_iff.mpr h.staysOpen⟩

end Comment

namespace Tag.Printable

variable {tag : Tag} (h : tag.Printable)

include h

theorem holds_head : Comment.Holds tag.head := by
  have hmarks : ∀ c ∈ tag.head, c ∉ ['!', '*', '\n', '\r'] := by
    intro c hc
    rcases List.mem_cons.mp hc with rfl | hc
    · decide
    · exact (Comment.of_mem_title h.title hc).2.2
  refine ⟨fun hc => hmarks _ hc (by simp), fun hc => hmarks _ hc (by simp), ?_⟩
  rw [Source.isChain_staysOpen_iff]
  exact fun hmark => hmarks '*' (hmark.subset (by simp)) (by simp)

theorem holds_lines : ∀ line ∈ tag.lines, Comment.Holds line := by
  have hvalue : ∀ line ∈ Text.split '\n' tag.value, Comment.Holds line := fun line hline =>
    (h.lines line hline).holds (Text.not_mem_of_mem_split hline)
  obtain ⟨first, more, hsplit⟩ := List.exists_cons_of_ne_nil (Text.split_ne_nil '\n' tag.value)
  rw [hsplit, List.forall_mem_cons] at hvalue
  obtain ⟨hfirst, hmore⟩ := hvalue
  simp only [Tag.lines, hsplit]
  split
  · exact List.forall_mem_cons.mpr ⟨h.holds_head, List.forall_mem_cons.mpr ⟨hfirst, hmore⟩⟩
  · refine List.forall_mem_cons.mpr ⟨⟨?_, ?_, ?_⟩, hmore⟩
    · simp [h.holds_head.1, hfirst.1]
    · simp [h.holds_head.2.1, hfirst.2.1]
    · exact Source.isChain_append_cons_of_ne_slash (by decide) h.holds_head.2.2
        (Source.isChain_cons_of_ne_star (by decide) hfirst.2.2)

theorem last_line {first : List Char} {more : List (List Char)}
    (hsplit : Text.split '\n' tag.value = first :: more) :
    ∀ line ∈ more.getLast?, Text.isBlankLine line = false := by
  intro line hline
  have hne : tag.value ≠ [] := by
    intro hnil
    rw [hnil] at hsplit
    cases hsplit
    cases hline
  obtain ⟨front, last, hlast, hblank⟩ := Text.exists_last_line h.trimEnd_value hne
  have hends := congrArg List.getLast? (hsplit.symm.trans hlast)
  rw [List.getLast?_cons, Option.mem_def.mp hline, List.getLast?_concat] at hends
  obtain rfl := Option.some.inj hends
  exact hblank

theorem isFramed_lines : Text.IsFramed (tag.lines.map Text.trimEnd) := by
  obtain ⟨first, more, hsplit, hlines⟩ := h.map_trimEnd_lines
  have hmark (behind : List Char) : Text.isBlankLine (tag.head ++ behind) = false := rfl
  rcases hlines with ⟨hblank, hlines⟩ | ⟨-, behind, -, -, hlines⟩
  · obtain ⟨-, hfirst, -⟩ := h.of_first_blank hsplit hblank
    rw [hlines]
    have hvalue := Text.isFramed_cons hfirst (h.last_line hsplit)
    exact Text.isFramed_cons (hmark []) hvalue.2
  · rw [hlines]
    exact Text.isFramed_cons (hmark behind) (h.last_line hsplit)

end Tag.Printable

namespace Comment

theorem gather_tags {tags : List Tag} (h : ∀ tag ∈ tags, tag.Printable)
    (hown : ∀ tag ∈ tags, tag.startsAnother = false) :
    ∃ found, gather ((tags.flatMap Tag.lines).map Text.trimEnd) = ([], found) ∧
      found.map settle = tags := by
  induction tags with
  | nil => exact ⟨[], rfl, rfl⟩
  | cons tag tags ih =>
    obtain ⟨htag, htags⟩ := List.forall_mem_cons.mp h
    obtain ⟨htagOwn, htagsOwn⟩ := List.forall_mem_cons.mp hown
    obtain ⟨found, hgather, hsettle⟩ := ih htags htagsOwn
    have hbody : (gather ((tags.flatMap Tag.lines).map Text.trimEnd)).1 = [] := by rw [hgather]
    obtain ⟨value, hlines, hvalue⟩ := htag.gather_lines htagOwn hbody
    refine ⟨⟨tag.title, value⟩ :: found, ?_, by rw [List.map_cons, hvalue, hsettle]⟩
    rw [List.flatMap_cons, List.map_append, hlines, hgather]

theorem countP_tags {tags : List Tag} (h : ∀ tag ∈ tags, tag.Printable) :
    ((tags.flatMap Tag.lines).map Text.trimEnd).countP beginsTag =
      tags.length + tags.countP Tag.startsAnother := by
  induction tags with
  | nil => rfl
  | cons tag tags ih =>
    obtain ⟨htag, htags⟩ := List.forall_mem_cons.mp h
    rw [List.flatMap_cons, List.map_append, List.countP_append, htag.countP_lines, ih htags,
      List.length_cons, List.countP_cons]
    omega

namespace Printable

variable {c : Comment} (h : c.Printable)

include h

theorem plain_textLines : ∀ line ∈ c.textLines,
    Text.trimEnd line = line ∧ beginsTag line = false ∧ Holds line := by
  rw [textLines]
  cases hdescription : c.description with
  | none => exact List.forall_mem_nil _
  | some text =>
    intro line hline
    obtain ⟨hplain, htag⟩ := (h.description text hdescription).2.2 line hline
    exact ⟨hplain.trimmed, htag, hplain.holds (Text.not_mem_of_mem_split hline)⟩

theorem isFramed_textLines : Text.IsFramed c.textLines := by
  rw [textLines]
  cases hdescription : c.description with
  | none => exact Text.isFramed_nil
  | some text =>
    obtain ⟨hne, htrim, -⟩ := h.description text hdescription
    exact Text.isFramed_split hne htrim

theorem holds_lines : ∀ line ∈ c.lines, Holds line := by
  rw [Comment.lines]
  refine List.forall_mem_append.mpr ⟨fun line hline => (h.plain_textLines line hline).2.2, ?_⟩
  intro line hline
  obtain ⟨tag, htag, hline⟩ := List.mem_flatMap.mp hline
  exact (h.tags tag htag).holds_lines line hline

theorem map_trimEnd_lines : c.lines.map Text.trimEnd =
    c.textLines ++ (c.tags.flatMap Tag.lines).map Text.trimEnd := by
  have htext := Text.map_trimEnd fun line hline => (h.plain_textLines line hline).1
  rw [Comment.lines, List.map_append, htext]

theorem isFramed_lines : Text.IsFramed (c.lines.map Text.trimEnd) := by
  have htags (tags : List Tag) (hall : ∀ tag ∈ tags, tag.Printable) :
      Text.IsFramed ((tags.flatMap Tag.lines).map Text.trimEnd) := by
    induction tags with
    | nil => exact Text.isFramed_nil
    | cons tag tags ih =>
      obtain ⟨htag, hmore⟩ := List.forall_mem_cons.mp hall
      rw [List.flatMap_cons, List.map_append]
      exact htag.isFramed_lines.append (ih hmore)
  rw [h.map_trimEnd_lines]
  exact h.isFramed_textLines.append (htags c.tags h.tags)

theorem lines_clean : Text.lines (clean c.written) = c.lines.map Text.trimEnd := by
  have hbreaks : ∀ line ∈ c.lines, '\n' ∉ line ∧ '\r' ∉ line := fun line hline =>
    ⟨(h.holds_lines line hline).1, (h.holds_lines line hline).2.1⟩
  have hkept : ∀ line ∈ c.lines.map Text.trimEnd, '\n' ∉ line ∧ '\r' ∉ line := by
    refine List.forall_mem_map.mpr fun line hline => ?_
    have hsub : Text.trimEnd line ⊆ line := List.IsPrefix.subset (List.rdropWhile_prefix _ _)
    exact ⟨fun hmem => (hbreaks line hline).1 (hsub hmem),
      fun hmem => (hbreaks line hline).2 (hsub hmem)⟩
  have htrimmed : ∀ line ∈ c.lines.map Text.trimEnd, Text.trimEnd line = line :=
    List.forall_mem_map.mpr fun line _ => List.rdropWhile_idempotent _ line
  rw [written, clean_decorated hbreaks,
    Text.trimBlankLines_unlines h.isFramed_lines (fun line hline => (hkept line hline).1) htrimmed,
    Text.lines_join h.isFramed_lines hkept]

theorem scan_written (file : String) :
    ∃ block, Source.scan file c.written = .ok [block] ∧ block.comment = c.written :=
  ⟨_, Source.scan_of_isComment
    (isComment_decorated fun line hline => (h.holds_lines line hline).2.2) rfl file, rfl⟩

theorem ofRaw_written : ofRaw c.written =
    { description := Text.nonEmpty? (Text.join ['\n'] (gather (c.lines.map Text.trimEnd)).1)
      tags := (gather (c.lines.map Text.trimEnd)).2.map settle } := by
  simp only [ofRaw, ofText, h.lines_clean]

theorem length_tags_ofRaw : (ofRaw c.written).tags.length =
    c.tags.length + c.tags.countP Tag.startsAnother := by
  have htext := countP_beginsTag fun line hline => (h.plain_textLines line hline).2.1
  rw [h.ofRaw_written, List.length_map, length_gather, h.map_trimEnd_lines, List.countP_append,
    htext, countP_tags h.tags, Nat.zero_add]

theorem ofRaw_written_of_own (hown : ∀ tag ∈ c.tags, tag.startsAnother = false) :
    ofRaw c.written = c := by
  obtain ⟨found, hgather, hsettle⟩ := gather_tags h.tags hown
  have hbody := gather_append (fun line hline => (h.plain_textLines line hline).2.1)
    ((c.tags.flatMap Tag.lines).map Text.trimEnd)
  rw [← h.map_trimEnd_lines, hgather, List.append_nil] at hbody
  have hdescription : Text.nonEmpty? (Text.join ['\n'] c.textLines) = c.description := by
    rw [textLines]
    cases hc : c.description with
    | none => rfl
    | some text =>
      obtain ⟨hne, htrim, -⟩ := h.description text hc
      obtain ⟨d, ds, rfl⟩ := List.exists_cons_of_ne_nil hne
      change Text.nonEmpty? (Text.join ['\n'] (Text.split '\n' (d :: ds))) = some (d :: ds)
      rw [Text.join_split, Text.nonEmpty?, htrim]
  rw [h.ofRaw_written, hbody, hdescription, hsettle]

end Printable

/-- A written comment is scanned as one block, and read back as it was exactly if no value starts on
a line of its own that begins a tag. -/
theorem ofRaw_written_iff {c : Comment} (h : c.Printable) (file : String) :
    ∃ block, Source.scan file c.written = .ok [block] ∧
      (ofRaw block.comment = c ↔ ∀ tag ∈ c.tags, tag.startsAnother = false) := by
  obtain ⟨block, hscan, hcomment⟩ := h.scan_written file
  refine ⟨block, hscan, ?_⟩
  rw [hcomment]
  refine ⟨fun hback => ?_, h.ofRaw_written_of_own⟩
  have hlength := h.length_tags_ofRaw
  rw [hback] at hlength
  have hnone : c.tags.countP Tag.startsAnother = 0 := by omega
  simpa using List.countP_eq_zero.mp hnone

def served : Comment where
  description := some "Serves pages.\n\n* from memory\n  - or from disk".toList
  tags :=
    [⟨"param", "\x7bstring\x7d path - where\nto look".toList⟩, ⟨"async", []⟩,
      ⟨"example", "  serve('/')\n\n    .then(end)".toList⟩]

theorem ofRaw_written_iff_served : served.Printable ∧
    ∃ block, Source.scan "serve.js" served.written = .ok [block] ∧
      (ofRaw block.comment = served ↔ ∀ tag ∈ served.tags, tag.startsAnother = false) :=
  have hprintable : served.Printable := by decide +kernel
  ⟨hprintable, ofRaw_written_iff hprintable "serve.js"⟩

def decorator : Comment where
  description := none
  tags := [⟨"function", []⟩, ⟨"name", "f".toList⟩, ⟨"example", "  @Component()".toList⟩]

theorem ofRaw_written_decorator : decorator.Printable ∧
    ∃ block, Source.scan "f.js" decorator.written = .ok [block] ∧
      ofRaw block.comment ≠ decorator := by
  have hprintable : decorator.Printable := by decide +kernel
  obtain ⟨block, hscan, hcomment⟩ := hprintable.scan_written "f.js"
  refine ⟨hprintable, block, hscan, ?_⟩
  rw [hcomment]
  decide +kernel

end Comment

end ApiPages
