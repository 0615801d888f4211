import ApiPages.Proofs.Source.Boundaries
import ApiPages.Proofs.Source.Junction

/-!
Loops over bytes against the lexer. A loop begins at a character, and inside a literal it may stand
at any byte, where what is left of a character is passed over. It ends at a character again, or at
the end of the text or behind it, and the lexer reads code there, with the tokens made on the way.
-/
namespace ApiPages.Source

/-- Reading `text` makes the tokens `ts` and goes on as `l'` does at `rest`. -/
structure Lexer.Reaches (l : Lexer) (text : List Char) (ts : List Token) (l' : Lexer)
    (rest : List Char) : Prop where
  tokens : l.tokens text = ts ++ l'.tokens rest
  unclosed : (l.run text).unclosed? = (l'.run rest).unclosed?

namespace Lexer

variable {l l' : Lexer} {text rest : List Char} {ts us : List Token} {c : Char}

namespace Reaches

theorem refl (l : Lexer) (text : List Char) : l.Reaches text [] l text := ⟨rfl, rfl⟩

theorem trans {l'' : Lexer} {rest' : List Char} (h : l.Reaches text ts l' rest)
    (h' : l'.Reaches rest us l'' rest') : l.Reaches text (ts ++ us) l'' rest' :=
  ⟨by rw [h.tokens, h'.tokens, List.append_assoc], h.unclosed.trans h'.unclosed⟩

theorem cons {l₁ : Lexer} (hstep : l.step c = l₁) (h : l₁.Reaches text us l' rest) :
    l.Reaches (c :: text) (l.emit c text ++ us) l' rest := by
  subst hstep
  exact ⟨by rw [Lexer.tokens, h.tokens, List.append_assoc], h.unclosed⟩

theorem quiet {l₁ : Lexer} (hstep : l.step c = l₁) (hemit : l.emit c text = [])
    (h : l₁.Reaches text us l' rest) : l.Reaches (c :: text) us l' rest := by
  have hread := h.cons hstep
  rwa [hemit] at hread

theorem of_step_eq {l₁ : Lexer} (hstep : l₁.step c = l.step c)
    (hemit : l₁.emit c text = l.emit c text) (h : l.Reaches (c :: text) ts l' rest) :
    l₁.Reaches (c :: text) ts l' rest := by
  constructor
  · rw [Lexer.tokens, hemit, hstep]
    exact h.tokens
  · rw [run, List.foldl_cons, hstep]
    exact h.unclosed

theorem of_endsBefore (h : l.EndsBefore rest) (hclosed : l.unclosed? = none) :
    l.Reaches rest l.close l.resumed rest :=
  ⟨tokens_of_endsBefore h, unclosed?_of_endsBefore hclosed h⟩

end Reaches

theorem endsBefore_nil (l : Lexer) : l.EndsBefore [] := fun _ h => absurd h (by simp)

theorem endsBefore_cons : l.EndsBefore (c :: rest) ↔ l.endsAt c = true := by
  simp [EndsBefore]

variable {line first : Nat} {fresh : Bool}

theorem lineComment_reaches (line : Nat) (fresh : Bool) (rest : List Char) :
    Reaches ⟨.lineComment, line, fresh⟩ rest [] ⟨.code, line, fresh⟩
      (rest.dropWhile (· != '\n')) := by
  induction rest with
  | nil => exact .of_endsBefore (endsBefore_nil _) rfl
  | cons c rest ih =>
    by_cases hc : c = '\n'
    · subst hc
      exact .of_endsBefore (endsBefore_cons.mpr rfl) rfl
    · rw [List.dropWhile_cons_of_pos (by simpa using hc)]
      have hstep : step ⟨.lineComment, line, fresh⟩ c = ⟨.lineComment, line, fresh⟩ := by
        simp only [step, advance, if_neg hc]
      exact ih.quiet hstep rfl

theorem word_reaches (letters : List Char) (line : Nat) (fresh : Bool) (rest : List Char) :
    Reaches ⟨.word letters, line, fresh⟩ rest
      [.word (letters.reverse ++ rest.takeWhile isWordPart)]
      ⟨.code, line, leadWords.contains (letters.reverse ++ rest.takeWhile isWordPart)⟩
      (rest.dropWhile isWordPart) := by
  induction rest generalizing letters with
  | nil =>
    rw [List.takeWhile_nil, List.append_nil]
    exact .of_endsBefore (endsBefore_nil _) rfl
  | cons c rest ih =>
    by_cases hc : isWordPart c
    · have hstep : step ⟨.word letters, line, fresh⟩ c = ⟨.word (c :: letters), line, fresh⟩ := by
        simp only [step, if_pos hc]
      have hemit : emit ⟨.word letters, line, fresh⟩ c rest = [] := by simp only [emit, if_pos hc]
      have hread := ih (c :: letters)
      rw [List.reverse_cons, List.append_assoc, List.singleton_append] at hread
      rw [List.takeWhile_cons_of_pos hc, List.dropWhile_cons_of_pos hc]
      exact hread.quiet hstep hemit
    · rw [List.takeWhile_cons_of_neg hc, List.dropWhile_cons_of_neg hc, List.append_nil]
      exact .of_endsBefore (endsBefore_cons.mpr (by simpa [endsAt, isBetween] using hc)) rfl

end Lexer

section Loops

variable {bytes : List UInt8} {text rest : List Char} {i line : Nat} {c : Char} {b : UInt8}

theorem passWhile_of_none {p : UInt8 → Bool} (h : bytes[i]? = none) : passWhile bytes p i = i := by
  rw [passWhile]
  split
  · rfl
  · simp_all

theorem passWhile_of_some {p : UInt8 → Bool} (h : bytes[i]? = some b) :
    passWhile bytes p i = if p b then passWhile bytes p (i + 1) else i := by
  rw [passWhile]
  split
  · simp_all
  · simp_all

theorem passWhile_at {p : UInt8 → Bool} {q : Char → Bool} (hlead : ∀ c, p (lead c) = q c)
    (hhigh : ∀ b, 0x80 ≤ b → p b = true) (h : At text i rest) :
    At text (passWhile (bytesOf text) p i) (rest.dropWhile q) := by
  induction rest generalizing i with
  | nil =>
    rw [passWhile_of_none h.getElem?_nil]
    exact h
  | cons c rest ih =>
    rw [passWhile_of_some h.getElem?_cons, hlead]
    split
    · rename_i hc
      rw [List.dropWhile_cons_of_pos hc]
      have hskip := h.skip (f := passWhile (bytesOf text) p) fun k b hb hhb => by
        rw [passWhile_of_some hb, if_pos (hhigh b hhb)]
      rw [hskip]
      exact ih h.next
    · rename_i hc
      rw [List.dropWhile_cons_of_neg hc]
      exact h

theorem patternEnd_of_none {inClass : Bool} (h : bytes[i]? = none) :
    patternEnd bytes inClass i = i := by
  rw [patternEnd]
  split
  · rfl
  · simp_all

theorem patternEnd_of_some {inClass : Bool} (h : bytes[i]? = some b) :
    patternEnd bytes inClass i =
      if b = byte '\\' ∧ (bytes[i + 1]?).any (· != byte '\n') then patternEnd bytes inClass (i + 2)
      else if b = byte '\n' then i
      else if b = byte '[' then patternEnd bytes true (i + 1)
      else if b = byte ']' then patternEnd bytes false (i + 1)
      else if b = byte '/' ∧ ¬ inClass then i + 1
      else patternEnd bytes inClass (i + 1) := by
  rw [patternEnd]
  split
  · simp_all
  · rename_i b' hb
    cases h.symm.trans hb
    rfl

theorem patternEnd_high {inClass : Bool} (h : bytes[i]? = some b) (hb : 0x80 ≤ b) :
    patternEnd bytes inClass i = patternEnd bytes inClass (i + 1) := by
  have hne {a : Char} (ha : a.toNat < 0x80) : b ≠ byte a := ne_byte_of_high hb ha
  rw [patternEnd_of_some h, if_neg fun hc => hne (by decide) hc.1, if_neg (hne (by decide)),
    if_neg (hne (by decide)), if_neg (hne (by decide)), if_neg fun hc => hne (by decide) hc.1]

theorem patternEnd_cons (inClass : Bool) (h : At text i (c :: rest)) :
    patternEnd (bytesOf text) inClass i =
      if c = '\\' ∧ ((bytesOf text)[i + 1]?).any (· != byte '\n') then
        patternEnd (bytesOf text) inClass (i + 2)
      else if c = '\n' then i
      else if c = '[' then patternEnd (bytesOf text) true (i + c.utf8Size)
      else if c = ']' then patternEnd (bytesOf text) false (i + c.utf8Size)
      else if c = '/' ∧ ¬ inClass then i + 1
      else patternEnd (bytesOf text) inClass (i + c.utf8Size) := by
  have hskip {inClass : Bool} := h.skip (f := patternEnd (bytesOf text) inClass)
    fun k b hb hhb => patternEnd_high hb hhb
  rw [patternEnd_of_some h.getElem?_cons]
  simp (disch := decide) only [lead_eq_byte_iff, hskip]

theorem patternEnd_newline (inClass : Bool) (h : At text i ('\n' :: rest)) :
    patternEnd (bytesOf text) inClass i = i := by
  rw [patternEnd_cons inClass h, if_neg fun hc => absurd hc.1 (by decide), if_pos rfl]

theorem patternEnd_lastEscape (inClass : Bool) (h : At text i ('\\' :: rest))
    (hend : ∀ d ∈ rest.head?, d = '\n') : patternEnd (bytesOf text) inClass i = i + 1 := by
  have hnext := h.next_of_ascii (by decide)
  have hsize : ('\\' : Char).utf8Size = 1 := utf8Size_of_ascii (by decide)
  rw [patternEnd_cons inClass h, hsize]
  cases rest with
  | nil => simp [hnext.getElem?_nil, patternEnd_of_none hnext.getElem?_nil]
  | cons d rest =>
    obtain rfl := hend d rfl
    rw [hnext.getElem?_cons, lead_of_ascii (by decide)]
    simp [patternEnd_newline inClass hnext]

theorem patternEnd_escape (inClass : Bool) (h : At text i ('\\' :: c :: rest)) (hc : c ≠ '\n') :
    patternEnd (bytesOf text) inClass i =
      patternEnd (bytesOf text) inClass (i + 1 + c.utf8Size) := by
  have hnext := h.next_of_ascii (by decide)
  have hbyte : ((bytesOf text)[i + 1]?).any (· != byte '\n') = true := by
    rw [hnext.getElem?_cons]
    simpa [lead_eq_byte_iff (a := '\n') (by decide)] using hc
  rw [patternEnd_cons inClass h, if_pos ⟨rfl, hbyte⟩]
  exact hnext.skip (f := patternEnd (bytesOf text) inClass) fun k b hb hhb => patternEnd_high hb hhb

theorem patternEnd_goes_on {inClass : Bool} (line : Nat) (fresh : Bool) (h : At text i (c :: rest))
    (hbreak : c ≠ '\n') (hescape : c ≠ '\\') (hslash : ¬ (c = '/' ∧ ¬ inClass)) : ∃ inClass',
    patternEnd (bytesOf text) inClass i = patternEnd (bytesOf text) inClass' (i + c.utf8Size) ∧
      Lexer.step ⟨.pattern inClass false, line, fresh⟩ c =
        ⟨.pattern inClass' false, line, fresh⟩ := by
  rw [patternEnd_cons inClass h, if_neg fun hc => hescape hc.1, if_neg hbreak, if_neg hslash]
  simp only [Lexer.step, Lexer.pattern, if_neg hbreak, if_neg hescape, Bool.false_eq_true, if_false,
    if_neg hslash]
  by_cases hopen : c = '['
  · exact ⟨true, by rw [if_pos hopen], by rw [if_pos hopen]⟩
  by_cases hclose : c = ']'
  · exact ⟨false, by rw [if_neg hopen, if_pos hclose], by rw [if_neg hopen, if_pos hclose]⟩
  · exact ⟨inClass, by rw [if_neg hopen, if_neg hclose], by rw [if_neg hopen, if_neg hclose]⟩

theorem patternEnd_reaches {text rest : List Char} {i : Nat} (inClass : Bool) (line : Nat)
    (fresh : Bool) (h : At text i rest) :
    ∃ rest', rest'.length ≤ rest.length ∧ At text (patternEnd (bytesOf text) inClass i) rest' ∧
      Lexer.Reaches ⟨.pattern inClass false, line, fresh⟩ rest [] ⟨.code, line, false⟩ rest' := by
  cases rest with
  | nil =>
    rw [patternEnd_of_none h.getElem?_nil]
    exact ⟨[], le_rfl, h, .of_endsBefore (Lexer.endsBefore_nil _) rfl⟩
  | cons c rest =>
    by_cases hbreak : c = '\n'
    · subst hbreak
      rw [patternEnd_newline inClass h]
      exact ⟨_, le_rfl, h, .of_endsBefore (Lexer.endsBefore_cons.mpr rfl) rfl⟩
    by_cases hescape : c = '\\'
    · subst hescape
      have hnext := h.next_of_ascii (by decide)
      have hstep : Lexer.step ⟨.pattern inClass false, line, fresh⟩ '\\' =
        ⟨.pattern inClass true, line, fresh⟩ := rfl
      by_cases hend : ∀ d ∈ rest.head?, d = '\n'
      · have hends : Lexer.EndsBefore ⟨.pattern inClass true, line, fresh⟩ rest :=
          fun d hd => by simp [Lexer.endsAt, hend d hd]
        rw [patternEnd_lastEscape inClass h hend]
        exact ⟨rest, by simp, hnext, (Lexer.Reaches.of_endsBefore hends rfl).quiet hstep rfl⟩
      · obtain ⟨d, hd, hd'⟩ : ∃ d ∈ rest.head?, d ≠ '\n' := by simpa using hend
        obtain ⟨rest, rfl⟩ := List.head?_eq_some_iff.mp hd
        obtain ⟨rest', hlength, hat, hread⟩ := patternEnd_reaches inClass line fresh hnext.next
        have hpassed : Lexer.step ⟨.pattern inClass true, line, fresh⟩ d =
            ⟨.pattern inClass false, line, fresh⟩ := by
          simp only [Lexer.step, Lexer.pattern, if_neg hd', if_true]
        rw [patternEnd_escape inClass h hd']
        exact ⟨rest', by simp only [List.length_cons]; omega, hat,
          (hread.quiet hpassed rfl).quiet hstep rfl⟩
    by_cases hslash : c = '/' ∧ ¬ inClass
    · obtain ⟨rfl, hclass⟩ := hslash
      obtain rfl : inClass = false := by simpa using hclass
      have hend : patternEnd (bytesOf text) false i = i + 1 := by
        rw [patternEnd_cons false h]
        simp
      rw [hend]
      exact ⟨rest, by simp, h.next_of_ascii (by decide), (Lexer.Reaches.refl _ rest).quiet rfl rfl⟩
    · obtain ⟨inClass', hend, hstep⟩ := patternEnd_goes_on line fresh h hbreak hescape hslash
      obtain ⟨rest', hlength, hat, hread⟩ := patternEnd_reaches inClass' line fresh h.next
      rw [hend]
      exact ⟨rest', by simp only [List.length_cons]; omega, hat, hread.quiet hstep rfl⟩
termination_by rest.length

theorem commentEnd?_of_none (h : bytes[i]? = none) : commentEnd? bytes line i = none := by
  rw [commentEnd?]
  split
  · rfl
  · simp_all

theorem commentEnd?_of_some (h : bytes[i]? = some b) :
    commentEnd? bytes line i =
      if b = byte '\n' then commentEnd? bytes (line + 1) (i + 1)
      else if b = byte '*' ∧ bytes[i + 1]? = some (byte '/') then some (i + 2, line)
      else commentEnd? bytes line (i + 1) := by
  rw [commentEnd?]
  split
  · simp_all
  · rename_i b' hb
    cases h.symm.trans hb
    rfl

theorem commentEnd?_cons (line : Nat) (h : At text i (c :: rest)) :
    commentEnd? (bytesOf text) line i =
      if c = '*' ∧ rest.head? = some '/' then some (i + 2, line)
      else commentEnd? (bytesOf text) (line + Text.newlines [c]) (i + c.utf8Size) := by
  have hskip := h.skip (f := commentEnd? (bytesOf text) line) fun k b hb hhb => by
    rw [commentEnd?_of_some hb, if_neg (ne_byte_of_high hhb (by decide)),
      if_neg fun hc => ne_byte_of_high hhb (by decide) hc.1]
  rw [commentEnd?_of_some h.getElem?_cons]
  simp (disch := decide) only [lead_eq_byte_iff, hskip]
  by_cases hbreak : c = '\n'
  · subst hbreak
    rw [if_pos rfl, if_neg fun hc => absurd hc.1 (by decide)]
    rfl
  have hsame : line + Text.newlines [c] = line := by
    rw [Text.newlines_singleton, if_neg hbreak, Nat.add_zero]
  rw [if_neg hbreak, hsame]
  by_cases hstar : c = '*'
  · subst hstar
    simp only [(h.next_of_ascii (by decide)).getElem?_eq_byte_iff (by decide : '/'.toNat < 0x80)]
  · simp only [hstar, false_and, if_false]

theorem commentEnd?_reaches (star : Bool) (first line : Nat) (raw : List Char) (fresh : Bool)
    (h : At text i rest) (hstar : star = true → rest.head? ≠ some '/') :
    (∃ inner rest' last, rest = inner ++ '*' :: '/' :: rest' ∧
      commentEnd? (bytesOf text) line i = some (i + (bytesOf inner).length + 2, last) ∧
      Lexer.Reaches ⟨.comment first raw star, line, fresh⟩ rest
        [.comment (raw.reverse ++ inner ++ ['*', '/']) first last rest'] ⟨.code, last, fresh⟩ rest') ∨
    (commentEnd? (bytesOf text) line i = none ∧
      (Lexer.run ⟨.comment first raw star, line, fresh⟩ rest).unclosed? =
        some (first, "unterminated comment")) := by
  induction rest generalizing i line raw star with
  | nil => exact .inr ⟨commentEnd?_of_none h.getElem?_nil, rfl⟩
  | cons c rest ih =>
    have hopen : ¬ (star = true ∧ c = '/') := fun ⟨hs, hc⟩ => hstar hs (hc ▸ rfl)
    have hstep : Lexer.step ⟨.comment first raw star, line, fresh⟩ c =
        ⟨.comment first (c :: raw) (c == '*'), line + Text.newlines [c], fresh⟩ := by
      simp only [Lexer.step, if_neg hopen, Lexer.advance_eq]
    have hemit : Lexer.emit ⟨.comment first raw star, line, fresh⟩ c rest = [] := by
      simp only [Lexer.emit, if_neg hopen]
    rw [commentEnd?_cons line h]
    by_cases hclose : c = '*' ∧ rest.head? = some '/'
    · obtain ⟨rfl, hhead⟩ := hclose
      obtain ⟨rest, rfl⟩ := List.head?_eq_some_iff.mp hhead
      have hread := (Lexer.Reaches.refl ⟨.code, line, fresh⟩ rest).cons
        (c := '/') (l := ⟨.comment first ('*' :: raw) true, line, fresh⟩) rfl
      refine .inl ⟨[], rest, line, rfl, if_pos ⟨rfl, rfl⟩, .quiet hstep hemit ?_⟩
      rw [List.append_nil, ← List.reverse_reverse ['*', '/'], ← List.reverse_append]
      exact hread
    · have hstar' : (c == '*') = true → rest.head? ≠ some '/' := fun hc hhead =>
        hclose ⟨by simpa using hc, hhead⟩
      rw [if_neg hclose]
      rcases ih _ (line + Text.newlines [c]) (c :: raw) h.next hstar' with
        ⟨inner, rest', last, rfl, hend, hread⟩ | ⟨hend, hunclosed⟩
      · refine .inl ⟨c :: inner, rest', last, rfl, ?_, .quiet hstep hemit ?_⟩
        · rw [hend, length_bytesOf_cons, Nat.add_assoc i]
        · rw [List.reverse_cons, List.append_assoc raw.reverse] at hread
          exact hread
      · exact .inr ⟨hend, by rw [Lexer.run, List.foldl_cons, hstep]; exact hunclosed⟩

theorem quotedEnd_of_none {quote : UInt8} (h : bytes[i]? = none) :
    quotedEnd bytes quote line i = (false, line, i) := by
  rw [quotedEnd]
  split
  · rfl
  · simp_all

theorem quotedEnd_of_some {quote : UInt8} (h : bytes[i]? = some b) :
    quotedEnd bytes quote line i =
      if b = byte '\\' then
        quotedEnd bytes quote (if bytes[i + 1]? = some (byte '\n') then line + 1 else line) (i + 2)
      else if b = byte '\n' then
        if quote = byte '\x60' then quotedEnd bytes quote (line + 1) (i + 1)
        else (true, line + 1, i + 1)
      else if b = quote then (true, line, i + 1)
      else quotedEnd bytes quote line (i + 1) := by
  rw [quotedEnd]
  split
  · simp_all
  · rename_i b' hb
    cases h.symm.trans hb
    rfl

theorem ascii_of_isQuote {quote : Char} (h : isQuote quote = true) : quote.toNat < 0x80 := by
  rcases Lexer.isQuote_iff.mp h with (rfl | rfl) | rfl <;> decide

theorem quotedEnd_skip {quote : Char} (hquote : isQuote quote = true) (line : Nat)
    (h : At text i (c :: rest)) : quotedEnd (bytesOf text) (byte quote) line (i + 1) =
      quotedEnd (bytesOf text) (byte quote) line (i + c.utf8Size) := by
  refine h.skip (f := quotedEnd (bytesOf text) (byte quote) line) fun k b hb hhb => ?_
  have hne : b ≠ byte quote := ne_byte_of_high hhb (ascii_of_isQuote hquote)
  rw [quotedEnd_of_some hb, if_neg (ne_byte_of_high hhb (by decide)),
    if_neg (ne_byte_of_high hhb (by decide)), if_neg hne]

theorem quotedEnd_cons {quote : Char} (hquote : isQuote quote = true) (line : Nat)
    (h : At text i (c :: rest)) (hescape : c ≠ '\\') :
    quotedEnd (bytesOf text) (byte quote) line i =
      if c = quote ∨ (c = '\n' ∧ quote ≠ '\x60') then (true, line + Text.newlines [c], i + 1)
      else quotedEnd (bytesOf text) (byte quote) (line + Text.newlines [c]) (i + c.utf8Size) := by
  have hascii := ascii_of_isQuote hquote
  rw [quotedEnd_of_some h.getElem?_cons, ← quotedEnd_skip hquote _ h]
  simp (disch := first | decide | assumption) only [lead_eq_byte_iff, byte_inj, if_neg hescape]
  rw [Text.newlines_singleton]
  by_cases hbreak : c = '\n'
  · subst hbreak
    have hother : ¬ '\n' = quote := by
      rcases Lexer.isQuote_iff.mp hquote with (rfl | rfl) | rfl <;> decide
    simp only [hother, if_true, true_and, false_or]
    by_cases htemplate : quote = '\x60' <;> simp only [htemplate, ne_eq, not_true_eq_false,
      not_false_eq_true, if_true, if_false]
  · simp only [hbreak, false_and, or_false, if_false, Nat.add_zero]

theorem quotedEnd_escape {quote : Char} (hquote : isQuote quote = true) (line : Nat)
    (h : At text i ('\\' :: c :: rest)) : quotedEnd (bytesOf text) (byte quote) line i =
      quotedEnd (bytesOf text) (byte quote) (line + Text.newlines [c]) (i + 1 + c.utf8Size) := by
  have hnext := h.next_of_ascii (by decide)
  have hline : (if (bytesOf text)[i + 1]? = some (byte '\n') then line + 1 else line) =
      line + Text.newlines [c] := by
    simp (disch := decide) only [hnext.getElem?_cons, Option.some.injEq, lead_eq_byte_iff,
      Text.newlines_singleton]
    split <;> rfl
  rw [quotedEnd_of_some h.getElem?_cons, if_pos (lead_of_ascii (by decide)), hline]
  exact quotedEnd_skip hquote _ hnext

theorem quotedEnd_reaches {text rest : List Char} {i : Nat} {quote : Char}
    (hquote : isQuote quote = true) (first line : Nat) (fresh : Bool) (h : At text i rest) :
    (∃ rest' last stop, quotedEnd (bytesOf text) (byte quote) line i = (true, last, stop) ∧
      rest'.length ≤ rest.length ∧ At text stop rest' ∧
      Lexer.Reaches ⟨.quoted quote first false, line, fresh⟩ rest [] ⟨.code, last, false⟩ rest') ∨
    ∃ escaped last stop, quotedEnd (bytesOf text) (byte quote) line i = (false, last, stop) ∧
      (bytesOf text).length ≤ stop ∧
      Lexer.Reaches ⟨.quoted quote first false, line, fresh⟩ rest []
        ⟨.quoted quote first escaped, last, fresh⟩ [] := by
  cases rest with
  | nil => exact .inr ⟨false, line, i, quotedEnd_of_none h.getElem?_nil, h.eq_length.ge, .refl _ []⟩
  | cons c rest =>
    by_cases hescape : c = '\\'
    · subst hescape
      have hnext := h.next_of_ascii (by decide)
      have hstep : Lexer.step ⟨.quoted quote first false, line, fresh⟩ '\\' =
        ⟨.quoted quote first true, line, fresh⟩ := rfl
      cases rest with
      | nil =>
        have hlength := hnext.eq_length
        have hbehind : (bytesOf text)[i + 2]? = none := List.getElem?_eq_none (by omega)
        have hend : quotedEnd (bytesOf text) (byte quote) line i = (false, line, i + 2) := by
          rw [quotedEnd_of_some h.getElem?_cons, if_pos (lead_of_ascii (by decide)),
            hnext.getElem?_nil, if_neg (by simp), quotedEnd_of_none hbehind]
        exact .inr ⟨true, line, i + 2, hend, by omega, (Lexer.Reaches.refl _ []).quiet hstep rfl⟩
      | cons d rest =>
        have hpassed : Lexer.step ⟨.quoted quote first true, line, fresh⟩ d =
            ⟨.quoted quote first false, line + Text.newlines [d], fresh⟩ := by
          simp only [Lexer.step, Lexer.quoted, if_true, Lexer.advance_eq]
        rw [quotedEnd_escape hquote line h]
        rcases quotedEnd_reaches hquote first (line + Text.newlines [d]) fresh hnext.next with
          ⟨rest', last, stop, hend, hlength, hat, hread⟩ | ⟨escaped, last, stop, hend, hlength, hread⟩
        · exact .inl ⟨rest', last, stop, hend, by simp only [List.length_cons]; omega, hat,
            (hread.quiet hpassed rfl).quiet hstep rfl⟩
        · exact .inr ⟨escaped, last, stop, hend, hlength, (hread.quiet hpassed rfl).quiet hstep rfl⟩
    have hstep : Lexer.step ⟨.quoted quote first false, line, fresh⟩ c =
        if c = quote ∨ (c = '\n' ∧ quote ≠ '\x60') then ⟨.code, line + Text.newlines [c], false⟩
        else ⟨.quoted quote first false, line + Text.newlines [c], fresh⟩ := by
      simp only [Lexer.step, Lexer.quoted, Bool.false_eq_true, if_false, if_neg hescape,
        Lexer.advance_eq]
    rw [quotedEnd_cons hquote line h hescape]
    by_cases hclose : c = quote ∨ (c = '\n' ∧ quote ≠ '\x60')
    · have hascii : c.toNat < 0x80 := by
        rcases hclose with rfl | ⟨rfl, -⟩
        · exact ascii_of_isQuote hquote
        · decide
      rw [if_pos hclose] at hstep
      exact .inl ⟨rest, _, _, if_pos hclose, by simp, h.next_of_ascii hascii,
        (Lexer.Reaches.refl _ rest).quiet hstep rfl⟩
    · rw [if_neg hclose] at hstep ⊢
      rcases quotedEnd_reaches hquote first (line + Text.newlines [c]) fresh h.next with
        ⟨rest', last, stop, hend, hlength, hat, hread⟩ | ⟨escaped, last, stop, hend, hlength, hread⟩
      · exact .inl ⟨rest', last, stop, hend, by simp only [List.length_cons]; omega, hat,
          hread.quiet hstep rfl⟩
      · exact .inr ⟨escaped, last, stop, hend, hlength, hread.quiet hstep rfl⟩
termination_by rest.length

end Loops

end ApiPages.Source
