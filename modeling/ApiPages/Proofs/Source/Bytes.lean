import ApiPages.Proofs.Source.Loops

/-!
Doc comments found by bytes are those found by characters. Wherever the next token is looked for, the
cursor stands between two characters, or behind the end of the text, and the lexer reads code there;
so one move of the cursor is a run of the lexer. Main statement: every cut is made between two
characters of the text, and none fails.
-/
namespace ApiPages.Source

namespace Cursor

def lexer (c : Cursor) : Lexer := { mode := .code, line := c.line, fresh := c.fresh }

theorem step_slash (c : Cursor) : c.lexer.step '/' = ⟨.slash, c.line, c.fresh⟩ := rfl

def Stands (text : List Char) (c : Cursor) (rest : List Char) : Prop :=
  At text c.index rest ∨ rest = [] ∧ (bytesOf text).length ≤ c.index

end Cursor

def Move.Reads (text : List Char) (c : Cursor) (rest : List Char) : Move → Prop
  | .next cuts found c' => (∀ cut ∈ cuts, cut.Fits text) ∧ ∃ ts rest', rest'.length < rest.length ∧
      c'.Stands text rest' ∧ c.lexer.Reaches rest ts c'.lexer rest' ∧
      c'.nesting = c.nesting.run ts ∧ found = c.nesting.blocks ts
  | .unclosed line reason => (c.lexer.run rest).unclosed? = some (line, reason)
  | .torn _ => False

section Moves

variable {text rest rest' : List Char} {c c' : Cursor} {d : Char}

theorem Move.reads_quiet (hread : c.lexer.Reaches (d :: rest) [] c'.lexer rest')
    (hlength : rest'.length ≤ rest.length) (hstands : c'.Stands text rest')
    (hnesting : c'.nesting = c.nesting) : (Move.next [] [] c').Reads text c (d :: rest) :=
  ⟨by simp, [], rest', Nat.lt_succ_of_le hlength, hstands, hread, hnesting, rfl⟩

theorem Move.reads_one (h : At text c.index (d :: rest)) (hd : d.toNat < 0x80)
    (hindex : c'.index = c.index + 1) (hstep : c.lexer.step d = c'.lexer)
    (hnesting : c'.nesting = c.nesting.run (Lexer.markOf d)) :
    (Move.next [] [] c').Reads text c (d :: rest) := by
  have hread := (Lexer.Reaches.refl c'.lexer rest).cons hstep
  rw [List.append_nil] at hread
  refine ⟨by simp, Lexer.markOf d, rest, Nat.lt_succ_self _, .inl ?_, hread, hnesting, ?_⟩
  · rw [hindex]
    exact h.next_of_ascii hd
  · exact (Nesting.blocks_of_isPlain (Lexer.isPlain_markOf d) c.nesting).symm

theorem reads_lineComment (h : At text c.index ('/' :: '/' :: rest)) :
    (Move.next [] [] { c with index := passWhile (bytesOf text) (· != byte '\n') c.index }).Reads
      text c ('/' :: '/' :: rest) := by
  have hlead (d : Char) : (lead d != byte '\n') = (d != '\n') :=
    congrArg not (lead_beq_byte (by decide))
  have hhigh (b : UInt8) (hb : 0x80 ≤ b) : (b != byte '\n') = true := by
    simpa using ne_byte_of_high hb (by decide)
  have hat := passWhile_at hlead hhigh h
  have hopen : Lexer.step ⟨.slash, c.line, c.fresh⟩ '/' = ⟨.lineComment, c.line, c.fresh⟩ := rfl
  have hread := (Lexer.lineComment_reaches c.line c.fresh rest).quiet hopen rfl
  exact Move.reads_quiet (hread.quiet c.step_slash rfl)
    (Nat.le_succ_of_le (List.length_dropWhile_le _ rest)) (.inl hat) rfl

theorem reads_pattern (h : At text c.index ('/' :: rest)) (hslash : rest.head? ≠ some '/')
    (hstar : rest.head? ≠ some '*') (hfresh : c.fresh = true) :
    (Move.next [] [] { c with
      index := patternEnd (bytesOf text) false (c.index + 1), fresh := false }).Reads
      text c ('/' :: rest) := by
  obtain ⟨rest', hlength, hat, hread⟩ :=
    patternEnd_reaches false c.line true (h.next_of_ascii (by decide))
  have hopened : Lexer.Reaches ⟨.slash, c.line, c.fresh⟩ rest [] ⟨.code, c.line, false⟩ rest' := by
    rw [hfresh]
    cases rest with
    | nil => exact ⟨hread.tokens, hread.unclosed⟩
    | cons d rest =>
      have hd : d ≠ '/' := fun hd => hslash (hd ▸ rfl)
      have hd' : d ≠ '*' := fun hd => hstar (hd ▸ rfl)
      have hstep : Lexer.step ⟨.slash, c.line, true⟩ d =
          Lexer.step ⟨.pattern false false, c.line, true⟩ d := by
        simp only [Lexer.step, if_neg hd, if_neg hd', if_true, Lexer.pattern, Lexer.advance]
      exact hread.of_step_eq hstep (by simp [Lexer.emit])
  exact Move.reads_quiet (hopened.quiet c.step_slash rfl) hlength (.inl hat) rfl

theorem reads_division (h : At text c.index ('/' :: rest)) (hslash : rest.head? ≠ some '/')
    (hstar : rest.head? ≠ some '*') (hfresh : c.fresh = false) :
    (Move.next [] [] { c with index := c.index + 1, fresh := true }).Reads
      text c ('/' :: rest) := by
  have hends : Lexer.EndsBefore ⟨.slash, c.line, false⟩ rest := by
    intro d hd
    have hd' : d ≠ '/' := fun he => hslash (he ▸ hd)
    have hd'' : d ≠ '*' := fun he => hstar (he ▸ hd)
    simp [Lexer.endsAt, Lexer.isBetween, hd', hd'']
  have hread := Lexer.Reaches.of_endsBefore hends rfl
  have hstep := c.step_slash
  rw [hfresh] at hstep
  exact Move.reads_quiet (hread.quiet hstep rfl) le_rfl (.inl (h.next_of_ascii (by decide))) rfl

theorem fits_of_at {s : List Char} {start stop : Nat} (hstart : At text start (s ++ rest))
    (hstop : At text stop rest) :
    Cut.text? text { start := start, stop := stop } = some s ∧
      Cut.Fits text { start := start, stop := stop } := by
  have htext : Cut.text? text { start := start, stop := stop } = some s :=
    Cut.text?_eq_some_iff.mpr ⟨rest, hstart, hstop⟩
  exact ⟨htext, Cut.fits_iff.mpr ⟨s, htext⟩⟩

theorem isDocAt_eq {i : Nat} {inner : List Char}
    (h : At text i ('/' :: '*' :: (inner ++ '*' :: '/' :: rest))) :
    isDocAt (bytesOf text) i = isDoc ('/' :: '*' :: (inner ++ ['*', '/'])) := by
  obtain ⟨a, b, more, more', hmore, hmore'⟩ : ∃ a b more more',
      inner ++ '*' :: '/' :: rest = a :: b :: more ∧ inner ++ ['*', '/'] = a :: b :: more' := by
    match inner with
    | [] => exact ⟨_, _, _, _, rfl, rfl⟩
    | [a] => exact ⟨_, _, _, _, rfl, rfl⟩
    | a :: b :: inner => exact ⟨_, _, _, _, rfl, rfl⟩
  rw [hmore] at h
  have hfirst := (h.next_of_ascii (by decide)).next_of_ascii (by decide)
  rw [hmore', isDocAt, hfirst.getElem?_cons]
  by_cases ha : a = '*'
  · subst ha
    have hsecond := (hfirst.next_of_ascii (by decide)).getElem?_cons
    rw [hsecond, isDoc, Bool.eq_iff_iff]
    simp [lead_eq_byte_iff (a := '*') (by decide), lead_eq_byte_iff (a := '/') (by decide)]
  · simp [lead_eq_byte_iff (a := '*') (by decide), isDoc, ha]

theorem blocks_comment (n : Nesting) (raw : List Char) (first last : Nat) (rest : List Char) :
    n.blocks [.comment raw first last rest] =
      if isDoc raw then [.of n raw first last rest] else [] := by
  simp [Nesting.blocks, Nesting.block]

theorem reads_comment {text rest : List Char} {c : Cursor}
    (h : At text c.index ('/' :: '*' :: rest)) :
    (c.comment text).Reads text c ('/' :: '*' :: rest) := by
  have hopen : Lexer.step ⟨.slash, c.line, c.fresh⟩ '*' =
      ⟨.comment c.line ['*', '/'] false, c.line, c.fresh⟩ := rfl
  have hinside := (h.next_of_ascii (by decide)).next_of_ascii (by decide)
  rw [Cursor.comment]
  rcases commentEnd?_reaches false c.line c.line ['*', '/'] c.fresh hinside (by simp) with
    ⟨inner, rest', last, rfl, hend, hread⟩ | ⟨hend, hunclosed⟩
  · have hwhole : At text c.index (('/' :: '*' :: (inner ++ ['*', '/'])) ++ rest') := by
      simpa using h
    have hstop := (hinside.behind.next_of_ascii (by decide)).next_of_ascii (by decide)
    have hbehind := hstop
    rw [← List.append_nil rest'] at hbehind
    obtain ⟨hraw, hrawFits⟩ := fits_of_at hwhole hstop
    obtain ⟨hrest, hrestFits⟩ := fits_of_at hbehind (.stop text)
    have hreads := (hread.quiet hopen rfl).quiet c.step_slash rfl
    have hlength : rest'.length < ('/' :: '*' :: (inner ++ '*' :: '/' :: rest')).length := by
      simp only [List.length_cons, List.length_append]
      omega
    rw [hend]
    simp only [isDocAt_eq h]
    split
    · rename_i hdoc
      simp only [hrest, hraw]
      exact ⟨by simp [hrawFits, hrestFits], _, rest', hlength, .inl hstop, hreads, rfl,
        ((blocks_comment _ _ _ _ _).trans (if_pos hdoc)).symm⟩
    · rename_i hdoc
      exact ⟨by simp, _, rest', hlength, .inl hstop, hreads, rfl,
        ((blocks_comment _ _ _ _ _).trans (if_neg hdoc)).symm⟩
  · rw [hend]
    exact hunclosed

theorem reads_quoted (hquote : isQuote d = true) (h : At text c.index (d :: rest)) :
    (c.quoted text (byte d)).Reads text c (d :: rest) := by
  have hstep : c.lexer.step d = ⟨.quoted d c.line false, c.line, c.fresh⟩ := by
    rcases Lexer.isQuote_iff.mp hquote with (rfl | rfl) | rfl <;> rfl
  have hemit : c.lexer.emit d rest = [] := by
    rcases Lexer.isQuote_iff.mp hquote with (rfl | rfl) | rfl <;> rfl
  rw [Cursor.quoted]
  have hinside := h.next_of_ascii (ascii_of_isQuote hquote)
  rcases quotedEnd_reaches hquote c.line c.line c.fresh hinside with
    ⟨rest', last, stop, hend, hlength, hat, hread⟩ | ⟨escaped, last, stop, hend, hlength, hread⟩
  · simp only [hend, Bool.not_true, Bool.false_and, Bool.false_eq_true, if_false]
    exact Move.reads_quiet (hread.quiet hstep hemit) hlength (.inl hat) rfl
  · simp only [hend, Bool.not_false, Bool.true_and]
    have hread' := hread.quiet hstep hemit
    by_cases htemplate : d = '\x60'
    · subst htemplate
      exact hread'.unclosed
    · have hother : ¬ (byte d == byte '\x60') = true := by
        simpa [byte_inj (ascii_of_isQuote hquote) (by decide : '\x60'.toNat < 0x80)] using htemplate
      have hclosed : (Lexer.mk (.quoted d c.line escaped) last c.fresh).unclosed? = none := by
        rcases Lexer.isQuote_iff.mp hquote with (rfl | rfl) | rfl
        · rfl
        · rfl
        · exact absurd rfl htemplate
      have hend' := Lexer.Reaches.of_endsBefore (Lexer.endsBefore_nil _) hclosed
      rw [if_neg hother]
      exact Move.reads_quiet (hread'.trans hend') (Nat.zero_le _) (.inr ⟨rfl, hlength⟩) rfl

theorem ne_of_isWordPart {a : Char} (h : isWordPart d = true) (ha : isWordPart a = false) :
    d ≠ a := by
  rintro rfl
  rw [h] at ha
  cases ha

theorem reads_word (hword : isWordPart d = true) (h : At text c.index (d :: rest)) :
    (c.word text).Reads text c (d :: rest) := by
  have hat := passWhile_at (fun d => isIdentByte_lead) (fun b => isIdentByte_of_high) h
  have hcut : At text c.index
      ((d :: rest).takeWhile isWordPart ++ (d :: rest).dropWhile isWordPart) := by
    rwa [List.takeWhile_append_dropWhile]
  obtain ⟨htext, hfits⟩ := fits_of_at hcut hat
  rw [List.takeWhile_cons_of_pos hword] at htext
  rw [List.dropWhile_cons_of_pos hword] at hat
  have hread := Lexer.word_reaches [d] c.line c.fresh rest
  have hne {a : Char} (ha : isWordPart a = false) : ¬ d = a := ne_of_isWordPart hword ha
  have hstep : c.lexer.step d = ⟨.word [d], c.line, c.fresh⟩ := by
    have hquote : ¬ isQuote d = true := fun hquote => by
      rcases Lexer.isQuote_iff.mp hquote with (rfl | rfl) | rfl <;> exact absurd hword (by decide)
    change c.lexer.code d = _
    rw [Lexer.code, if_neg (hne (by decide)), if_neg hquote, if_pos hword]
    rfl
  have hemit : c.lexer.emit d rest = [] := by
    change Lexer.markOf d = []
    rw [Lexer.markOf, if_neg (hne (by decide)), if_neg (hne (by decide)), if_neg (hne (by decide))]
  rw [Cursor.word]
  simp only [htext]
  exact ⟨by simpa using hfits, _, _, Nat.lt_succ_of_le (List.length_dropWhile_le _ rest), .inl hat,
    hread.quiet hstep hemit, rfl, rfl⟩

theorem move_slash_reads (h : At text c.index ('/' :: rest)) :
    (c.move text (byte '/')).Reads text c ('/' :: rest) := by
  have hnext {a : Char} (ha : a.toNat < 0x80) :=
    (h.next_of_ascii (by decide)).getElem?_eq_byte_iff ha
  dsimp only [Cursor.move]
  rw [if_neg (by decide)]
  by_cases hslash : rest.head? = some '/'
  · obtain ⟨rest, rfl⟩ := List.head?_eq_some_iff.mp hslash
    rw [if_pos ⟨rfl, (hnext (by decide)).mpr rfl⟩]
    exact reads_lineComment h
  rw [if_neg fun hc => hslash ((hnext (by decide)).mp hc.2)]
  by_cases hstar : rest.head? = some '*'
  · obtain ⟨rest, rfl⟩ := List.head?_eq_some_iff.mp hstar
    rw [if_pos ⟨rfl, (hnext (by decide)).mpr rfl⟩]
    exact reads_comment h
  rw [if_neg fun hc => hstar ((hnext (by decide)).mp hc.2)]
  by_cases hfresh : c.fresh = true
  · rw [if_pos ⟨rfl, hfresh⟩]
    exact reads_pattern h hslash hstar hfresh
  · rw [if_neg fun hc => hfresh hc.2, if_neg (by decide), if_neg (by decide), if_neg (by decide),
      if_neg (by decide), if_neg (by decide), if_neg (by decide)]
    exact reads_division h hslash hstar (by simpa using hfresh)

theorem isQuoteByte_lead : isQuoteByte (lead d) = isQuote d := by
  simp (disch := decide) only [isQuoteByte, isQuote, lead_beq_byte]

theorem move_reads (h : At text c.index (d :: rest)) :
    (c.move text (lead d)).Reads text c (d :: rest) := by
  by_cases hslash : d = '/'
  · subst hslash
    rw [lead_of_ascii (by decide)]
    exact move_slash_reads h
  have hlead {a : Char} (ha : a.toNat < 0x80) (hd : d ≠ a) : ¬ lead d = byte a :=
    mt (lead_eq_byte_iff ha).mp hd
  have hno : ∀ p : Prop, ¬ (lead d = byte '/' ∧ p) := fun p hc => hlead (by decide) hslash hc.1
  simp only [Cursor.move]
  by_cases hbreak : d = '\n'
  · subst hbreak
    rw [if_pos (lead_of_ascii (by decide))]
    exact Move.reads_one h (by decide) rfl rfl rfl
  rw [if_neg (hlead (by decide) hbreak), if_neg (hno _), if_neg (hno _), if_neg (hno _)]
  by_cases hquote : isQuote d = true
  · rw [if_pos (isQuoteByte_lead.trans hquote), lead_of_ascii (ascii_of_isQuote hquote)]
    exact reads_quoted hquote h
  rw [if_neg (by rwa [isQuoteByte_lead])]
  by_cases hopen : d = '\x7b'
  · subst hopen
    rw [if_pos (lead_of_ascii (by decide))]
    exact Move.reads_one h (by decide) rfl rfl rfl
  by_cases hclose : d = '\x7d'
  · subst hclose
    rw [if_neg (hlead (by decide) hopen), if_pos (lead_of_ascii (by decide))]
    exact Move.reads_one h (by decide) rfl rfl rfl
  rw [if_neg (hlead (by decide) hopen), if_neg (hlead (by decide) hclose)]
  by_cases hword : isWordPart d = true
  · rw [if_pos (isIdentByte_lead.trans hword)]
    exact reads_word hword h
  rw [if_neg (by rwa [isIdentByte_lead])]
  by_cases hsemicolon : d = ';'
  · subst hsemicolon
    rw [if_pos (lead_of_ascii (by decide))]
    exact Move.reads_one h (by decide) rfl rfl rfl
  rw [if_neg (hlead (by decide) hsemicolon)]
  by_cases hblank : d = ' ' ∨ d = '\t' ∨ d = '\r'
  · rw [if_pos (hblank.imp (lead_eq_byte_iff (by decide)).mpr
      (Or.imp (lead_eq_byte_iff (by decide)).mpr (lead_eq_byte_iff (by decide)).mpr))]
    rcases hblank with rfl | rfl | rfl <;> exact Move.reads_one h (by decide) rfl rfl rfl
  have hascii : d.toNat < 0x80 := by
    by_contra hhigh
    exact hword (by simp [isWordPart, Nat.le_of_not_lt hhigh])
  have hstep : c.lexer.step d = { c.lexer with fresh := !(d == ')' || d == ']') } := by
    have hblank' : [' ', '\t', '\r', '\n'].contains d = false := by
      simpa [not_or, hbreak] using hblank
    change c.lexer.code d = _
    rw [Lexer.code, if_neg hslash, if_neg hquote, if_neg hword, hblank']
    rfl
  have hmark : Lexer.markOf d = [] := by
    rw [Lexer.markOf, if_neg hopen, if_neg hclose, if_neg hsemicolon]
  rw [if_neg (not_or.mpr ⟨hlead (by decide) fun hd => hblank (.inl hd), not_or.mpr
      ⟨hlead (by decide) fun hd => hblank (.inr (.inl hd)),
        hlead (by decide) fun hd => hblank (.inr (.inr hd))⟩⟩),
    lead_beq_byte (by decide), lead_beq_byte (by decide)]
  exact Move.reads_one h hascii rfl hstep (by rw [hmark]; rfl)

end Moves

def Cursor.reading (file : String) (c : Cursor) (rest : List Char) : Except Problem (List Block) :=
  match (c.lexer.run rest).unclosed? with
  | some (line, reason) => .error (.badSource file line reason)
  | none => .ok (c.nesting.blocks (c.lexer.tokens rest))

section Scanning

variable {file : String} {text rest rest' : List Char} {c c' : Cursor} {ts : List Token}

theorem Cursor.Stands.getElem?_nil (h : c.Stands text []) : (bytesOf text)[c.index]? = none := by
  rcases h with h | ⟨-, h⟩
  · exact h.getElem?_nil
  · exact List.getElem?_eq_none h

theorem Cursor.Stands.at_cons {d : Char} (h : c.Stands text (d :: rest)) :
    At text c.index (d :: rest) := by
  rcases h with h | ⟨h, -⟩
  · exact h
  · cases h

theorem Cursor.reading_of_reaches (hread : c.lexer.Reaches rest ts c'.lexer rest')
    (hnesting : c'.nesting = c.nesting.run ts) :
    c.reading file rest = (c'.reading file rest').map (c.nesting.blocks ts ++ ·) := by
  rw [Cursor.reading, Cursor.reading, hread.unclosed, hread.tokens, Nesting.blocks_append, hnesting]
  split <;> rfl

/-- From wherever a cursor stands, no cut fails, and what is found is what the lexer finds. -/
theorem Cursor.scan_reads {rest : List Char} {c : Cursor} {n : Nat} (h : c.Stands text rest)
    (hn : rest.length ≤ n) : (∀ cut ∈ (c.scan file text n).cuts, cut.Fits text) ∧
      (c.scan file text n).result = some (c.reading file rest) := by
  induction n generalizing c rest with
  | zero =>
    obtain rfl := List.length_eq_zero_iff.mp (Nat.le_zero.mp hn)
    exact ⟨by simp [Cursor.scan], rfl⟩
  | succ n ih =>
    cases rest with
    | nil =>
      simp only [Cursor.scan, h.getElem?_nil]
      exact ⟨by simp, rfl⟩
    | cons d rest =>
      have hmove := move_reads h.at_cons
      simp only [Cursor.scan, h.at_cons.getElem?_cons]
      cases hresult : c.move text (lead d) with
      | next cuts found c' =>
        rw [hresult] at hmove
        obtain ⟨hfits, ts, rest', hlength, hstands, hread, hnesting, rfl⟩ := hmove
        obtain ⟨hbehind, hfound⟩ := ih hstands (by omega)
        refine ⟨fun cut hcut => ?_, ?_⟩
        · exact (List.mem_append.mp hcut).elim (hfits cut) (hbehind cut)
        · rw [c.reading_of_reaches hread hnesting]
          exact congrArg (Option.map (Except.map (c.nesting.blocks ts ++ ·))) hfound
      | unclosed line reason =>
        rw [hresult] at hmove
        have hunclosed : (c.lexer.run (d :: rest)).unclosed? = some (line, reason) := hmove
        exact ⟨by simp, by rw [Cursor.reading, hunclosed]⟩
      | torn cuts =>
        rw [hresult] at hmove
        exact hmove.elim

end Scanning

theorem length_le_length_bytesOf (text : List Char) : text.length ≤ (bytesOf text).length := by
  induction text with
  | nil => exact le_rfl
  | cons c text ih =>
    have hpos := c.utf8Size_pos
    rw [length_bytesOf_cons, List.length_cons]
    omega

/-- Every cut is made between two characters of the text, none fails, and the doc comments are those
that are found by characters. -/
theorem cuts_fit (file : String) (text : List Char) :
    (∀ cut ∈ (scanBytes file text).cuts, cut.Fits text) ∧
      (scanBytes file text).result = some (scan file text) :=
  Cursor.scan_reads (.inl (.start text)) (length_le_length_bytesOf text)

example : (scanBytes "a.js" "let é = '\\é\\".toList).cuts =
    [{ start := 0, stop := 3 }, { start := 4, stop := 6 }] := by
  decide +kernel

end ApiPages.Source
