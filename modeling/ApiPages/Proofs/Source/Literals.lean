import ApiPages.Proofs.Source.Continuation
import ApiPages.Proofs.Source.Layout

/-!
Literals of a text. A literal is a list of characters between two marks, so no part of it can close
it early; the lexer passes over all of it without a token. Main statement: literals of one form,
over equally many lines, may stand for each other, and the blocks behind them stay the same.
-/
namespace ApiPages.Source

/-- A character of a literal, by itself or behind a backslash. -/
inductive Glyph where
  | plain (c : Char)
  | escaped (c : Char)
  deriving DecidableEq, Repr

inductive PatternPart where
  | single (glyph : Glyph)
  | oneOf (glyphs : List Glyph)
  deriving DecidableEq, Repr

inductive Literal where
  | string (quote : Char) (body : List Glyph)
  | template (body : List Glyph)
  | pattern (body : List PatternPart)
  deriving DecidableEq, Repr

namespace Glyph

def text : Glyph → List Char
  | .plain c => [c]
  | .escaped c => ['\\', c]

def fits (marks : List Char) : Glyph → Bool
  | .plain c => c != '\\' && !marks.contains c
  | .escaped _ => true

end Glyph

namespace PatternPart

def text : PatternPart → List Char
  | .single glyph => glyph.text
  | .oneOf glyphs => '[' :: (glyphs.flatMap Glyph.text ++ [']'])

def fits : PatternPart → Bool
  | .single glyph => glyph.fits ['/', '[']
  | .oneOf glyphs => glyphs.all (Glyph.fits [']'])

end PatternPart

namespace Literal

def mark : Literal → Char
  | .string quote _ => quote
  | .template _ => '\x60'
  | .pattern _ => '/'

def inner : Literal → List Char
  | .string _ body => body.flatMap Glyph.text
  | .template body => body.flatMap Glyph.text
  | .pattern body => body.flatMap PatternPart.text

def text (literal : Literal) : List Char := literal.mark :: (literal.inner ++ [literal.mark])

/-- Only the last mark of a literal closes it. Strings and regular expressions stay on one line, and
a regular expression begins as no comment does. -/
def IsClosed : Literal → Prop
  | .string quote body => (quote = '\'' ∨ quote = '"') ∧
      (∀ glyph ∈ body, glyph.fits [quote] = true) ∧ '\n' ∉ body.flatMap Glyph.text
  | .template body => ∀ glyph ∈ body, glyph.fits ['\x60'] = true
  | .pattern body => (∀ part ∈ body, part.fits = true) ∧ '\n' ∉ body.flatMap PatternPart.text ∧
      body ≠ [] ∧ body.head? ≠ some (.single (.plain '*'))

instance : (literal : Literal) → Decidable literal.IsClosed
  | .string _ _ => inferInstanceAs (Decidable (_ ∧ _ ∧ _))
  | .template _ => inferInstanceAs (Decidable (∀ _ ∈ _, _))
  | .pattern _ => inferInstanceAs (Decidable (_ ∧ _ ∧ _ ∧ _))

end Literal

def Lexer.isBetween (l : Lexer) (c : Char) : Bool :=
  match l.mode with
  | .code => true
  | .word _ => !isWordPart c
  | .slash => !l.fresh && c != '/' && c != '*'
  | _ => false

/-- What a block owes to the text up to the end of its comment. -/
def Block.site (b : Block) : List Char × Nat × Option Enclosing := (b.comment, b.line, b.enclosing)

namespace Mode

def inLiteral : Mode → Bool
  | .quoted _ _ _ => true
  | .pattern _ _ => true
  | _ => false

theorem emit_of_inLiteral {l : Lexer} (h : l.mode.inLiteral = true) (c : Char)
    (rest : List Char) : l.emit c rest = [] := by
  cases hmode : l.mode with
  | quoted quote first escaped => simp only [Lexer.emit, hmode]
  | pattern inClass escaped => simp only [Lexer.emit, hmode]
  | _ =>
    rw [hmode] at h
    cases h

def Leads (mode : Mode) (text : List Char) (mode' : Mode) : Prop :=
  ∀ l : Lexer, l.mode = mode →
    l.run text = { l with mode := mode', line := l.line + Text.newlines text } ∧
      ∀ behind, l.passing text behind = []

variable {mode mode' : Mode}

theorem leads_nil (mode : Mode) : mode.Leads [] mode := by
  intro l hmode
  subst hmode
  exact ⟨rfl, fun _ => rfl⟩

theorem Leads.append {s t : List Char} {mode'' : Mode} (hs : mode.Leads s mode')
    (ht : mode'.Leads t mode'') : mode.Leads (s ++ t) mode'' := by
  intro l hmode
  obtain ⟨hrun, hpassing⟩ := hs l hmode
  obtain ⟨hrun', hpassing'⟩ := ht (l.run s) (by rw [hrun])
  constructor
  · rw [Lexer.run_append, hrun', hrun, Text.newlines_append, Nat.add_assoc]
  · intro behind
    rw [Lexer.passing_append, hpassing, hpassing', List.append_nil]

theorem leads_flatMap {α : Type} {f : α → List Char} {items : List α}
    (h : ∀ item ∈ items, mode.Leads (f item) mode) : mode.Leads (items.flatMap f) mode := by
  induction items with
  | nil => exact mode.leads_nil
  | cons item items ih =>
    obtain ⟨hitem, hitems⟩ := List.forall_mem_cons.mp h
    exact hitem.append (ih hitems)

theorem leads_singleton (hinside : mode.inLiteral = true) {c : Char}
    (h : ∀ l : Lexer, l.mode = mode → l.step c = l.advance c mode') : mode.Leads [c] mode' := by
  intro l hmode
  constructor
  · change l.step c = _
    rw [h l hmode, Lexer.advance_eq]
  · intro behind
    rw [Lexer.passing, emit_of_inLiteral (by rwa [hmode])]
    rfl

section Quoted

variable {quote c : Char} {first : Nat}

theorem quoted_leads_plain (hescape : c ≠ '\\') (hquote : c ≠ quote)
    (hline : c = '\n' → quote = '\x60') :
    (Mode.quoted quote first false).Leads [c] (.quoted quote first false) := by
  have hopen : ¬ (c = quote ∨ c = '\n' ∧ quote ≠ '\x60') := by
    rintro (hclose | ⟨hnewline, hstring⟩)
    · exact hquote hclose
    · exact hstring (hline hnewline)
  refine leads_singleton rfl fun l hmode => ?_
  simp only [Lexer.step, hmode, Lexer.quoted, Bool.false_eq_true, if_false, if_neg hescape,
    if_neg hopen]

theorem quoted_leads_backslash :
    (Mode.quoted quote first false).Leads ['\\'] (.quoted quote first true) := by
  refine leads_singleton rfl fun l hmode => ?_
  simp only [Lexer.step, hmode, Lexer.quoted, Bool.false_eq_true, if_false, if_true]
  rfl

theorem quoted_leads_escaped (c : Char) :
    (Mode.quoted quote first true).Leads [c] (.quoted quote first false) := by
  refine leads_singleton rfl fun l hmode => ?_
  simp only [Lexer.step, hmode, Lexer.quoted, if_true]

theorem quoted_leads_glyph {glyph : Glyph} (h : glyph.fits [quote] = true)
    (hline : '\n' ∈ glyph.text → quote = '\x60') :
    (Mode.quoted quote first false).Leads glyph.text (.quoted quote first false) := by
  cases glyph with
  | plain c =>
    obtain ⟨hescape, hquote⟩ : c ≠ '\\' ∧ c ≠ quote := by simpa [Glyph.fits] using h
    exact quoted_leads_plain hescape hquote fun hc => hline (by simp [Glyph.text, hc])
  | escaped c => exact quoted_leads_backslash.append (quoted_leads_escaped c)

end Quoted

section Pattern

variable {c : Char} {inClass : Bool}

theorem pattern_leads_plain (hescape : c ≠ '\\') (hline : c ≠ '\n')
    (hmark : c ∉ if inClass then [']'] else ['/', '[']) :
    (Mode.pattern inClass false).Leads [c] (.pattern inClass false) := by
  refine leads_singleton rfl fun l hmode => ?_
  cases inClass <;> simp_all [Lexer.step, Lexer.pattern, Lexer.advance]

theorem pattern_leads_backslash :
    (Mode.pattern inClass false).Leads ['\\'] (.pattern inClass true) := by
  refine leads_singleton rfl fun l hmode => ?_
  simp only [Lexer.step, hmode, Lexer.pattern, Bool.false_eq_true, if_false, if_true]
  rfl

theorem pattern_leads_escaped (hline : c ≠ '\n') :
    (Mode.pattern inClass true).Leads [c] (.pattern inClass false) := by
  refine leads_singleton rfl fun l hmode => ?_
  simp only [Lexer.step, hmode, Lexer.pattern, Lexer.advance, if_neg hline, if_true]

theorem pattern_leads_glyph {glyph : Glyph}
    (h : glyph.fits (if inClass then [']'] else ['/', '[']) = true) (hline : '\n' ∉ glyph.text) :
    (Mode.pattern inClass false).Leads glyph.text (.pattern inClass false) := by
  cases glyph with
  | plain c =>
    obtain ⟨hescape, hmark⟩ : c ≠ '\\' ∧ c ∉ if inClass then [']'] else ['/', '['] := by
      simpa [Glyph.fits] using h
    exact pattern_leads_plain hescape (fun hc => hline (by simp [Glyph.text, hc])) hmark
  | escaped c =>
    have hc : c ≠ '\n' := fun hc => hline (by simp [Glyph.text, hc])
    exact pattern_leads_backslash.append (pattern_leads_escaped hc)

theorem pattern_leads_bracket :
    (Mode.pattern false false).Leads ['['] (.pattern true false) := by
  refine leads_singleton rfl fun l hmode => ?_
  simp [Lexer.step, hmode, Lexer.pattern, Lexer.advance]

theorem pattern_leads_unbracket :
    (Mode.pattern true false).Leads [']'] (.pattern false false) := by
  refine leads_singleton rfl fun l hmode => ?_
  simp [Lexer.step, hmode, Lexer.pattern, Lexer.advance]

theorem pattern_leads_part {part : PatternPart} (h : part.fits = true) (hline : '\n' ∉ part.text) :
    (Mode.pattern false false).Leads part.text (.pattern false false) := by
  cases part with
  | single glyph => exact pattern_leads_glyph h hline
  | oneOf glyphs =>
    have hglyphs : (Mode.pattern true false).Leads (glyphs.flatMap Glyph.text)
        (.pattern true false) := by
      refine leads_flatMap fun glyph hglyph => ?_
      have hfits : glyph.fits [']'] = true := List.all_eq_true.mp h glyph hglyph
      refine pattern_leads_glyph hfits fun hmem => hline ?_
      have hinner : '\n' ∈ glyphs.flatMap Glyph.text := List.mem_flatMap.mpr ⟨glyph, hglyph, hmem⟩
      simp [PatternPart.text, List.mem_flatMap.mp hinner]
    exact pattern_leads_bracket.append (hglyphs.append pattern_leads_unbracket)

end Pattern

end Mode

namespace Lexer

variable {l : Lexer}

theorem isQuote_iff {c : Char} : isQuote c = true ↔ (c = '\'' ∨ c = '"') ∨ c = '\x60' := by
  simp only [isQuote, Bool.or_eq_true, beq_iff_eq]

theorem step_quote {quote : Char} (hquote : isQuote quote = true) (h : l.isBetween quote = true) :
    (∃ fresh, l.step quote = ⟨.quoted quote l.line false, l.line, fresh⟩) ∧
      ∀ behind, l.emit quote behind = l.close := by
  have hmarks : quote ≠ '/' ∧ quote ≠ '*' ∧ isWordPart quote = false ∧ markOf quote = [] := by
    rcases isQuote_iff.mp hquote with (rfl | rfl) | rfl <;> decide
  obtain ⟨hslash, hstar, hword, hmark⟩ := hmarks
  have hcode (m : Lexer) : m.code quote = { m with mode := .quoted quote m.line false } := by
    rw [code, if_neg hslash, if_pos hquote]
  cases hmode : l.mode with
  | code =>
    refine ⟨⟨l.fresh, ?_⟩, fun behind => ?_⟩
    · simp only [step, hmode, hcode]
    · simp only [emit, close, hmode, hmark]
  | word letters =>
    refine ⟨⟨(l.wordDone letters).fresh, ?_⟩, fun behind => ?_⟩
    · simp only [step, hmode, hword, Bool.false_eq_true, if_false, hcode]
      rfl
    · simp only [emit, close, hmode, hword, hmark, Bool.false_eq_true, if_false]
  | slash =>
    have hfresh : l.fresh = false := by
      simp only [isBetween, hmode, Bool.and_eq_true, Bool.not_eq_true'] at h
      exact h.1.1
    refine ⟨⟨true, ?_⟩, fun behind => ?_⟩
    · simp only [step, hmode, if_neg hslash, if_neg hstar, hfresh, Bool.false_eq_true, if_false,
        hcode]
    · simp [emit, close, hmode, hslash, hstar, hfresh, hmark]
  | _ => simp [isBetween, hmode] at h

theorem step_slash (h : l.isBetween '/' = true) (hstart : l.mayStart = true) :
    l.step '/' = ⟨.slash, l.line, true⟩ ∧ ∀ behind, l.emit '/' behind = l.close := by
  cases hmode : l.mode with
  | code =>
    have hfresh : l.fresh = true := by simpa [mayStart, hmode] using hstart
    refine ⟨?_, fun behind => by simp only [emit, close, hmode]; rfl⟩
    simp only [step, hmode, code, if_true, hfresh]
  | word letters =>
    have hlead : leadWords.contains letters.reverse = true := by
      simpa only [mayStart, hmode] using hstart
    have hword : isWordPart '/' = false := rfl
    refine ⟨?_, fun behind => ?_⟩
    · simp only [step, hmode, hword, Bool.false_eq_true, if_false, code, if_true, wordDone, hlead]
    · simp only [emit, close, hmode, hword, Bool.false_eq_true, if_false]
      rfl
  | slash => simp [isBetween, hmode] at h
  | _ => simp [isBetween, hmode] at h

theorem passing_slash (line : Nat) {c : Char} (hslash : c ≠ '/') (hstar : c ≠ '*')
    (cs : List Char) :
    run ⟨.slash, line, true⟩ (c :: cs) = run ⟨.pattern false false, line, true⟩ (c :: cs) ∧
      ∀ behind, passing ⟨.slash, line, true⟩ (c :: cs) behind =
        passing ⟨.pattern false false, line, true⟩ (c :: cs) behind := by
  have hstep : step ⟨.slash, line, true⟩ c = step ⟨.pattern false false, line, true⟩ c := by
    simp only [step, if_neg hslash, if_neg hstar, if_true, pattern, advance]
  constructor
  · rw [run, List.foldl_cons, hstep]
    rfl
  · intro behind
    rw [passing, passing, hstep]
    simp [emit]

theorem passing_between_marks {mark : Char} {inner : List Char} {mode : Mode} {fresh : Bool}
    (hemit : ∀ behind, l.emit mark behind = l.close)
    (hinner : (l.step mark).run inner = ⟨mode, l.line + Text.newlines inner, fresh⟩ ∧
      ∀ behind, (l.step mark).passing inner behind = [])
    (hinside : mode.inLiteral = true)
    (hclose : ∀ line, step ⟨mode, line, fresh⟩ mark = ⟨.code, line, false⟩) :
    l.run (mark :: (inner ++ [mark])) = ⟨.code, l.line + Text.newlines inner, false⟩ ∧
      ∀ behind, l.passing (mark :: (inner ++ [mark])) behind = l.close := by
  obtain ⟨hrun, hpassing⟩ := hinner
  constructor
  · change (l.step mark).run (inner ++ [mark]) = _
    rw [run_append, hrun]
    exact hclose _
  · intro behind
    rw [passing, hemit, passing_append, hpassing, hrun, passing, Mode.emit_of_inLiteral hinside]
    simp [passing]

theorem passing_quoted {quote : Char} (hquote : isQuote quote = true)
    (h : l.isBetween quote = true) {inner : List Char}
    (hinner : ∀ first, (Mode.quoted quote first false).Leads inner (.quoted quote first false)) :
    l.run (quote :: (inner ++ [quote])) = ⟨.code, l.line + Text.newlines inner, false⟩ ∧
      ∀ behind, l.passing (quote :: (inner ++ [quote])) behind = l.close := by
  obtain ⟨⟨fresh, hopen⟩, hemit⟩ := step_quote hquote h
  have hleads := hinner l.line (l.step quote) (by rw [hopen])
  have hline : (l.step quote).line = l.line ∧ (l.step quote).fresh = fresh := by
    rw [hopen]
    exact ⟨rfl, rfl⟩
  rw [hline.1, hline.2] at hleads
  refine passing_between_marks hemit hleads rfl fun line => ?_
  rcases isQuote_iff.mp hquote with (rfl | rfl) | rfl <;> rfl

theorem passing_pattern (h : l.isBetween '/' = true) (hstart : l.mayStart = true)
    {inner : List Char} (hinner : (Mode.pattern false false).Leads inner (.pattern false false))
    (hhead : ∃ c cs, inner = c :: cs ∧ c ≠ '/' ∧ c ≠ '*') :
    l.run ('/' :: (inner ++ ['/'])) = ⟨.code, l.line + Text.newlines inner, false⟩ ∧
      ∀ behind, l.passing ('/' :: (inner ++ ['/'])) behind = l.close := by
  obtain ⟨hopen, hemit⟩ := step_slash h hstart
  have hleads : (l.step '/').run inner =
        ⟨.pattern false false, l.line + Text.newlines inner, true⟩ ∧
      ∀ behind, (l.step '/').passing inner behind = [] := by
    obtain ⟨c, cs, rfl, hslash, hstar⟩ := hhead
    obtain ⟨hrun, hpassing⟩ := passing_slash l.line hslash hstar cs
    rw [hopen, hrun]
    simp only [hpassing]
    exact hinner _ rfl
  exact passing_between_marks hemit hleads rfl fun line => rfl

end Lexer

namespace Literal

theorem head_pattern {body : List PatternPart} (h : (pattern body).IsClosed) :
    ∃ c cs, body.flatMap PatternPart.text = c :: cs ∧ c ≠ '/' ∧ c ≠ '*' := by
  obtain ⟨hfits, -, hne, hstar⟩ := h
  obtain ⟨part, more, rfl⟩ := List.exists_cons_of_ne_nil hne
  have hpart := hfits part List.mem_cons_self
  rw [List.flatMap_cons]
  match part with
  | .single (.plain c) =>
    have hc : c ≠ '/' := by
      rintro rfl
      cases hpart
    exact ⟨c, _, rfl, hc, fun hc => hstar (by rw [hc]; rfl)⟩
  | .single (.escaped c) => exact ⟨'\\', _, rfl, by decide, by decide⟩
  | .oneOf glyphs => exact ⟨'[', _, rfl, by decide, by decide⟩

variable {literal : Literal} {l : Lexer}

theorem IsClosed.newlines_text (h : literal.IsClosed) :
    Text.newlines literal.text = Text.newlines literal.inner := by
  have hmark : literal.mark ≠ '\n' := by
    cases literal with
    | string quote body =>
      change quote ≠ '\n'
      rcases h.1 with rfl | rfl <;> decide
    | template body => exact ne_of_beq_false rfl
    | pattern body => exact ne_of_beq_false rfl
  have hzero : Text.newlines [literal.mark] = 0 := by rw [Text.newlines_singleton, if_neg hmark]
  rw [text, ← List.singleton_append, Text.newlines_append, Text.newlines_append, hzero,
    Nat.zero_add, Nat.add_zero]

theorem IsClosed.passing (h : literal.IsClosed) (hbetween : l.isBetween literal.mark = true)
    (hstart : literal.mark = '/' → l.mayStart = true) :
    l.run literal.text = ⟨.code, l.line + Text.newlines literal.text, false⟩ ∧
      ∀ behind, l.passing literal.text behind = l.close := by
  rw [h.newlines_text]
  cases literal with
  | string quote body =>
    obtain ⟨hquote, hfits, hline⟩ := h
    refine Lexer.passing_quoted (Lexer.isQuote_iff.mpr (.inl hquote)) hbetween fun first => ?_
    refine Mode.leads_flatMap fun glyph hglyph => ?_
    refine Mode.quoted_leads_glyph (hfits glyph hglyph) fun hmem => ?_
    exact absurd (List.mem_flatMap.mpr ⟨glyph, hglyph, hmem⟩) hline
  | template body =>
    refine Lexer.passing_quoted rfl hbetween fun first => ?_
    exact Mode.leads_flatMap fun glyph hglyph =>
      Mode.quoted_leads_glyph (h glyph hglyph) fun _ => rfl
  | pattern body =>
    refine Lexer.passing_pattern hbetween (hstart rfl) ?_ (head_pattern h)
    refine Mode.leads_flatMap fun part hpart => ?_
    exact Mode.pattern_leads_part (h.1 part hpart) fun hmem =>
      h.2.1 (List.mem_flatMap.mpr ⟨part, hpart, hmem⟩)

end Literal

theorem Nesting.site_blocks_followedBy (n : Nesting) (t : List Char) (ts : List Token) :
    (n.blocks (ts.map (Token.followedBy t))).map Block.site = (n.blocks ts).map Block.site := by
  induction ts generalizing n with
  | nil => rfl
  | cons token ts ih =>
    rw [List.map_cons, blocks, blocks, List.map_append, List.map_append, step_followedBy, ih]
    congr 1
    cases token with
    | comment text first last rest =>
      simp only [Token.followedBy, block]
      split <;> rfl
    | _ => rfl

theorem Lexer.unclosed?_of_isBetween {l : Lexer} {c : Char} (h : l.isBetween c = true) :
    l.unclosed? = none := by
  cases hmode : l.mode <;> simp_all [isBetween, unclosed?]

theorem tokens_literal {p : List Char} {literal : Literal} (h : literal.IsClosed)
    (hbetween : (Lexer.run {} p).isBetween literal.mark = true)
    (hstart : literal.mark = '/' → (Lexer.run {} p).mayStart = true) (q : List Char) :
    Lexer.tokens {} (p ++ literal.text ++ q) =
      (Lexer.tokens {} p).map (Token.followedBy (literal.text ++ q)) ++
        (Lexer.run {} (p ++ literal.text)).tokens q := by
  have hopening := Lexer.tokens_append {} p []
  rw [List.append_nil] at hopening
  have hword (m : Lexer) (t : List Char) : m.close.map (Token.followedBy t) = m.close := by
    simp only [Lexer.close]
    split <;> rfl
  rw [Lexer.tokens_append, Lexer.passing_append, (h.passing hbetween hstart).2,
    Lexer.passing_eq_map, hopening, List.map_append, Lexer.tokens, hword]

def scanFrom (l : Lexer) (n : Nesting) (file : String) (text : List Char) :
    Except Problem (List Block) :=
  match (l.run text).unclosed? with
  | some (line, reason) => .error (.badSource file line reason)
  | none => .ok (n.blocks (l.tokens text))

theorem laid_scanFrom {before q : List Char} (h : (Lexer.run {} before).mode.IsOutside)
    {n : Nesting} {file : String} {blocks : List Block}
    (hscan : scanFrom (Lexer.run {} before) n file q = .ok blocks) : Laid before q blocks := by
  have hlaid := laid_blocks (Lexer.reads_start.run_of_isOutside ⟨⟩ h) n q
  rw [Lexer.pending_of_isOutside h] at hlaid
  rw [scanFrom] at hscan
  split at hscan
  · cases hscan
  · obtain rfl := Except.ok.inj hscan
    exact hlaid

section Around

variable {p : List Char} {literal : Literal}

theorem scan_around (h : literal.IsClosed)
    (hbetween : (Lexer.run {} p).isBetween literal.mark = true)
    (hstart : literal.mark = '/' → (Lexer.run {} p).mayStart = true) (file : String)
    (q : List Char) :
    ∃ kept, kept.map Block.site = (Nesting.blocks {} (Lexer.tokens {} p)).map Block.site ∧
      kept.length = (Nesting.blocks {} (Lexer.tokens {} p)).length ∧
      scan file (p ++ literal.text ++ q) =
        (scanFrom (Lexer.run {} (p ++ literal.text)) (Nesting.after p) file q).map (kept ++ ·) := by
  have hsite := Nesting.site_blocks_followedBy {} (literal.text ++ q) (Lexer.tokens {} p)
  refine ⟨_, hsite, by simpa using congrArg List.length hsite, ?_⟩
  rw [scan, scanFrom, Lexer.run_append, tokens_literal h hbetween hstart, Nesting.blocks_append,
    Nesting.run_map_followedBy, Nesting.after]
  cases ((Lexer.run {} (p ++ literal.text)).run q).unclosed? <;> rfl

theorem drop_scan_around (h : literal.IsClosed)
    (hbetween : (Lexer.run {} p).isBetween literal.mark = true)
    (hstart : literal.mark = '/' → (Lexer.run {} p).mayStart = true) (file : String)
    (q : List Char) :
    (scan file (p ++ literal.text ++ q)).map
        (List.drop (Nesting.blocks {} (Lexer.tokens {} p)).length) =
      scanFrom (Lexer.run {} (p ++ literal.text)) (Nesting.after p) file q := by
  obtain ⟨kept, -, hlength, hscan⟩ := scan_around h hbetween hstart file q
  rw [hscan]
  cases scanFrom (Lexer.run {} (p ++ literal.text)) (Nesting.after p) file q with
  | error problem => rfl
  | ok later => exact congrArg Except.ok (List.drop_left' hlength)

theorem laid_around (h : literal.IsClosed)
    (hbetween : (Lexer.run {} p).isBetween literal.mark = true)
    (hstart : literal.mark = '/' → (Lexer.run {} p).mayStart = true) {file : String}
    {q : List Char} {blocks : List Block}
    (hblocks : scan file (p ++ literal.text ++ q) = .ok blocks) :
    (blocks.take (Nesting.blocks {} (Lexer.tokens {} p)).length).map Block.site =
        (Nesting.blocks {} (Lexer.tokens {} p)).map Block.site ∧
      Laid (p ++ literal.text) q
        (blocks.drop (Nesting.blocks {} (Lexer.tokens {} p)).length) := by
  obtain ⟨kept, hsite, hlength, hscan⟩ := scan_around h hbetween hstart file q
  have hmode : (Lexer.run {} (p ++ literal.text)).mode.IsOutside := by
    rw [Lexer.run_append, (h.passing hbetween hstart).1]
    exact ⟨⟩
  rw [hblocks] at hscan
  cases hfrom : scanFrom (Lexer.run {} (p ++ literal.text)) (Nesting.after p) file q with
  | error problem =>
    rw [hfrom] at hscan
    cases hscan
  | ok later =>
    rw [hfrom] at hscan
    obtain rfl := Except.ok.inj hscan
    rw [List.take_left' hlength, List.drop_left' hlength]
    exact ⟨hsite, laid_scanFrom hmode hfrom⟩

end Around

/-- Two closed literals of one form, over equally many lines, may stand for each other: the same
problem or the same blocks are found behind them, and the comments before them are not touched. -/
theorem scan_literal {p : List Char} {a b : Literal} (ha : a.IsClosed) (hb : b.IsClosed)
    (hmark : a.mark = b.mark) (hlines : Text.newlines a.text = Text.newlines b.text)
    (hbetween : (Lexer.run {} p).isBetween a.mark = true)
    (hstart : a.mark = '/' → (Lexer.run {} p).mayStart = true) (file : String) (q : List Char) :
    ∃ opening, scan file p = .ok opening ∧
      (scan file (p ++ a.text ++ q)).map (List.drop opening.length) =
        (scan file (p ++ b.text ++ q)).map (List.drop opening.length) ∧
      ∀ literal ∈ [a, b], ∀ blocks, scan file (p ++ literal.text ++ q) = .ok blocks →
        (blocks.take opening.length).map Block.site = opening.map Block.site ∧
          Laid (p ++ literal.text) q (blocks.drop opening.length) := by
  have hbetween' := hbetween
  have hstart' := hstart
  rw [hmark] at hbetween' hstart'
  have hopening : scan file p = .ok (Nesting.blocks {} (Lexer.tokens {} p)) :=
    scan_eq_ok_iff.mpr ⟨Lexer.unclosed?_of_isBetween hbetween, rfl⟩
  have hrun : Lexer.run {} (p ++ a.text) = Lexer.run {} (p ++ b.text) := by
    rw [Lexer.run_append, Lexer.run_append, (ha.passing hbetween hstart).1,
      (hb.passing hbetween' hstart').1, hlines]
  refine ⟨_, hopening, ?_, ?_⟩
  · rw [drop_scan_around ha hbetween hstart, drop_scan_around hb hbetween' hstart', hrun]
  · intro literal hliteral blocks hblocks
    rcases List.mem_pair.mp hliteral with rfl | rfl
    · exact laid_around ha hbetween hstart hblocks
    · exact laid_around hb hbetween' hstart' hblocks

def halfText : List Char := "/** Half. */\nlet half = n / 2\nreturn ".toList

def marksPattern : Literal :=
  .pattern [.oneOf [.plain '/', .plain '*', .plain '"'], .single (.escaped '/'),
    .single (.plain '\x60'), .single (.plain '*')]

def letterPattern : Literal := .pattern [.single (.plain 'x')]

def testText : List Char := ".test(s)\n/** Later. */\nlet m = '*/'".toList

theorem scan_literal_marks :
    (marksPattern.IsClosed ∧ letterPattern.IsClosed ∧ marksPattern.mark = letterPattern.mark ∧
      Text.newlines marksPattern.text = Text.newlines letterPattern.text) ∧
    ((Lexer.run {} halfText).isBetween '/' = true ∧
      (Lexer.run {} halfText).mayStart = true) ∧
    ∃ opening, scan "half.js" halfText = .ok opening ∧
      (scan "half.js" (halfText ++ marksPattern.text ++ testText)).map
          (List.drop opening.length) =
        (scan "half.js" (halfText ++ letterPattern.text ++ testText)).map
          (List.drop opening.length) ∧
      ∀ literal ∈ [marksPattern, letterPattern], ∀ blocks,
        scan "half.js" (halfText ++ literal.text ++ testText) = .ok blocks →
          (blocks.take opening.length).map Block.site = opening.map Block.site ∧
            Laid (halfText ++ literal.text) testText (blocks.drop opening.length) := by
  have hmarks : marksPattern.IsClosed ∧ letterPattern.IsClosed := by decide
  have hlines : Text.newlines marksPattern.text = Text.newlines letterPattern.text := by decide
  have hbetween : (Lexer.run {} halfText).isBetween '/' = true := by decide +kernel
  have hstart : (Lexer.run {} halfText).mayStart = true := by decide +kernel
  exact ⟨⟨hmarks.1, hmarks.2, rfl, hlines⟩, ⟨hbetween, hstart⟩,
    scan_literal hmarks.1 hmarks.2 rfl hlines hbetween (fun _ => hstart) "half.js" testText⟩

end ApiPages.Source
