import ApiPages.Proofs.Source.Literals
import ApiPages.Proofs.Source.Scripts

/-!
Where a text ends and another one begins. What has been read ends before the next character unless a
word goes on, a slash becomes a comment or a line comment is still open; from there on the lexer
reads as at a start. Main statement: the doc comments among the scripts of a page are those of its
scripts one by one where each script ends before the next one, and a script that stops in a word, a
slash or a line comment may swallow the comments of another one on its line.
-/
namespace ApiPages.Source

namespace Lexer

/-- Whether what has been read ends before `c`. -/
def endsAt (l : Lexer) (c : Char) : Bool :=
  match l.mode with
  | .lineComment => c == '\n'
  | .pattern _ _ => c == '\n'
  | _ => l.isBetween c

def EndsBefore (l : Lexer) (behind : List Char) : Prop := ∀ c ∈ behind.head?, l.endsAt c = true

instance (l : Lexer) (behind : List Char) : Decidable (l.EndsBefore behind) :=
  (Option.decidableForallMem behind.head? : Decidable (∀ c ∈ behind.head?, l.endsAt c = true))

def resumed (l : Lexer) : Lexer := { mode := .code, line := l.line, fresh := l.mayStart }

variable {l : Lexer} {c : Char} {behind : List Char}

/-- The character before which all has ended is read as code. -/
theorem step_of_endsAt (h : l.endsAt c = true) :
    l.step c = l.resumed.step c ∧ ∀ rest, l.emit c rest = l.close ++ l.resumed.emit c rest := by
  cases l with
  | mk mode line fresh =>
    cases mode with
    | code => exact ⟨rfl, fun _ => rfl⟩
    | word letters =>
      have hword : isWordPart c = false := by simpa [endsAt, isBetween] using h
      constructor
      · simp only [step, resumed, hword, Bool.false_eq_true, if_false]
        rfl
      · intro rest
        simp only [emit, resumed, close, hword, Bool.false_eq_true, if_false]
        rfl
    | slash =>
      obtain ⟨⟨hfresh, hslash⟩, hstar⟩ : (fresh = false ∧ c ≠ '/') ∧ c ≠ '*' := by
        simpa [endsAt, isBetween] using h
      subst hfresh
      constructor
      · simp only [step, resumed, if_neg hslash, if_neg hstar, Bool.false_eq_true, if_false]
        rfl
      · intro rest
        simp [emit, resumed, close, hslash, hstar]
    | lineComment =>
      obtain rfl : c = '\n' := by simpa [endsAt] using h
      exact ⟨rfl, fun _ => rfl⟩
    | pattern inClass escaped =>
      obtain rfl : c = '\n' := by simpa [endsAt] using h
      exact ⟨rfl, fun _ => rfl⟩
    | comment first text star => cases h
    | quoted quote first escaped => cases h

theorem tokens_of_endsBefore (h : l.EndsBefore behind) :
    l.tokens behind = l.close ++ l.resumed.tokens behind := by
  cases behind with
  | nil => simp [tokens, close, resumed]
  | cons c behind =>
    obtain ⟨hstep, hemit⟩ := step_of_endsAt (h c rfl)
    rw [tokens, tokens, hstep, hemit, List.append_assoc]

theorem run_of_endsBefore (h : l.EndsBefore behind) (hne : behind ≠ []) :
    l.run behind = l.resumed.run behind := by
  obtain ⟨c, behind, rfl⟩ := List.exists_cons_of_ne_nil hne
  rw [run, run, List.foldl_cons, List.foldl_cons, (step_of_endsAt (h c rfl)).1]

theorem unclosed?_of_endsBefore (hclosed : l.unclosed? = none) (h : l.EndsBefore behind) :
    (l.run behind).unclosed? = (l.resumed.run behind).unclosed? := by
  cases behind with
  | nil => exact hclosed
  | cons c behind => rw [run_of_endsBefore h (List.cons_ne_nil c behind)]

end Lexer

def Token.doc? : Token → Option (List Char)
  | .comment text _ _ _ => if isDoc text then some text else none
  | _ => none

def docs (text : List Char) : List (List Char) := (Lexer.tokens {} text).filterMap Token.doc?

namespace Token

theorem doc?_below (k : Nat) (t : Token) : (t.below k).doc? = t.doc? := by
  cases t <;> rfl

theorem doc?_followedBy (behind : List Char) (t : Token) : (t.followedBy behind).doc? = t.doc? := by
  cases t <;> rfl

theorem filterMap_doc?_map_below (k : Nat) (ts : List Token) :
    (ts.map (Token.below k)).filterMap doc? = ts.filterMap doc? := by
  rw [List.filterMap_map]
  exact List.filterMap_congr fun t _ => t.doc?_below k

theorem filterMap_doc?_map_followedBy (behind : List Char) (ts : List Token) :
    (ts.map (Token.followedBy behind)).filterMap doc? = ts.filterMap doc? := by
  rw [List.filterMap_map]
  exact List.filterMap_congr fun t _ => t.doc?_followedBy behind

theorem filterMap_doc?_of_isPlain {ts : List Token} (h : ∀ t ∈ ts, t.IsPlain) :
    ts.filterMap doc? = [] := by
  refine List.filterMap_eq_nil_iff.mpr fun t ht => ?_
  cases t with
  | comment text first last rest => exact (h _ ht).elim
  | _ => rfl

end Token

theorem comments_blocks (n : Nesting) (ts : List Token) :
    (n.blocks ts).map Block.comment = ts.filterMap Token.doc? := by
  induction ts generalizing n with
  | nil => rfl
  | cons t ts ih =>
    rw [Nesting.blocks, List.map_append, ih]
    cases t with
    | comment text first last rest =>
      simp only [Nesting.block, List.filterMap_cons, Token.doc?]
      split <;> rfl
    | _ => rfl

theorem scan_eq_ok_comments {file : String} {text : List Char} {blocks : List Block}
    (h : scan file text = .ok blocks) : blocks.map Block.comment = docs text := by
  obtain ⟨-, rfl⟩ := scan_eq_ok_iff.mp h
  exact comments_blocks {} _

namespace Lexer

variable {l : Lexer} {behind : List Char}

theorem docs_passing (l : Lexer) (s behind : List Char) :
    (l.passing s behind).filterMap Token.doc? = (l.tokens s).filterMap Token.doc? := by
  have hwhole := l.tokens_append s []
  rw [List.append_nil] at hwhole
  rw [hwhole, List.filterMap_append, tokens, Token.filterMap_doc?_of_isPlain (isPlain_close _),
    List.append_nil, passing_eq_map, Token.filterMap_doc?_map_followedBy]

theorem docs_append (l : Lexer) (s t : List Char) :
    (l.tokens (s ++ t)).filterMap Token.doc? =
      (l.tokens s).filterMap Token.doc? ++ ((l.run s).tokens t).filterMap Token.doc? := by
  rw [tokens_append, List.filterMap_append, docs_passing]

theorem docs_below (k : Nat) (text : List Char) :
    ((({} : Lexer).below k).tokens text).filterMap Token.doc? = docs text := by
  rw [tokens_below, Token.filterMap_doc?_map_below]
  rfl

theorem docs_of_endsBefore (h : l.EndsBefore behind) :
    (l.tokens behind).filterMap Token.doc? = (l.resumed.tokens behind).filterMap Token.doc? := by
  rw [tokens_of_endsBefore h, List.filterMap_append,
    Token.filterMap_doc?_of_isPlain (isPlain_close l), List.nil_append]

theorem endsBefore_below (k : Nat) : (l.below k).EndsBefore behind ↔ l.EndsBefore behind := by
  have hends (c : Char) : (l.below k).endsAt c = l.endsAt c := by
    simp only [endsAt, isBetween, below]
    cases l.mode <;> rfl
  simp only [EndsBefore, hends]

theorem mayStart_below (k : Nat) : (l.below k).mayStart = l.mayStart := by
  simp only [Lexer.mayStart, below]
  cases l.mode <;> rfl

theorem exists_below_of_mayStart {text : List Char} (k : Nat)
    (h : (Lexer.run {} text).mayStart = true) :
    ∃ k', ((Lexer.run {} text).below k).resumed = ({} : Lexer).below k' := by
  obtain ⟨gap, -, hreads⟩ := reads_start.run text
  refine ⟨Text.newlines (gap ++ (Lexer.run {} text).pending) + k, ?_⟩
  rw [resumed, mayStart_below, h]
  simp only [below, hreads.line, List.nil_append, Nat.add_assoc]
  rfl

theorem run_newlines {gap : List Char} (h : ∀ c ∈ gap, c = '\n') (k : Nat) (behind : List Char) :
    (({} : Lexer).below k).run gap = ({} : Lexer).below (k + gap.length) ∧
      (({} : Lexer).below k).tokens (gap ++ behind) =
        (({} : Lexer).below (k + gap.length)).tokens behind := by
  induction gap generalizing k with
  | nil => exact ⟨rfl, rfl⟩
  | cons c gap ih =>
    obtain ⟨rfl, hgap⟩ := List.forall_mem_cons.mp h
    obtain ⟨hrun, htokens⟩ := ih hgap (k + 1)
    have hstep : (({} : Lexer).below k).step '\n' = ({} : Lexer).below (k + 1) := rfl
    have hcount : k + ('\n' :: gap).length = k + 1 + gap.length := by
      rw [List.length_cons]
      omega
    rw [hcount, List.cons_append, tokens, hstep, htokens]
    exact ⟨by rw [run, List.foldl_cons, hstep]; exact hrun, rfl⟩

end Lexer

/-- Each script ends before what stands behind it among the scripts. -/
def EndsApart : List Piece → Prop
  | [] => True
  | .outside _ :: ps => EndsApart ps
  | .script body :: ps =>
    (Lexer.run {} body).EndsBefore (ps.flatMap Piece.kept) ∧ EndsApart ps

instance decidableEndsApart : (ps : List Piece) → Decidable (EndsApart ps)
  | [] => .isTrue trivial
  | .outside _ :: ps => decidableEndsApart ps
  | .script _ :: ps => @instDecidableAnd _ _ _ (decidableEndsApart ps)

theorem docs_scripts {ps : List Piece}
    (hbodies : ∀ body ∈ ps.filterMap Piece.body?,
      (Lexer.run {} body).unclosed? = none ∧ (Lexer.run {} body).mayStart = true)
    (hends : EndsApart ps) (k : Nat) :
    ((({} : Lexer).below k).run (ps.flatMap Piece.kept)).unclosed? = none ∧
      ((({} : Lexer).below k).tokens (ps.flatMap Piece.kept)).filterMap Token.doc? =
        (ps.filterMap Piece.body?).flatMap docs := by
  induction ps generalizing k with
  | nil => exact ⟨rfl, rfl⟩
  | cons p ps ih =>
    cases p with
    | outside text =>
      obtain ⟨hrun, htokens⟩ := Lexer.run_newlines Piece.newline_of_mem_kept k (ps.flatMap Piece.kept)
      rw [List.flatMap_cons, Lexer.run_append, hrun, htokens]
      exact ih hbodies hends _
    | script body =>
      obtain ⟨⟨hclosed, hstart⟩, hmore⟩ := List.forall_mem_cons.mp hbodies
      obtain ⟨k', hresumed⟩ := Lexer.exists_below_of_mayStart k hstart
      obtain ⟨hnext, hdocs⟩ := ih hmore hends.2 k'
      have hend := (Lexer.endsBefore_below k).mpr hends.1
      have hclosed' : ((Lexer.run {} body).below k).unclosed? = none := by
        rw [Lexer.unclosed?_below, hclosed]
        rfl
      rw [List.flatMap_cons, Piece.kept, Lexer.run_append, Lexer.docs_append, Lexer.run_below,
        Lexer.unclosed?_of_endsBefore hclosed' hend, Lexer.docs_of_endsBefore hend, hresumed, hdocs,
        Lexer.docs_below]
      exact ⟨hnext, rfl⟩

namespace Lexer

variable {l : Lexer} {s : List Char}

theorem docs_of_quiet (h : l.Quiet s) : (l.tokens s).filterMap Token.doc? = [] := by
  rw [← docs_passing l s [], Token.filterMap_doc?_of_isPlain (h [])]

theorem docs_remark {remark : List Char} (hbreak : '\n' ∉ remark) (h : l.mode = .lineComment) :
    (l.run (remark ++ ['\n'])).unclosed? = none ∧
      (l.tokens (remark ++ ['\n'])).filterMap Token.doc? = [] := by
  obtain ⟨hquiet, hmode⟩ := quiet_remark hbreak h
  exact ⟨by simp [unclosed?, hmode], docs_of_quiet hquiet⟩

end Lexer

def noteText : List Char := "/** A. */\n".toList

def doNoteText : List Char := "do/'/;/** A. */\n".toList

theorem exists_swallowed {l : Lexer} (hclosed : l.unclosed? = none) (hstart : l.mayStart = true)
    (hmode : l.mode ≠ .code) :
    ∃ next, (next = noteText ∨ next = doNoteText) ∧ (l.run next).unclosed? = none ∧
      (l.tokens next).filterMap Token.doc? = [] := by
  cases l with
  | mk mode line fresh =>
    cases mode with
    | code => exact absurd rfl hmode
    | word letters =>
      have hmerged : leadWords.contains (letters.reverse ++ ['d', 'o']) = false := by
        have hlead : letters.reverse ∈ leadWords := List.contains_iff_mem.mp hstart
        revert hlead
        generalize letters.reverse = word
        revert word
        decide
      have hdivision :
          Lexer.run ⟨.word letters, line, fresh⟩ "do/".toList = ⟨.slash, line, false⟩ := by
        change (⟨.slash, line, leadWords.contains ('o' :: 'd' :: letters).reverse⟩ : Lexer) = _
        rw [List.reverse_cons, List.reverse_cons, List.append_assoc]
        exact congrArg (Lexer.mk .slash line) hmerged
      have hnext : doNoteText = "do/".toList ++ "'/;/** A. */\n".toList := by decide
      refine ⟨doNoteText, .inr rfl, ?_⟩
      rw [hnext, Lexer.run_append, Lexer.docs_append, hdivision]
      exact ⟨rfl, rfl⟩
    | slash =>
      obtain rfl : fresh = false := by simpa [Lexer.mayStart] using hstart
      refine ⟨noteText, .inl rfl, ?_⟩
      have hremark : '\n' ∉ "** A. */".toList := by decide
      exact Lexer.docs_remark (l := ⟨.lineComment, line, false⟩) hremark rfl
    | lineComment =>
      have hremark : '\n' ∉ "/** A. */".toList := by decide
      exact ⟨noteText, .inl rfl, Lexer.docs_remark hremark rfl⟩
    | comment first text star => cases hclosed
    | quoted quote first escaped => cases hstart
    | pattern inClass escaped => cases hstart

def sharedLine (first second : List Char) : List Char :=
  "<script>".toList ++ first ++ ("</script><script>".toList ++ second ++ "</script>".toList)

theorem pieces_sharedLine {text tag body rest : List Char} (h : Element text tag body rest)
    (second : List Char) :
    pieces (sharedLine body second) = .outside "<script>".toList :: .script body ::
      pieces ("</script><script>".toList ++ second ++ "</script>".toList) := by
  obtain ⟨behind, rfl⟩ := h.closes.head
  have hled : IsCloseTagLed ("</script><script>".toList ++ second ++ "</script>".toList) :=
    ⟨"</script".toList, [], "<script>".toList ++ second ++ "</script>".toList, by simp,
      by unfold Caseless; decide, by simp⟩
  have helement : Element (sharedLine body second) "<script>".toList body
      ("</script><script>".toList ++ second ++ "</script>".toList) := by
    refine ⟨rfl, ⟨"<script".toList, [], by decide, by unfold Caseless; decide, by simp, by simp⟩,
      hled, ?_⟩
    intro s c t hcut hclose
    have hbracket : "</script><script>".toList ++ second ++ "</script>".toList =
        '<' :: ("/script><script>".toList ++ second ++ "</script>".toList) := by simp
    rw [hbracket] at hclose
    exact h.first s c t hcut (hclose.of_bracket _)
  exact (searched_pieces _).eq (.element helement (searched_pieces _))

theorem scriptBodies_sharedLine {text tag body rest next : List Char}
    (h : Element text tag body rest) (hnext : next = noteText ∨ next = doNoteText) :
    scriptBodies (sharedLine body next) = [body, next] ∧
      scripts (sharedLine body next) = body ++ next := by
  have hbehind : (pieces ("</script><script>".toList ++ next ++ "</script>".toList)).filterMap
        Piece.body? = [next] ∧
      (pieces ("</script><script>".toList ++ next ++ "</script>".toList)).flatMap Piece.kept =
        next := by
    rcases hnext with rfl | rfl <;> decide +kernel
  have hbefore : (Piece.outside "<script>".toList).kept = [] := by decide
  rw [scriptBodies, scripts, pieces_sharedLine h]
  rw [List.filterMap_cons, List.filterMap_cons, List.flatMap_cons, List.flatMap_cons, hbehind.1,
    hbehind.2, hbefore]
  exact ⟨rfl, rfl⟩

theorem settled_next {next : List Char} (h : next = noteText ∨ next = doNoteText) :
    Settled next ∧ (Lexer.run {} next).unclosed? = none ∧ docs next ≠ [] := by
  have hnesting : Nesting.after next = {} := by rcases h with rfl | rfl <;> decide +kernel
  have hread : next.getLast? = some '\n' ∧ (Lexer.run {} next).mayStart = true ∧
      (Lexer.run {} next).unclosed? = none ∧ docs next ≠ [] := by
    rcases h with rfl | rfl <;> decide +kernel
  obtain ⟨hlast, hstart, hclosed, hfound⟩ := hread
  exact ⟨⟨hlast, by rw [hnesting], by rw [hnesting], by rw [hnesting], by rw [hnesting]; decide,
    hstart⟩, hclosed, hfound⟩

theorem forall₂_scan (file : String) {texts : List (List Char)}
    (h : ∀ text ∈ texts, (Lexer.run {} text).unclosed? = none) :
    ∃ owns, List.Forall₂ (fun text own => scan file text = .ok own) texts owns ∧
      owns.flatten.map Block.comment = texts.flatMap docs := by
  induction texts with
  | nil => exact ⟨[], .nil, rfl⟩
  | cons text texts ih =>
    obtain ⟨htext, htexts⟩ := List.forall_mem_cons.mp h
    obtain ⟨owns, howns, hcomments⟩ := ih htexts
    have hown : scan file text = .ok _ := scan_eq_ok_iff.mpr ⟨htext, rfl⟩
    refine ⟨_ :: owns, .cons hown howns, ?_⟩
    rw [List.flatten_cons, List.map_append, hcomments, scan_eq_ok_comments hown, List.flatMap_cons]

theorem exists_swallowed_on_line {file : String} {text tag body rest : List Char}
    (h : Element text tag body rest) (hclosed : (Lexer.run {} body).unclosed? = none)
    (hstart : (Lexer.run {} body).mayStart = true) (hmode : (Lexer.run {} body).mode ≠ .code) :
    ∃ next, Settled next ∧ scriptBodies (sharedLine body next) = [body, next] ∧
      ∃ own found blocks, scan file body = .ok own ∧ scan file next = .ok found ∧
        scan file (scripts (sharedLine body next)) = .ok blocks ∧ found ≠ [] ∧
        blocks.map Block.comment = own.map Block.comment := by
  obtain ⟨next, hnext, hopen, hswallowed⟩ := exists_swallowed hclosed hstart hmode
  obtain ⟨hsettled, hnextClosed, hfound⟩ := settled_next hnext
  obtain ⟨hpair, hscripts⟩ := scriptBodies_sharedLine h hnext
  have hown : scan file body = .ok _ := scan_eq_ok_iff.mpr ⟨hclosed, rfl⟩
  have hnextScan : scan file next = .ok _ := scan_eq_ok_iff.mpr ⟨hnextClosed, rfl⟩
  have hboth : scan file (body ++ next) = .ok _ :=
    scan_eq_ok_iff.mpr ⟨by rw [Lexer.run_append, hopen], rfl⟩
  refine ⟨next, hsettled, hpair, _, _, _, hown, hnextScan, by rw [hscripts, hboth], ?_, ?_⟩
  · intro hnil
    rw [← scan_eq_ok_comments hnextScan, hnil] at hfound
    exact hfound rfl
  · rw [scan_eq_ok_comments hboth, scan_eq_ok_comments hown, docs, Lexer.docs_append, hswallowed,
      List.append_nil]
    rfl

/-- The doc comments among the scripts of a page are those of its scripts one by one, where each
script ends before what stands behind it. One that stops in a word, a slash or a line comment may
swallow the comments of another script on its line. -/
theorem scripts_apart {file : String} {page : List Char}
    (hbodies : ∀ body ∈ scriptBodies page,
      (∃ own, scan file body = .ok own) ∧ (Lexer.run {} body).mayStart = true) :
    (EndsApart (pieces page) →
      ∃ blocks owns, scan file (scripts page) = .ok blocks ∧
        List.Forall₂ (fun body own => scan file body = .ok own) (scriptBodies page) owns ∧
        blocks.map Block.comment = owns.flatten.map Block.comment) ∧
    ∀ body ∈ scriptBodies page, (Lexer.run {} body).mode ≠ .code →
      ∃ next, Settled next ∧ scriptBodies (sharedLine body next) = [body, next] ∧
        ∃ own found blocks, scan file body = .ok own ∧ scan file next = .ok found ∧
          scan file (scripts (sharedLine body next)) = .ok blocks ∧ found ≠ [] ∧
          blocks.map Block.comment = own.map Block.comment := by
  have haccepted : ∀ body ∈ scriptBodies page,
      (Lexer.run {} body).unclosed? = none ∧ (Lexer.run {} body).mayStart = true := by
    intro body hbody
    obtain ⟨⟨own, hown⟩, hstart⟩ := hbodies body hbody
    exact ⟨(scan_eq_ok_iff.mp hown).1, hstart⟩
  constructor
  · intro hends
    obtain ⟨hclosed, hdocs⟩ := docs_scripts haccepted hends 0
    obtain ⟨owns, howns, hcomments⟩ := forall₂_scan file fun body hbody => (haccepted body hbody).1
    have hscan : scan file (scripts page) = .ok _ := scan_eq_ok_iff.mpr ⟨hclosed, rfl⟩
    refine ⟨_, owns, hscan, howns, ?_⟩
    rw [scan_eq_ok_comments hscan, hcomments]
    exact hdocs
  · intro body hbody hmode
    obtain ⟨hclosed, hstart⟩ := haccepted body hbody
    obtain ⟨text, tag, rest, helement⟩ := exists_element_of_mem_scriptBodies hbody
    exact exists_swallowed_on_line helement hclosed hstart hmode

def apartPage : List Char :=
  ("<script>let a = 1; // one</script>\n<script>/** B. */ let b = 2;</script>" ++
    "<script>/** C. */ let c = 3;\n</script>").toList

theorem scripts_apart_lines :
    (∀ body ∈ scriptBodies apartPage, (∃ own, scan "page.html" body = .ok own) ∧
      (Lexer.run {} body).mayStart = true) ∧ EndsApart (pieces apartPage) ∧
    ∃ blocks owns, scan "page.html" (scripts apartPage) = .ok blocks ∧
      List.Forall₂ (fun body own => scan "page.html" body = .ok own) (scriptBodies apartPage) owns ∧
      blocks.map Block.comment = owns.flatten.map Block.comment := by
  have hbodies : ∀ body ∈ scriptBodies apartPage, (∃ own, scan "page.html" body = .ok own) ∧
      (Lexer.run {} body).mayStart = true := by
    have hread : ∀ body ∈ scriptBodies apartPage, (Lexer.run {} body).unclosed? = none ∧
        (Lexer.run {} body).mayStart = true := by
      decide +kernel
    exact fun body hbody =>
      ⟨⟨_, scan_eq_ok_iff.mpr ⟨(hread body hbody).1, rfl⟩⟩, (hread body hbody).2⟩
  have hends : EndsApart (pieces apartPage) := by decide +kernel
  exact ⟨hbodies, hends, (scripts_apart hbodies).1 hends⟩

def remarkPage : List Char :=
  "<script>let a = 1; // one</script><script>/** B. */\nlet b = 2;\n</script>".toList

theorem scripts_not_apart :
    (∀ body ∈ scriptBodies remarkPage,
      (Nesting.after body).depth = 0 ∧ (Nesting.after body).classes = [] ∧
      (Nesting.after body).announced = none ∧ (Nesting.after body).lastWord ≠ "class".toList ∧
      (Lexer.run {} body).mayStart = true) ∧
    (scriptBodies remarkPage).map (scan "page.html") =
      [.ok [], .ok [{ comment := "/** B. */".toList, line := 1, code := some "let b = 2;".toList
                      codeLine := 2 }]] ∧
    scan "page.html" (scripts remarkPage) = .ok [] := by
  decide +kernel

end ApiPages.Source
