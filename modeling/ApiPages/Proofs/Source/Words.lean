import ApiPages.Source.Block

/-!
Words of program text. The lexer puts word characters only into its words, so the class bodies that
a comment stands in are named by word characters, and by none that a namepath could be cut at.
-/
namespace ApiPages.Source

def IsWord (text : List Char) : Prop := ∀ c ∈ text, isWordPart c = true

theorem IsWord.not_mem {text : List Char} {c : Char} (h : IsWord text)
    (hc : isWordPart c = false) : c ∉ text := by
  intro hm
  simp [h c hm] at hc

theorem IsWord.reverse {text : List Char} (h : IsWord text) : IsWord text.reverse :=
  fun c hc => h c (List.mem_reverse.mp hc)

namespace Token

def IsWordly : Token → Prop
  | .word text => IsWord text
  | _ => True

end Token

namespace Lexer

def ReadsWord (l : Lexer) : Prop :=
  match l.mode with
  | .word letters => IsWord letters
  | _ => True

theorem readsWord_code (l : Lexer) (c : Char) : (l.code c).ReadsWord := by
  simp only [code]
  split
  · trivial
  split
  · trivial
  split
  · rename_i hword
    intro d hd
    rwa [List.mem_singleton.mp hd]
  split <;> trivial

theorem readsWord_pattern (l : Lexer) (c : Char) (inClass escaped : Bool) :
    (l.pattern c inClass escaped).ReadsWord := by
  simp only [pattern, advance]
  repeat' split
  all_goals trivial

theorem readsWord_quoted (l : Lexer) (c quote : Char) (first : Nat) (escaped : Bool) :
    (l.quoted c quote first escaped).ReadsWord := by
  simp only [quoted, advance]
  repeat' split
  all_goals trivial

theorem ReadsWord.step {l : Lexer} (h : l.ReadsWord) (c : Char) : (l.step c).ReadsWord := by
  cases hmode : l.mode with
  | code => simpa only [Lexer.step, hmode] using readsWord_code l c
  | word letters =>
    simp only [Lexer.step, hmode]
    split
    · rename_i hc
      simp only [ReadsWord, hmode] at h
      exact List.forall_mem_cons.mpr ⟨hc, h⟩
    · exact readsWord_code _ c
  | slash =>
    simp only [Lexer.step, hmode]
    split
    · trivial
    split
    · trivial
    split
    · exact readsWord_pattern _ c _ _
    · exact readsWord_code _ c
  | lineComment =>
    by_cases hc : c = '\n' <;> simp [Lexer.step, hmode, advance, ReadsWord, hc]
  | comment first text star =>
    simp only [Lexer.step, hmode]
    split <;> trivial
  | quoted quote first escaped =>
    simpa only [Lexer.step, hmode] using readsWord_quoted l c quote first escaped
  | pattern inClass escaped =>
    simpa only [Lexer.step, hmode] using readsWord_pattern l c inClass escaped

theorem wordly_emit {l : Lexer} (h : l.ReadsWord) (c : Char) (rest : List Char) :
    ∀ t ∈ l.emit c rest, t.IsWordly := by
  have hmark : ∀ t ∈ markOf c, t.IsWordly := by
    intro t ht
    rcases mem_markOf ht with rfl | rfl | rfl <;> trivial
  intro t ht
  simp only [emit] at ht
  split at ht
  · exact hmark t ht
  · rename_i letters hmode
    simp only [ReadsWord, hmode] at h
    split at ht
    · exact absurd ht List.not_mem_nil
    · rcases List.mem_cons.mp ht with rfl | ht
      · exact h.reverse
      · exact hmark t ht
  · split at ht
    · exact absurd ht List.not_mem_nil
    · exact hmark t ht
  · split at ht
    · rw [List.mem_singleton.mp ht]
      trivial
    · exact absurd ht List.not_mem_nil
  · exact absurd ht List.not_mem_nil

theorem wordly_tokens {l : Lexer} (h : l.ReadsWord) (cs : List Char) :
    ∀ t ∈ l.tokens cs, t.IsWordly := by
  induction cs generalizing l with
  | nil =>
    intro t ht
    simp only [tokens, close] at ht
    split at ht
    · rename_i letters hmode
      simp only [ReadsWord, hmode] at h
      rw [List.mem_singleton.mp ht]
      exact h.reverse
    · exact absurd ht List.not_mem_nil
  | cons c cs ih =>
    exact List.forall_mem_append.mpr ⟨wordly_emit h c cs, ih (h.step c)⟩

end Lexer

namespace Nesting

structure NamesWords (n : Nesting) : Prop where
  classes : ∀ open_ ∈ n.classes, IsWord open_.1
  announced : ∀ name ∈ n.announced, IsWord name

theorem NamesWords.step {n : Nesting} (h : n.NamesWords) {t : Token} (ht : t.IsWordly) :
    (n.step t).NamesWords := by
  cases t with
  | word text =>
    refine ⟨h.classes, ?_⟩
    simp only [Nesting.step]
    split
    · intro name hname
      obtain rfl := Option.some.inj hname
      exact ht
    · exact h.announced
  | leftBrace =>
    refine ⟨?_, by simp [Nesting.step]⟩
    refine List.forall_mem_append.mpr ⟨?_, h.classes⟩
    intro p hp
    obtain ⟨name, hname, rfl⟩ := List.mem_map.mp hp
    exact h.announced name (Option.mem_toList.mp hname)
  | rightBrace =>
    refine ⟨?_, h.announced⟩
    simp only [Nesting.step]
    split
    · rename_i name depth outer hclasses
      have hall := h.classes
      rw [hclasses] at hall
      split
      · exact (List.forall_mem_cons.mp hall).2
      · exact hall
    · simp
  | semicolon => exact ⟨h.classes, by simp [Nesting.step]⟩
  | comment text first last rest => exact h

theorem NamesWords.enclosing {n : Nesting} (h : n.NamesWords) {e : Enclosing}
    (he : n.enclosing = some e) : IsWord e.name := by
  obtain ⟨p, hp, rfl⟩ := Option.map_eq_some_iff.mp he
  exact h.classes p (List.mem_of_mem_head? hp)

theorem NamesWords.blocks {n : Nesting} (h : n.NamesWords) {ts : List Token}
    (hts : ∀ t ∈ ts, t.IsWordly) :
    ∀ b ∈ n.blocks ts, ∀ e, b.enclosing = some e → IsWord e.name := by
  induction ts generalizing n with
  | nil => simp [Nesting.blocks]
  | cons t ts ih =>
    obtain ⟨ht, hts⟩ := List.forall_mem_cons.mp hts
    refine List.forall_mem_append.mpr ⟨?_, ih (h.step ht) hts⟩
    intro b hb e he
    cases t with
    | comment text first last rest =>
      simp only [block] at hb
      split at hb
      · rw [List.mem_singleton.mp hb] at he
        exact h.enclosing he
      · exact absurd hb List.not_mem_nil
    | _ => exact absurd hb List.not_mem_nil

end Nesting

theorem isWord_enclosing {file : String} {text : List Char} {blocks : List Block}
    (h : scan file text = .ok blocks) {b : Block} (hb : b ∈ blocks) {e : Enclosing}
    (he : b.enclosing = some e) : IsWord e.name := by
  simp only [scan] at h
  split at h
  · cases h
  · obtain rfl := Except.ok.inj h
    have hstart : Nesting.NamesWords {} := ⟨by simp, by simp⟩
    have hread : Lexer.ReadsWord {} := trivial
    exact hstart.blocks (Lexer.wordly_tokens hread text) b hb e he

end ApiPages.Source
