import ApiPages.Source.Block

/-!
Reading a text some lines further down. The lexer, its tokens and the blocks made of them are the
same, but for the lines they name; which class body a block stands in does not depend on lines.
-/
namespace ApiPages

def Problem.below (k : Nat) : Problem → Problem
  | .badSource file line reason => .badSource file (line + k) reason
  | p => p

namespace Source

def Mode.below (k : Nat) : Mode → Mode
  | .comment first text star => .comment (first + k) text star
  | .quoted quote first escaped => .quoted quote (first + k) escaped
  | mode => mode

def Token.below (k : Nat) : Token → Token
  | .comment text first last rest => .comment text (first + k) (last + k) rest
  | t => t

def Block.below (k : Nat) (b : Block) : Block :=
  { b with line := b.line + k, codeLine := b.codeLine + k }

namespace Lexer

def below (k : Nat) (l : Lexer) : Lexer := { l with mode := l.mode.below k, line := l.line + k }

variable (k : Nat) (l : Lexer) (c : Char)

theorem advance_below (mode : Mode) :
    (l.below k).advance c (mode.below k) = (l.advance c mode).below k := by
  simp only [advance, below]
  split <;> simp [Nat.add_right_comm]

theorem advance_code_below : (l.below k).advance c .code = (l.advance c .code).below k :=
  advance_below k l c .code

theorem code_below : (l.below k).code c = (l.code c).below k := by
  simp only [code]
  repeat' split
  all_goals first
    | rfl
    | exact advance_code_below k l c

theorem pattern_below (inClass escaped : Bool) :
    (l.below k).pattern c inClass escaped = (l.pattern c inClass escaped).below k := by
  simp only [pattern]
  split
  · rw [advance_code_below]
    rfl
  repeat' split
  all_goals rfl

theorem quoted_below (quote : Char) (first : Nat) (escaped : Bool) :
    (l.below k).quoted c quote (first + k) escaped = (l.quoted c quote first escaped).below k := by
  simp only [quoted]
  split
  · exact advance_below k l c (.quoted quote first false)
  split
  · rfl
  split
  · rw [advance_code_below]
    rfl
  · exact advance_below k l c (.quoted quote first false)

theorem wordDone_below (letters : List Char) :
    (l.below k).wordDone letters = (l.wordDone letters).below k := rfl

theorem step_below : (l.below k).step c = (l.step c).below k := by
  have hmodeBelow : (l.below k).mode = l.mode.below k := rfl
  cases hmode : l.mode with
  | code =>
    simp only [step, hmodeBelow, hmode, Mode.below]
    exact code_below k l c
  | word letters =>
    simp only [step, hmodeBelow, hmode, Mode.below]
    split
    · rfl
    · rw [wordDone_below, code_below]
  | slash =>
    simp only [step, hmodeBelow, hmode, Mode.below]
    split
    · rfl
    split
    · rfl
    have hfresh : (l.below k).fresh = l.fresh := rfl
    rw [hfresh]
    split
    · exact pattern_below k l c false false
    · exact code_below k { l with mode := .code, fresh := true } c
  | lineComment =>
    simp only [step, hmodeBelow, hmode, Mode.below]
    split
    · exact advance_below k l c .code
    · exact advance_below k l c .lineComment
  | comment first text star =>
    simp only [step, hmodeBelow, hmode, Mode.below]
    split
    · rfl
    · exact advance_below k l c (.comment first (c :: text) (c == '*'))
  | quoted quote first escaped =>
    simp only [step, hmodeBelow, hmode, Mode.below]
    exact quoted_below k l c quote first escaped
  | pattern inClass escaped =>
    simp only [step, hmodeBelow, hmode, Mode.below]
    exact pattern_below k l c inClass escaped

theorem run_below (cs : List Char) : (l.below k).run cs = (l.run cs).below k := by
  induction cs generalizing l with
  | nil => rfl
  | cons c cs ih =>
    rw [run, List.foldl_cons, step_below]
    exact ih (l.step c)

theorem map_below_markOf : (markOf c).map (Token.below k) = markOf c := map_markOf rfl rfl rfl c

theorem emit_below (rest : List Char) :
    (l.below k).emit c rest = (l.emit c rest).map (Token.below k) := by
  have hmodeBelow : (l.below k).mode = l.mode.below k := rfl
  have hfresh : (l.below k).fresh = l.fresh := rfl
  cases hmode : l.mode with
  | code =>
    simp only [emit, hmodeBelow, hmode, Mode.below]
    exact (map_below_markOf k c).symm
  | word letters =>
    simp only [emit, hmodeBelow, hmode, Mode.below]
    split
    · rfl
    · rw [List.map_cons, map_below_markOf]
      rfl
  | slash =>
    simp only [emit, hmodeBelow, hmode, Mode.below, hfresh]
    split
    · rfl
    · exact (map_below_markOf k c).symm
  | comment first text star =>
    simp only [emit, hmodeBelow, hmode, Mode.below]
    split <;> rfl
  | _ => simp only [emit, hmodeBelow, hmode, Mode.below, List.map_nil]

theorem tokens_below (cs : List Char) :
    (l.below k).tokens cs = (l.tokens cs).map (Token.below k) := by
  induction cs generalizing l with
  | nil =>
    simp only [tokens, close, below]
    cases l.mode <;> rfl
  | cons c cs ih => rw [tokens, emit_below, step_below, ih, tokens, List.map_append]

theorem unclosed?_below :
    (l.below k).unclosed? = l.unclosed?.map fun (line, reason) => (line + k, reason) := by
  simp only [unclosed?, below]
  cases l.mode with
  | quoted quote first escaped =>
    simp only [Mode.below]
    split <;> split <;> simp_all
  | _ => rfl

end Lexer

theorem codeFrom_add (n k : Nat) (lines : List (List Char)) :
    codeFrom (n + k) lines = (codeFrom n lines).map fun (text, line) => (text, line + k) := by
  induction lines generalizing n with
  | nil => rfl
  | cons line more ih =>
    simp only [codeFrom]
    split
    · rw [← ih, Nat.add_right_comm]
    split <;> rfl

theorem Block.of_below (k : Nat) (n : Nesting) (text : List Char) (first last : Nat)
    (rest : List Char) :
    Block.of n text (first + k) (last + k) rest = (Block.of n text first last rest).below k := by
  simp only [Block.of, codeFrom_add, Block.below]
  cases codeFrom last (Text.split '\n' rest) <;> rfl

namespace Nesting

theorem step_below (k : Nat) (n : Nesting) (t : Token) : n.step (t.below k) = n.step t := by
  cases t <;> rfl

theorem block_below (k : Nat) (n : Nesting) (t : Token) :
    n.block (t.below k) = (n.block t).map (Block.below k) := by
  cases t with
  | comment text first last rest =>
    simp only [Token.below, block]
    split
    · rw [Block.of_below]
      rfl
    · rfl
  | _ => rfl

theorem blocks_below (k : Nat) (n : Nesting) (ts : List Token) :
    n.blocks (ts.map (Token.below k)) = (n.blocks ts).map (Block.below k) := by
  induction ts generalizing n with
  | nil => rfl
  | cons t ts ih =>
    rw [List.map_cons, blocks, block_below, step_below, ih, blocks, List.map_append]

structure Alike (n m : Nesting) : Prop where
  depth : n.depth = m.depth
  classes : n.classes = m.classes
  announced : n.announced = m.announced
  lastWord : n.lastWord = "class".toList ↔ m.lastWord = "class".toList

variable {n m : Nesting}

theorem Alike.step (h : n.Alike m) (t : Token) : (n.step t).Alike (m.step t) := by
  obtain ⟨hdepth, hclasses, hannounced, hlast⟩ := h
  cases t with
  | word text =>
    refine ⟨hdepth, hclasses, ?_, Iff.rfl⟩
    simp only [Nesting.step, hlast, hannounced]
  | leftBrace =>
    exact ⟨by simp only [Nesting.step, hdepth], by simp only [Nesting.step, hannounced, hdepth, hclasses],
      rfl, Iff.rfl⟩
  | rightBrace =>
    exact ⟨by simp only [Nesting.step, hdepth], by simp only [Nesting.step, hdepth, hclasses],
      hannounced, Iff.rfl⟩
  | semicolon => exact ⟨hdepth, hclasses, rfl, Iff.rfl⟩
  | comment text first last rest => exact ⟨hdepth, hclasses, hannounced, hlast⟩

theorem Alike.block (h : n.Alike m) (t : Token) : n.block t = m.block t := by
  have henclosing : n.enclosing = m.enclosing := by
    simp only [enclosing, h.classes, h.depth]
  cases t with
  | comment text first last rest => simp only [Nesting.block, Block.of, henclosing]
  | _ => rfl

theorem Alike.blocks (h : n.Alike m) (ts : List Token) : n.blocks ts = m.blocks ts := by
  induction ts generalizing n m with
  | nil => rfl
  | cons t ts ih => rw [Nesting.blocks, Nesting.blocks, h.block, ih (h.step t)]

end Nesting

end Source

end ApiPages
