import Mathlib.Data.List.Induction
import ApiPages.Proofs.Extract.Additions

/-!
What becomes of one doclet. A comment adds it; from then on it changes only by the comments that
stand on the constructor of its class, and only while no later class doclet has its longname. Main
statement: at the end of the file it is the doclet as it was added, with those comments joined to it
in order.
-/
namespace ApiPages

theorem getElem?_changeLast? {α : Type} {p : α → Bool} {f : α → α} {l l' : List α}
    (h : changeLast? p f l = some l') (k : Nat) :
    l'[k]? = l[k]?.map fun a => if p a && (l.drop (k + 1)).all (fun b => !p b) then f a else a := by
  induction l generalizing l' k with
  | nil => simp [changeLast?] at h
  | cons a as ih =>
    have hnone : changeLast? p f as = none ↔ as.all (fun b => !p b) = true := by
      simp [changeLast?_eq_none_iff]
    simp only [changeLast?] at h
    cases hrest : changeLast? p f as with
    | some as' =>
      simp only [hrest, Option.some.injEq] at h
      have hlater : as.all (fun b => !p b) = false := by
        rw [Bool.eq_false_iff, Ne, ← hnone, hrest]
        simp
      cases k with
      | zero => simp [← h, hlater]
      | succ k => simpa [← h] using ih hrest k
    | none =>
      have hlater := hnone.mp hrest
      simp only [hrest] at h
      split at h
      case isFalse => cases h
      case isTrue hp =>
        have hl' := Option.some.inj h
        cases k with
        | zero => simp [← hl', hlater, hp]
        | succ k =>
          have hother : ∀ b ∈ as, p b = false := by simpa using hlater
          have hhere : ∀ b, as[k]? = some b → p b = false :=
            fun b hb => hother b (List.mem_of_getElem? hb)
          cases hk : as[k]? with
          | none => simp [← hl', hk]
          | some b => simp [← hl', hk, hhere b hk]

namespace Doclet

theorem foldl_withConstructor {β : Type} (g : Doclet → β)
    (hg : ∀ d c, g (d.withConstructor c) = g d) (d : Doclet) (cs : List Comment) :
    g (cs.foldl withConstructor d) = g d := by
  induction cs generalizing d with
  | nil => rfl
  | cons c cs ih => rw [List.foldl_cons, ih, hg]

end Doclet

namespace FileDoclets

open Source (Block)

def constructorOf? (block : Block) : Option (List Char) :=
  if (declared block).isConstructor then (declared block).parent else none

def isOwner (f : FileDoclets) (owner : List Char) (d : Doclet) : Bool :=
  d.kind = .classKind && d.longname == String.ofList (f.naming.resolve owner)

/-- The comment stands on the constructor of the class of the doclet at place `k`, which is the last
one for this class. -/
def joinsAt (f : FileDoclets) (k : Nat) (block : Block) : Bool :=
  (constructorOf? block).any fun owner =>
    f.doclets[k]?.any (f.isOwner owner) && (f.doclets.drop (k + 1)).all fun d => !f.isOwner owner d

def joining (f : FileDoclets) (k : Nat) : List Block → List Comment
  | [] => []
  | block :: blocks =>
    (if f.joinsAt k block then [remark block] else []) ++ (f.add block).joining k blocks

variable {f : FileDoclets} {block : Block} {k : Nat}

theorem getElem?_merged {g : FileDoclets}
    (h : f.mergeConstructor? (remark block) (declared block) = some g) (k : Nat) :
    g.doclets[k]? = f.doclets[k]?.map fun d =>
      if f.joinsAt k block then d.withConstructor (remark block) else d := by
  rw [mergeConstructor?_eq, ← constructorOf?, Option.bind_eq_some_iff] at h
  obtain ⟨owner, howner, h⟩ := h
  obtain ⟨doclets, hchange, rfl⟩ := Option.map_eq_some_iff.mp h
  change doclets[k]? = _
  rw [getElem?_changeLast? hchange]
  cases hk : f.doclets[k]? with
  | none => rfl
  | some d => simp [joinsAt, howner, hk, isOwner]

theorem joinsAt_eq_false (h : f.mergeConstructor? (remark block) (declared block) = none)
    (k : Nat) : f.joinsAt k block = false := by
  rw [mergeConstructor?_eq, ← constructorOf?] at h
  rw [joinsAt]
  cases howner : constructorOf? block with
  | none => rfl
  | some owner =>
    simp only [howner, Option.bind_some, Option.map_eq_none_iff] at h
    have hnone : ∀ d ∈ f.doclets, f.isOwner owner d = false := changeLast?_eq_none_iff.mp h
    have hhere : f.doclets[k]?.any (f.isOwner owner) = false := by
      cases hk : f.doclets[k]? with
      | none => rfl
      | some d => exact hnone d (List.mem_of_getElem? hk)
    simp [hhere]

theorem getElem?_add (hk : k < f.doclets.length) (block : Block) :
    (f.add block).doclets[k]? = f.doclets[k]?.map fun d =>
      if f.joinsAt k block then d.withConstructor (remark block) else d := by
  cases hmerge : f.mergeConstructor? (remark block) (declared block) with
  | some g => rw [add_of_merge hmerge, getElem?_merged hmerge]
  | none =>
    have happend : ∃ ds, (f.add block).doclets = f.doclets ++ ds := by
      cases hidentity : Identity.of? f.naming f.origin (remark block) (asClass (declared block)) with
      | none => exact ⟨[], by rw [add_of_no_identity hmerge hidentity, List.append_nil]⟩
      | some i => exact ⟨_, by rw [add_of_identity hmerge hidentity]⟩
    obtain ⟨ds, hds⟩ := happend
    rw [hds, List.getElem?_append_left hk]
    simp [joinsAt_eq_false hmerge]

theorem length_add_le (f : FileDoclets) (block : Block) :
    f.doclets.length ≤ (f.add block).doclets.length := by
  have hheadings := congrArg List.length (headings_add f block)
  simp only [List.length_map, List.length_append] at hheadings
  omega

theorem getElem?_run (hk : k < f.doclets.length) (blocks : List Block) :
    (blocks.foldl add f).doclets[k]? =
      f.doclets[k]?.map fun d => (f.joining k blocks).foldl Doclet.withConstructor d := by
  induction blocks generalizing f with
  | nil => simp [joining]
  | cons block blocks ih =>
    have hlater : k < (f.add block).doclets.length := Nat.lt_of_lt_of_le hk (length_add_le f block)
    rw [List.foldl_cons, ih hlater, getElem?_add hk, Option.map_map, joining]
    refine congrArg (fun g => f.doclets[k]?.map g) (funext fun d => ?_)
    cases f.joinsAt k block <;> rfl

def made (origin : Origin) (block : Block) (i : Identity) : Doclet :=
  Doclet.of origin block (remark block) (asClass (declared block)) i

def joined (origin : Origin) (before : List Block) (block : Block) (after : List Block) :
    List Comment :=
  (upTo origin (before ++ [block])).joining (ofBlocks origin before).length after

def final (origin : Origin) (before : List Block) (block : Block) (i : Identity)
    (after : List Block) : Doclet :=
  (joined origin before block after).foldl Doclet.withConstructor (made origin block i)

variable {origin : Origin} {before : List Block} {i : Identity}

theorem doclets_add_of_added (h : f.added? block = some i) :
    (f.add block).doclets = f.doclets ++ [made f.origin block i] := by
  rcases add_cases f block with ⟨_, hnone, _⟩ | ⟨_, hnone, _⟩ | ⟨j, _, hsome, hadd⟩
  · simp [hnone] at h
  · simp [hnone] at h
  · obtain rfl : j = i := by simpa [hsome] using h
    rw [hadd]
    rfl

theorem origin_run (f : FileDoclets) (blocks : List Block) :
    (blocks.foldl add f).origin = f.origin := by
  induction blocks generalizing f with
  | nil => rfl
  | cons block blocks ih =>
    rw [List.foldl_cons, ih]
    rcases add_cases f block with ⟨_, _, h, _⟩ | ⟨_, _, h⟩ | ⟨i, _, _, h⟩
    · exact h
    · rw [h]
    · rw [h]

theorem origin_upTo (origin : Origin) (blocks : List Block) :
    (upTo origin blocks).origin = origin :=
  origin_run { origin := origin } blocks

theorem getElem?_ofBlocks (h : (upTo origin before).added? block = some i) (after : List Block) :
    (ofBlocks origin (before ++ block :: after))[(ofBlocks origin before).length]? =
      some (final origin before block i after) := by
  have hstate : ofBlocks origin (before ++ block :: after) =
      (after.foldl add (upTo origin (before ++ [block]))).doclets := by
    simp [ofBlocks, upTo]
  have hdoclets : (upTo origin (before ++ [block])).doclets =
      ofBlocks origin before ++ [made origin block i] := by
    rw [upTo_concat, doclets_add_of_added h, origin_upTo]
    rfl
  have hplace : (upTo origin (before ++ [block])).doclets[(ofBlocks origin before).length]? =
      some (made origin block i) := by
    rw [hdoclets]
    simp
  have hlength : (ofBlocks origin before).length < (upTo origin (before ++ [block])).doclets.length := by
    rw [hdoclets]
    simp
  rw [hstate, getElem?_run hlength, hplace]
  rfl

theorem exists_added_of_getElem? {blocks : List Block} {k : Nat} {d : Doclet}
    (h : (ofBlocks origin blocks)[k]? = some d) :
    ∃ before block after i, blocks = before ++ block :: after ∧
      (upTo origin before).added? block = some i ∧ k = (ofBlocks origin before).length ∧
      d = final origin before block i after := by
  suffices hfound : ∃ before block after i, blocks = before ++ block :: after ∧
      (upTo origin before).added? block = some i ∧ k = (ofBlocks origin before).length by
    obtain ⟨before, block, after, i, rfl, hadded, rfl⟩ := hfound
    have hd := getElem?_ofBlocks hadded after
    rw [h] at hd
    exact ⟨before, block, after, i, rfl, hadded, rfl, Option.some.inj hd⟩
  have hk : k < (ofBlocks origin blocks).length := (List.getElem?_eq_some_iff.mp h).1
  clear h
  -- from the end: the last comment either adds the doclet at `k`, or this one was there before it
  induction blocks using List.reverseRecOn with
  | nil => simp [ofBlocks] at hk
  | append_singleton blocks last ih =>
    by_cases hearlier : k < (ofBlocks origin blocks).length
    · obtain ⟨before, block, after, i, rfl, hadded, hplace⟩ := ih hearlier
      exact ⟨before, block, after ++ [last], i, by simp, hadded, hplace⟩
    · have hlength := congrArg List.length (headings_add (upTo origin blocks) last)
      rw [← upTo_concat] at hlength
      simp only [List.length_map, List.length_append] at hlength
      change (ofBlocks origin (blocks ++ [last])).length = (ofBlocks origin blocks).length + _ at hlength
      cases hadded : (upTo origin blocks).added? last with
      | none =>
        simp only [hadded, Option.toList_none, List.length_nil] at hlength
        omega
      | some i =>
        simp only [hadded, Option.toList_some, List.length_singleton] at hlength
        exact ⟨blocks, last, [], i, rfl, hadded, by omega⟩

theorem heading_final (origin : Origin) (before : List Block) (block : Block) (i : Identity)
    (after : List Block) : (final origin before block i after).heading = i.heading := by
  rw [final, Doclet.foldl_withConstructor Doclet.heading Doclet.heading_withConstructor, made,
    Doclet.heading_of]

theorem kind_final (origin : Origin) (before : List Block) (block : Block) (i : Identity)
    (after : List Block) : (final origin before block i after).kind = i.kind :=
  congrArg Heading.kind (heading_final origin before block i after)

theorem longname_final (origin : Origin) (before : List Block) (block : Block) (i : Identity)
    (after : List Block) :
    (final origin before block i after).longname = String.ofList i.longname :=
  congrArg Heading.longname (heading_final origin before block i after)

theorem comment_final (origin : Origin) (before : List Block) (block : Block) (i : Identity)
    (after : List Block) :
    (final origin before block i after).comment = String.ofList block.comment := by
  have hkeep : ∀ (d : Doclet) (c : Comment), (d.withConstructor c).comment = d.comment :=
    fun _ _ => rfl
  rw [final, Doclet.foldl_withConstructor Doclet.comment hkeep]
  rfl

end FileDoclets

end ApiPages
