import Mathlib.Data.List.Infix
import ApiPages.Source.Bytes

/-!
Where the bytes of a text are cut into characters. A character of ASCII is one byte; the bytes of
any other one are all beyond ASCII, so that a loop which looks for bytes of ASCII passes over them.
Between two characters a text can be cut, and there only.
-/
namespace ApiPages.Source

theorem bytesOf_cons (c : Char) (cs : List Char) :
    bytesOf (c :: cs) = String.utf8EncodeChar c ++ bytesOf cs :=
  List.flatMap_cons

theorem length_bytesOf_cons (c : Char) (cs : List Char) :
    (bytesOf (c :: cs)).length = c.utf8Size + (bytesOf cs).length := by
  rw [bytesOf_cons, List.length_append, String.length_utf8EncodeChar]

theorem bytesOf_append (s t : List Char) : bytesOf (s ++ t) = bytesOf s ++ bytesOf t :=
  List.flatMap_append

theorem toByteArray_ofList (text : List Char) :
    (String.ofList text).toByteArray = (bytesOf text).toByteArray := by
  rw [String.toByteArray_ofList]
  rfl

section Characters

variable {a c : Char}

def lead (c : Char) : UInt8 := (String.utf8EncodeChar c).headD 0

theorem utf8Size_of_ascii (h : c.toNat < 0x80) : c.utf8Size = 1 := by
  rw [Char.utf8Size_eq_one_iff, UInt32.le_iff_toNat_le]
  exact Nat.le_of_lt_succ h

theorem lead_of_ascii (h : c.toNat < 0x80) : lead c = byte c := by
  rw [lead, String.utf8EncodeChar_eq_singleton (utf8Size_of_ascii h)]
  rfl

theorem toNat_byte (h : c.toNat < 0x80) : (byte c).toNat = c.toNat := by
  change c.toNat % 256 = c.toNat
  omega

theorem high_ofNat (n : Nat) {k m : Nat} (hk : 0x80 ≤ k) (hm : 0 < m) (hsum : m + k ≤ 0x100) :
    0x80 ≤ UInt8.ofNat (n % m + k) := by
  have hlt := Nat.mod_lt n hm
  rw [UInt8.le_iff_toNat_le, UInt8.toNat_ofNat', Nat.mod_eq_of_lt (by omega)]
  exact Nat.le_add_left_of_le hk

theorem high_of_mem_utf8EncodeChar (h : 0x80 ≤ c.toNat) :
    ∀ b ∈ String.utf8EncodeChar c, 0x80 ≤ b := by
  change 0x80 ≤ c.val.toNat at h
  have htwo (n : Nat) : 0x80 ≤ UInt8.ofNat (n % 0x20 + 0xc0) :=
    high_ofNat n (by decide) (by decide) (by decide)
  have hthree (n : Nat) : 0x80 ≤ UInt8.ofNat (n % 0x10 + 0xe0) :=
    high_ofNat n (by decide) (by decide) (by decide)
  have hfour (n : Nat) : 0x80 ≤ UInt8.ofNat (n % 0x08 + 0xf0) :=
    high_ofNat n (by decide) (by decide) (by decide)
  have hbehind (n : Nat) : 0x80 ≤ UInt8.ofNat (n % 0x40 + 0x80) :=
    high_ofNat n (by decide) (by decide) (by decide)
  fun_cases String.utf8EncodeChar c with
  | case1 => omega
  | case2 | case3 | case4 =>
    simp only [List.forall_mem_cons, htwo, hthree, hfour, hbehind, List.not_mem_nil, false_imp_iff,
      true_and, implies_true]

theorem exists_tail (c : Char) : ∃ tail, String.utf8EncodeChar c = lead c :: tail ∧
    tail.length + 1 = c.utf8Size ∧ ∀ b ∈ tail, 0x80 ≤ b := by
  obtain ⟨b, tail, hbytes⟩ := List.exists_cons_of_ne_nil (String.utf8EncodeChar_ne_nil (c := c))
  have hlead : lead c = b := by rw [lead, hbytes, List.headD_cons]
  have hsize : tail.length + 1 = c.utf8Size := by
    rw [← String.length_utf8EncodeChar, hbytes, List.length_cons]
  refine ⟨tail, by rw [hbytes, hlead], hsize, fun b' hb' => ?_⟩
  by_cases hc : c.toNat < 0x80
  · rw [utf8Size_of_ascii hc] at hsize
    rw [List.length_eq_zero_iff.mp (Nat.succ.inj hsize)] at hb'
    exact absurd hb' List.not_mem_nil
  · apply high_of_mem_utf8EncodeChar (Nat.le_of_not_lt hc)
    rw [hbytes]
    exact List.mem_cons_of_mem b hb'

theorem high_lead (h : 0x80 ≤ c.toNat) : 0x80 ≤ lead c := by
  obtain ⟨tail, hbytes, -⟩ := exists_tail c
  apply high_of_mem_utf8EncodeChar h
  rw [hbytes]
  exact List.mem_cons_self

theorem ne_byte_of_high {b : UInt8} (hb : 0x80 ≤ b) (ha : a.toNat < 0x80) : b ≠ byte a := by
  rintro rfl
  rw [UInt8.le_iff_toNat_le, toNat_byte ha] at hb
  exact absurd ha (Nat.not_lt.mpr hb)

theorem byte_inj (hc : c.toNat < 0x80) (ha : a.toNat < 0x80) : byte c = byte a ↔ c = a := by
  constructor
  · intro h
    have hnat := congrArg UInt8.toNat h
    rw [toNat_byte hc, toNat_byte ha] at hnat
    exact Char.toNat_inj.mp hnat
  · exact congrArg byte

theorem lead_eq_byte_iff (ha : a.toNat < 0x80) : lead c = byte a ↔ c = a := by
  by_cases hc : c.toNat < 0x80
  · rw [lead_of_ascii hc, byte_inj hc ha]
  · refine iff_of_false (ne_byte_of_high (high_lead (Nat.le_of_not_lt hc)) ha) ?_
    rintro rfl
    exact hc ha

theorem lead_beq_byte (ha : a.toNat < 0x80) : (lead c == byte a) = (c == a) := by
  rw [Bool.eq_iff_iff, beq_iff_eq, beq_iff_eq, lead_eq_byte_iff ha]

theorem isIdentByte_of_high {b : UInt8} (hb : 0x80 ≤ b) : isIdentByte b = true := by
  simp [isIdentByte, hb]

theorem isIdentByte_lead : isIdentByte (lead c) = isWordPart c := by
  by_cases hc : c.toNat < 0x80
  · have hall : ∀ n : Fin 0x80,
        isIdentByte (byte (Char.ofNat n)) = isWordPart (Char.ofNat n) := by decide
    rw [lead_of_ascii hc]
    simpa using hall ⟨c.toNat, hc⟩
  · have hhigh := Nat.le_of_not_lt hc
    rw [isIdentByte_of_high (high_lead hhigh)]
    simp [isWordPart, hhigh]

end Characters

/-- What stands in a text from one of its bytes on, which is the first of a character or the end. -/
def At (text : List Char) (i : Nat) (rest : List Char) : Prop :=
  ∃ front, text = front ++ rest ∧ i = (bytesOf front).length

namespace At

variable {text rest s : List Char} {i j : Nat} {c : Char}

theorem start (text : List Char) : At text 0 text := ⟨[], rfl, rfl⟩

theorem stop (text : List Char) : At text (bytesOf text).length [] :=
  ⟨text, (List.append_nil text).symm, rfl⟩

theorem drop_bytesOf (h : At text i rest) : (bytesOf text).drop i = bytesOf rest := by
  obtain ⟨front, rfl, rfl⟩ := h
  rw [bytesOf_append, List.drop_left]

theorem getElem?_add (h : At text i rest) (k : Nat) :
    (bytesOf text)[i + k]? = (bytesOf rest)[k]? := by
  rw [← h.drop_bytesOf, List.getElem?_drop]

theorem behind (h : At text i (s ++ rest)) : At text (i + (bytesOf s).length) rest := by
  obtain ⟨front, rfl, rfl⟩ := h
  exact ⟨front ++ s, by rw [List.append_assoc], by rw [bytesOf_append, List.length_append]⟩

theorem next (h : At text i (c :: rest)) : At text (i + c.utf8Size) rest := by
  have hsize : (bytesOf [c]).length = c.utf8Size := length_bytesOf_cons c []
  rw [← hsize]
  exact At.behind (s := [c]) h

theorem next_of_ascii (h : At text i (c :: rest)) (hc : c.toNat < 0x80) : At text (i + 1) rest := by
  have hnext := h.next
  rwa [utf8Size_of_ascii hc] at hnext

theorem index_eq (h : At text i rest) (h' : At text j rest) : i = j := by
  obtain ⟨front, hfront, rfl⟩ := h
  obtain ⟨front', hfront', rfl⟩ := h'
  rw [List.append_cancel_right (hfront.symm.trans hfront')]

theorem le_length (h : At text i rest) : i ≤ (bytesOf text).length := by
  obtain ⟨front, rfl, rfl⟩ := h
  rw [bytesOf_append, List.length_append]
  exact Nat.le_add_right _ _

theorem eq_length (h : At text i []) : i = (bytesOf text).length := by
  obtain ⟨front, rfl, rfl⟩ := h
  rw [List.append_nil]

theorem getElem?_nil (h : At text i []) : (bytesOf text)[i]? = none :=
  List.getElem?_eq_none h.eq_length.ge

theorem getElem?_cons (h : At text i (c :: rest)) : (bytesOf text)[i]? = some (lead c) := by
  obtain ⟨tail, hbytes, -⟩ := exists_tail c
  have hbyte := h.getElem?_add 0
  rwa [bytesOf_cons, hbytes] at hbyte

theorem getElem?_eq_byte_iff {a : Char} (h : At text i rest) (ha : a.toNat < 0x80) :
    (bytesOf text)[i]? = some (byte a) ↔ rest.head? = some a := by
  cases rest with
  | nil => simp [h.getElem?_nil]
  | cons c rest => simp [h.getElem?_cons, lead_eq_byte_iff ha]

theorem exists_high {n : Nat} (h : At text i (c :: rest)) (hn : n + 1 < c.utf8Size) :
    ∃ b, (bytesOf text)[i + 1 + n]? = some b ∧ 0x80 ≤ b := by
  obtain ⟨tail, hbytes, hsize, hhigh⟩ := exists_tail c
  have hlt : n < tail.length := by omega
  refine ⟨tail[n], ?_, hhigh _ (List.getElem_mem hlt)⟩
  rw [Nat.add_assoc, h.getElem?_add, bytesOf_cons, hbytes, Nat.add_comm 1 n, List.cons_append,
    List.getElem?_cons_succ, List.getElem?_append_left hlt, List.getElem?_eq_getElem hlt]

theorem skip {α : Type} {f : Nat → α} (h : At text i (c :: rest))
    (hf : ∀ k b, (bytesOf text)[k]? = some b → 0x80 ≤ b → f k = f (k + 1)) :
    f (i + 1) = f (i + c.utf8Size) := by
  have hpassed : ∀ n < c.utf8Size, f (i + 1) = f (i + 1 + n) := by
    intro n
    induction n with
    | zero => exact fun _ => rfl
    | succ n ih =>
      intro hn
      obtain ⟨b, hbyte, hhigh⟩ := h.exists_high hn
      rw [ih (by omega), hf _ b hbyte hhigh]
      rfl
  have hpos := c.utf8Size_pos
  have hend : i + 1 + (c.utf8Size - 1) = i + c.utf8Size := by omega
  rw [hpassed (c.utf8Size - 1) (by omega), hend]

end At

theorem cutAt?_eq_some_iff {n : Nat} {text front rest : List Char} :
    cutAt? n text = some (front, rest) ↔ text = front ++ rest ∧ n = (bytesOf front).length := by
  induction text generalizing n front with
  | nil => cases n <;> cases front <;> simp [cutAt?, bytesOf]
  | cons c text ih =>
    have hpos := c.utf8Size_pos
    cases n with
    | zero =>
      cases front with
      | nil => simp [cutAt?, bytesOf]
      | cons d front =>
        have hpos := d.utf8Size_pos
        simp only [cutAt?, length_bytesOf_cons, Option.some.injEq, Prod.mk.injEq]
        refine iff_of_false (fun h => absurd h.1 (by simp)) fun h => ?_
        omega
    | succ n =>
      cases front with
      | nil => simp [cutAt?, bytesOf]
      | cons d front =>
        rw [cutAt?, length_bytesOf_cons]
        split
        · refine iff_of_false (by simp) ?_
          rintro ⟨happend, hlength⟩
          obtain ⟨rfl, -⟩ := List.cons.inj happend
          omega
        · have hcount : n + 1 - c.utf8Size = (bytesOf front).length ↔
              n + 1 = c.utf8Size + (bytesOf front).length := by omega
          simp only [Option.map_eq_some_iff, Prod.exists, Prod.mk.injEq, List.cons.injEq,
            List.cons_append]
          constructor
          · rintro ⟨front', rest', hcut, ⟨rfl, rfl⟩, rfl⟩
            obtain ⟨rfl, hlength⟩ := ih.mp hcut
            exact ⟨⟨rfl, rfl⟩, hcount.mp hlength⟩
          · rintro ⟨⟨rfl, rfl⟩, hlength⟩
            exact ⟨front, rest, ih.mpr ⟨rfl, hcount.mpr hlength⟩, ⟨rfl, rfl⟩, rfl⟩

structure Cut.Fits (text : List Char) (cut : Cut) : Prop where
  ordered : cut.start ≤ cut.stop
  inside : cut.stop ≤ (bytesOf text).length
  start_valid : String.Pos.Raw.IsValid (String.ofList text) ⟨cut.start⟩
  stop_valid : String.Pos.Raw.IsValid (String.ofList text) ⟨cut.stop⟩

theorem utf8ByteSize_ofList (text : List Char) :
    (String.ofList text).utf8ByteSize = (bytesOf text).length := by
  rw [← String.size_toByteArray, toByteArray_ofList, List.size_toByteArray]

theorem isValid_iff_at {text : List Char} {i : Nat} :
    String.Pos.Raw.IsValid (String.ofList text) ⟨i⟩ ↔ ∃ rest, At text i rest := by
  rw [String.Pos.Raw.isValid_ofList]
  constructor
  · rintro ⟨n, hn⟩
    exact ⟨text.drop n, text.take n, (List.take_append_drop n text).symm,
      hn.trans (utf8ByteSize_ofList _)⟩
  · rintro ⟨rest, front, rfl, rfl⟩
    exact ⟨front.length, by rw [List.take_left, utf8ByteSize_ofList]⟩

variable {text s rest : List Char} {i j : Nat}

theorem Cut.text?_eq_some_iff {cut : Cut} :
    cut.text? text = some s ↔ ∃ rest, At text cut.start (s ++ rest) ∧ At text cut.stop rest := by
  rw [Cut.text?]
  constructor
  · intro h
    split at h
    · obtain ⟨⟨front, rest⟩, hstop, hfront⟩ := Option.bind_eq_some_iff.mp h
      obtain ⟨⟨before, inner⟩, hstart, rfl⟩ := Option.map_eq_some_iff.mp hfront
      obtain ⟨rfl, hfrontLength⟩ := cutAt?_eq_some_iff.mp hstop
      obtain ⟨rfl, hbeforeLength⟩ := cutAt?_eq_some_iff.mp hstart
      exact ⟨rest, ⟨before, by rw [List.append_assoc], hbeforeLength⟩,
        ⟨before ++ inner, rfl, hfrontLength⟩⟩
    · cases h
  · rintro ⟨rest, ⟨before, htext, hstart⟩, ⟨front, hfront, hstop⟩⟩
    obtain rfl : front = before ++ s :=
      List.append_cancel_right (by rw [← hfront, htext, List.append_assoc])
    have hordered : cut.start ≤ cut.stop := by
      rw [hstart, hstop, bytesOf_append, List.length_append]
      exact Nat.le_add_right _ _
    have hinner : cutAt? cut.start (before ++ s) = some (before, s) :=
      cutAt?_eq_some_iff.mpr ⟨rfl, hstart⟩
    rw [if_pos hordered, cutAt?_eq_some_iff.mpr ⟨hfront, hstop⟩, Option.bind_some]
    exact congrArg (Option.map (·.2)) hinner

theorem prefix_of_length_bytesOf_le {a b : List Char} (ha : a <+: text) (hb : b <+: text)
    (h : (bytesOf a).length ≤ (bytesOf b).length) : a <+: b := by
  rcases List.prefix_or_prefix_of_prefix ha hb with hab | ⟨more, rfl⟩
  · exact hab
  · cases more with
    | nil => rw [List.append_nil]
    | cons c more =>
      have hpos := c.utf8Size_pos
      rw [bytesOf_append, List.length_append, length_bytesOf_cons] at h
      omega

theorem Cut.fits_iff {cut : Cut} : cut.Fits text ↔ ∃ s, cut.text? text = some s := by
  constructor
  · rintro ⟨hordered, -, hstart, hstop⟩
    obtain ⟨rest, before, htext, hbefore⟩ := isValid_iff_at.mp hstart
    obtain ⟨rest', front, htext', hfront⟩ := isValid_iff_at.mp hstop
    have hle : (bytesOf before).length ≤ (bytesOf front).length := hbefore ▸ hfront ▸ hordered
    obtain ⟨s, rfl⟩ := prefix_of_length_bytesOf_le ⟨rest, htext.symm⟩ ⟨rest', htext'.symm⟩ hle
    have happend : text = before ++ (s ++ rest') := by rw [htext', List.append_assoc]
    exact ⟨s, Cut.text?_eq_some_iff.mpr
      ⟨rest', ⟨before, happend, hbefore⟩, before ++ s, htext', hfront⟩⟩
  · rintro ⟨s, hs⟩
    obtain ⟨rest, hstart, hstop⟩ := Cut.text?_eq_some_iff.mp hs
    have hlength := hstop.index_eq hstart.behind
    exact ⟨hlength ▸ Nat.le_add_right _ _, hstop.le_length, isValid_iff_at.mpr ⟨_, hstart⟩,
      isValid_iff_at.mpr ⟨_, hstop⟩⟩

end ApiPages.Source
