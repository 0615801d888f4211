import Mathlib.Algebra.Group.Nat.Defs
import Mathlib.Data.List.TakeDrop
import Mathlib.Tactic.SplitIfs
import ApiPages.Json.Bounded
import ApiPages.Json.Printer

/-!
Reading what was written. A value is plain if its numbers are whole and fit a word; every record of
the library is written as one. Main statement: the compact text of a plain value that nests no
deeper than the limit is read back as that value, so no two such values have one text.
-/
namespace ApiPages.Json

theorem hexValue?_digitChar : ∀ n < 16, hexValue? (Nat.digitChar n) = some n := by decide

theorem hex4?_hexDigits {n : Nat} (h : n < 0x20) (rest : List Char) :
    hex4? ('0' :: '0' :: hexDigit (n / 16) :: hexDigit n :: rest) = some (n, rest) := by
  have hhigh : hexValue? (hexDigit (n / 16)) = some (n / 16) := by
    rw [hexDigit, Nat.mod_eq_of_lt (by omega), hexValue?_digitChar _ (by omega)]
  have hlow : hexValue? (hexDigit n) = some (n % 16) := by
    rw [hexDigit, hexValue?_digitChar _ (by omega)]
  have hzero : hexValue? '0' = some 0 := by decide
  simp only [hex4?, hzero, hhigh, hlow, Option.bind_eq_bind, Option.bind_some, Option.pure_def]
  congr 2
  omega

theorem codeUnit?_hexDigits {n : Nat} (h : n < 0x20) (rest : List Char) :
    codeUnit? ('0' :: '0' :: hexDigit (n / 16) :: hexDigit n :: rest) =
      some (Char.ofNat n, rest) := by
  have hlow : ¬ 0xd800 ≤ n := by omega
  have hhigh : ¬ 0xdc00 ≤ n := by omega
  simp [codeUnit?, hex4?_hexDigits h, hlow, hhigh]

theorem stringBody?_escape (n : Nat) (c : Char) (rest : List Char) :
    stringBody? (n + 1) (escape c ++ rest) =
      (stringBody? n rest).map fun p => (c :: p.1, p.2) := by
  simp only [escape]
  split_ifs with hquote hslash hnew hreturn htab hback hform hcontrol
  · subst hquote; rfl
  · subst hslash; rfl
  · subst hnew; rfl
  · subst hreturn; rfl
  · subst htab; rfl
  · subst hback; rfl
  · subst hform; rfl
  · simp only [List.cons_append, List.nil_append, stringBody?]
    rw [codeUnit?_hexDigits hcontrol, Option.bind_some, Char.ofNat_toNat]
  · rw [List.cons_append, List.nil_append, stringBody?]
    · simp [hslash, hcontrol]
    · exact hquote
    · intro e more he
      exact absurd he hslash

theorem stringBody?_flatMap_escape {n : Nat} {cs : List Char} (h : cs.length < n)
    (rest : List Char) : stringBody? n (cs.flatMap escape ++ '"' :: rest) = some (cs, rest) := by
  induction cs generalizing n with
  | nil =>
    obtain ⟨n, rfl⟩ := Nat.exists_eq_succ_of_ne_zero (Nat.ne_zero_of_lt h)
    rfl
  | cons c cs ih =>
    obtain ⟨n, rfl⟩ := Nat.exists_eq_succ_of_ne_zero (Nat.ne_zero_of_lt h)
    rw [List.flatMap_cons, List.append_assoc, stringBody?_escape, ih (by simpa using h)]
    rfl

theorem length_le_flatMap_escape (cs : List Char) : cs.length ≤ (cs.flatMap escape).length := by
  induction cs with
  | nil => simp
  | cons c cs ih =>
    have hc : 1 ≤ (escape c).length := by
      simp only [escape]
      split_ifs <;> simp
    simp only [List.flatMap_cons, List.length_append, List.length_cons]
    omega

theorem string?_quoted (s : String) (rest : List Char) :
    string? (s.toList.flatMap escape ++ '"' :: rest) = some (s, rest) := by
  have hlen := length_le_flatMap_escape s.toList
  rw [string?, stringBody?_flatMap_escape (by rw [List.length_append]; omega)]
  simp

def Closes (rest : List Char) : Prop := rest = [] ∨ ∃ c more, rest = c :: more ∧ c ∈ [',', ']', '}']

theorem Closes.cases {rest : List Char} (h : Closes rest) :
    rest = [] ∨ ∃ more, rest = ',' :: more ∨ rest = ']' :: more ∨ rest = '}' :: more := by
  rcases h with rfl | ⟨c, more, rfl, hc⟩
  · exact .inl rfl
  · simp only [List.mem_cons, List.not_mem_nil, or_false] at hc
    rcases hc with rfl | rfl | rfl
    · exact .inr ⟨more, .inl rfl⟩
    · exact .inr ⟨more, .inr (.inl rfl)⟩
    · exact .inr ⟨more, .inr (.inr rfl)⟩

theorem span_digits (n : Nat) {rest : List Char} (hrest : Closes rest) :
    (digits n ++ rest).span Char.isDigit = (digits n, rest) := by
  have hall : ∀ c ∈ digits n, c.isDigit = true :=
    fun c hc => Nat.isDigit_of_mem_toDigits (by decide) (by decide) hc
  have hstop : rest.takeWhile Char.isDigit = [] ∧ rest.dropWhile Char.isDigit = rest := by
    obtain rfl | ⟨more, rfl | rfl | rfl⟩ := hrest.cases <;> exact ⟨rfl, rfl⟩
  rw [List.span_eq_takeWhile_dropWhile, List.takeWhile_append_of_pos hall,
    List.dropWhile_append_of_pos hall, hstop.1, hstop.2, List.append_nil]

theorem digitChar_ne_zero : ∀ k < 10, k ≠ 0 → Nat.digitChar k ≠ '0' := by decide

theorem head?_digits {n : Nat} (h : 1 < (digits n).length) : (digits n).head? ≠ some '0' := by
  induction n using Nat.strongRecOn with
  | _ n ih =>
    by_cases hn : n < 10
    · simp [digits, Nat.toDigits_of_lt_base hn] at h
    · have hsplit : digits n = digits (n / 10) ++ [Nat.digitChar (n % 10)] :=
        Nat.toDigits_of_base_le (by decide) (by omega)
      obtain ⟨d, ds, hcons⟩ :=
        List.exists_cons_of_ne_nil (Nat.toDigits_ne_nil (n := n / 10) (b := 10))
      have hhead : (digits n).head? = (digits (n / 10)).head? := by
        rw [hsplit, digits, hcons]
        rfl
      rw [hhead]
      by_cases hten : n / 10 < 10
      · rw [digits, Nat.toDigits_of_lt_base hten, List.head?_cons]
        exact fun he => digitChar_ne_zero _ hten (by omega) (Option.some.inj he)
      · refine ih (n / 10) (by omega) ?_
        have hmore : digits (n / 10) = digits (n / 10 / 10) ++ [Nat.digitChar (n / 10 % 10)] :=
          Nat.toDigits_of_base_le (by decide) (by omega)
        have hpos : 0 < (digits (n / 10 / 10)).length := Nat.length_toDigits_pos
        rw [hmore, List.length_append, List.length_singleton]
        omega

theorem exists_digits_cons (n : Nat) : ∃ d ds, digits n = d :: ds ∧ d.isDigit = true := by
  obtain ⟨d, ds, hcons⟩ := List.exists_cons_of_ne_nil (Nat.toDigits_ne_nil (n := n) (b := 10))
  have hmem : d ∈ Nat.toDigits 10 n := hcons ▸ List.mem_cons_self
  exact ⟨d, ds, hcons, Nat.isDigit_of_mem_toDigits (by decide) (by decide) hmem⟩

theorem fraction?_closes {rest : List Char} (hrest : Closes rest) :
    fraction? rest = some ([], rest) := by
  obtain rfl | ⟨more, rfl | rfl | rfl⟩ := hrest.cases <;> rfl

theorem power?_closes {rest : List Char} (hrest : Closes rest) :
    power? rest = some (none, rest) := by
  obtain rfl | ⟨more, rfl | rfl | rfl⟩ := hrest.cases <;> rfl

theorem number?_of_sign {n : Nat} {negative : Bool} {cs rest : List Char}
    (hsign : sign cs = (negative, digits n ++ rest)) (hrest : Closes rest) :
    number? cs = some (numberOf negative (digits n) [] none, rest) := by
  have hlead : ¬ (digits n = [] ∨ ((digits n).length > 1 ∧ (digits n).head? = some '0')) := by
    rintro (hnil | ⟨hlen, hzero⟩)
    · exact Nat.toDigits_ne_nil hnil
    · exact head?_digits hlen hzero
  simp only [number?, hsign, span_digits n hrest, if_neg hlead, fraction?_closes hrest,
    power?_closes hrest, Option.bind_eq_bind, Option.bind_some, Option.pure_def]

theorem numberOf_digits {n : Nat} {negative : Bool}
    (hfit : Number.fitsWord ((if negative then -1 else 1) * n) = true)
    (hzero : negative = true → n ≠ 0) :
    numberOf negative (digits n) [] none = .whole ((if negative then -1 else 1) * n) := by
  have hvalue : natOf (digits n) = n := Nat.ofDigitChars_ten_toDigits
  have hzero' : ¬ (negative = true ∧ (if negative then -1 else 1 : Int) * n = 0) := by
    rintro ⟨rfl, hn⟩
    have := hzero rfl
    simp at hn
    omega
  simp only [numberOf, hvalue]
  exact if_pos ⟨trivial, trivial, hfit, hzero'⟩

theorem sign_digits (n : Nat) (rest : List Char) :
    sign (digits n ++ rest) = (false, digits n ++ rest) := by
  obtain ⟨d, ds, hcons, hd⟩ := exists_digits_cons n
  rw [hcons, List.cons_append, sign]
  rintro more he
  obtain ⟨rfl, -⟩ := List.cons.inj he
  simp at hd

theorem number?_writeInt {value : Int} (hfit : Number.fitsWord value = true) {rest : List Char}
    (hrest : Closes rest) : number? (writeInt value ++ rest) = some (.whole value, rest) := by
  cases value with
  | ofNat n =>
    rw [writeInt, number?_of_sign (sign_digits n rest) hrest,
      numberOf_digits (by simpa using hfit) (by simp)]
    simp
  | negSucc n =>
    have hneg : Int.negSucc n = (if true then -1 else 1) * (n + 1 : Nat) := by
      simp only [if_true]
      omega
    rw [hneg] at hfit ⊢
    rw [← numberOf_digits hfit (by simp), ← hneg]
    exact number?_of_sign rfl hrest

mutual

def isPlain : Nat → Json → Bool
  | _, .number (.whole value) => Number.fitsWord value
  | _, .number _ => false
  | 0, .array _ | 0, .object _ => false
  | depth + 1, .array items => arePlain depth items
  | depth + 1, .object fields => havePlain depth fields
  | _, _ => true

def arePlain (depth : Nat) : List Json → Bool
  | [] => true
  | item :: items => isPlain depth item && arePlain depth items

def havePlain (depth : Nat) : List (String × Json) → Bool
  | [] => true
  | (_, value) :: fields => isPlain depth value && havePlain depth fields

end

theorem arePlain_eq_true {depth : Nat} {items : List Json} :
    arePlain depth items = true ↔ ∀ item ∈ items, isPlain depth item = true := by
  induction items with
  | nil => simp [arePlain]
  | cons item items ih => simp [arePlain, ih]

theorem havePlain_eq_true {depth : Nat} {fields : List (String × Json)} :
    havePlain depth fields = true ↔ ∀ field ∈ fields, isPlain depth field.2 = true := by
  induction fields with
  | nil => simp [havePlain]
  | cons field fields ih => simp [havePlain, ih]

theorem skipSpace_cons {c : Char} (h : isSpace c = false) (rest : List Char) :
    skipSpace (c :: rest) = c :: rest := by
  simp [skipSpace, h]

theorem exists_writeInt_cons (value : Int) :
    ∃ c more, writeInt value = c :: more ∧ (c.isDigit = true ∨ c = '-') := by
  cases value with
  | ofNat n =>
    obtain ⟨d, ds, hcons, hd⟩ := exists_digits_cons n
    exact ⟨d, ds, hcons, .inl hd⟩
  | negSucc n => exact ⟨'-', digits (n + 1), rfl, .inr rfl⟩

theorem isSpace_of_isDigit {c : Char} (h : c.isDigit = true ∨ c = '-') :
    isSpace c = false ∧ c ≠ ']' ∧ c ∉ ['n', 't', 'f', '"', '[', '{'] := by
  have hdiff (d : Char) (hd : d.isDigit = false ∧ d ≠ '-') : c ≠ d := by
    rintro rfl
    simp_all
  refine ⟨?_, hdiff _ (by decide), ?_⟩
  · simp [isSpace, hdiff ' ' (by decide), hdiff '\n' (by decide), hdiff '\t' (by decide),
      hdiff '\r' (by decide)]
  · simp only [List.mem_cons, List.not_mem_nil, or_false]
    rintro (hm | hm | hm | hm | hm | hm) <;> exact hdiff _ (by decide) hm

theorem exists_write_cons {depth : Nat} {v : Json} (h : isPlain depth v = true)
    (rest : List Char) : ∃ c more, write v rest = c :: more ∧ isSpace c = false ∧ c ≠ ']' := by
  cases v with
  | null => exact ⟨'n', _, rfl, by decide, by decide⟩
  | bool b => cases b <;> exact ⟨_, _, rfl, by decide, by decide⟩
  | number n =>
    cases n with
    | whole value =>
      obtain ⟨c, more, hcons, hc⟩ := exists_writeInt_cons value
      obtain ⟨hspace, hbracket, -⟩ := isSpace_of_isDigit hc
      exact ⟨c, more ++ rest, by simp [write, writeNumber, hcons], hspace, hbracket⟩
    | decimal negative ds exponent => simp [isPlain] at h
  | string s => exact ⟨'"', _, rfl, by decide, by decide⟩
  | array items => cases items <;> exact ⟨'[', _, rfl, by decide, by decide⟩
  | object fields =>
    cases fields with
    | nil => exact ⟨'{', _, rfl, by decide, by decide⟩
    | cons field fields => exact ⟨'{', _, rfl, by decide, by decide⟩

theorem write_ne_nil {depth : Nat} {v : Json} (h : isPlain depth v = true) (rest : List Char) :
    write v rest ≠ [] := by
  obtain ⟨c, more, hcons, -⟩ := exists_write_cons h rest
  rw [hcons]
  exact List.cons_ne_nil c more

mutual

theorem length_le_write : ∀ (v : Json) (rest : List Char), rest.length ≤ (write v rest).length
  | .null, rest => by simp only [write, List.length_cons]; omega
  | .bool true, rest => by simp only [write, List.length_cons]; omega
  | .bool false, rest => by simp only [write, List.length_cons]; omega
  | .number n, rest => by simp only [write, List.length_append]; omega
  | .string s, rest => by simp only [write, List.length_append]; omega
  | .array [], rest => by simp only [write, List.length_cons]; omega
  | .array (item :: items), rest => by
    have hitem := length_le_write item (writeItems items rest)
    have hitems := length_le_writeItems items rest
    simp only [write, List.length_cons]
    omega
  | .object [], rest => by simp only [write, List.length_cons]; omega
  | .object ((name, value) :: fields), rest => by
    have hvalue := length_le_write value (writeFields fields rest)
    have hfields := length_le_writeFields fields rest
    simp only [write, List.length_cons, List.length_append]
    omega

theorem length_le_writeItems :
    ∀ (items : List Json) (rest : List Char), rest.length ≤ (writeItems items rest).length
  | [], rest => by simp only [writeItems, List.length_cons]; omega
  | item :: items, rest => by
    have hitem := length_le_write item (writeItems items rest)
    have hitems := length_le_writeItems items rest
    simp only [writeItems, List.length_cons]
    omega

theorem length_le_writeFields : ∀ (fields : List (String × Json)) (rest : List Char),
    rest.length ≤ (writeFields fields rest).length
  | [], rest => by simp only [writeFields, List.length_cons]; omega
  | (name, value) :: fields, rest => by
    have hvalue := length_le_write value (writeFields fields rest)
    have hfields := length_le_writeFields fields rest
    simp only [writeFields, List.length_cons, List.length_append]
    omega

end

theorem closes_writeItems (items : List Json) (rest : List Char) :
    Closes (writeItems items rest) := by
  cases items <;> exact .inr ⟨_, _, rfl, by decide⟩

theorem closes_writeFields (fields : List (String × Json)) (rest : List Char) :
    Closes (writeFields fields rest) := by
  cases fields <;> exact .inr ⟨_, _, rfl, by decide⟩

theorem value?_number {n : Nat} {value : Int} (hfit : Number.fitsWord value = true)
    {rest : List Char} (hrest : Closes rest) :
    value? (n + 1) (writeInt value ++ rest) = some (.number (.whole value), rest) := by
  obtain ⟨c, more, hcons, hc⟩ := exists_writeInt_cons value
  obtain ⟨hspace, -, hother⟩ := isSpace_of_isDigit hc
  have hnumber := number?_writeInt hfit hrest
  rw [hcons, List.cons_append] at hnumber ⊢
  simp only [List.mem_cons, List.not_mem_nil, or_false, not_or] at hother
  rw [value?, skipSpace_cons hspace]
  split
  case h_7 => rw [hnumber]; rfl
  all_goals simp_all only [List.cons.injEq, false_and]

theorem field?_quoted {n : Nat} {name : String} {value : Json} {cs rest : List Char}
    (h : value? n cs = some (value, rest)) :
    field? (n + 1) (quoted name ++ ':' :: cs) = some ((name, value), rest) := by
  have hquoted : quoted name ++ ':' :: cs =
      '"' :: (name.toList.flatMap escape ++ '"' :: ':' :: cs) := by
    simp [quoted]
  rw [hquoted, field?, skipSpace_cons (by decide)]
  simp only [string?_quoted, skipSpace_cons (c := ':') (by decide), h, Option.bind_eq_bind,
    Option.bind_some, Option.pure_def]

theorem value?_array {n : Nat} {item : Json} {items : List Json} {cs more rest : List Char}
    (hhead : ∃ c tail, cs = c :: tail ∧ isSpace c = false ∧ c ≠ ']')
    (hitem : value? n cs = some (item, more)) (hitems : items? n more = some (items, rest)) :
    value? (n + 1) ('[' :: cs) = some (.array (item :: items), rest) := by
  obtain ⟨c, tail, rfl, hspace, hbracket⟩ := hhead
  rw [value?, skipSpace_cons (by decide)]
  simp only [skipSpace_cons hspace]
  split
  case h_1 heq => exact absurd (List.cons.inj heq).1 hbracket
  case h_2 => simp only [hitem, hitems, Option.bind_eq_bind, Option.bind_some, Option.pure_def]

theorem value?_object {n : Nat} {field : String × Json} {fields : List (String × Json)}
    {cs more rest : List Char} (hfield : field? n ('"' :: cs) = some (field, more))
    (hfields : fields? n more = some (fields, rest)) :
    value? (n + 1) ('{' :: '"' :: cs) = some (.object (field :: fields), rest) := by
  rw [value?, skipSpace_cons (by decide)]
  simp only [skipSpace_cons (c := '"') (by decide)]
  split
  case h_1 heq => exact absurd (List.cons.inj heq).1 (by decide)
  case h_2 => simp only [hfield, hfields, Option.bind_eq_bind, Option.bind_some, Option.pure_def]

-- The count that the readers run down is never less than the characters left: a step that reads no
-- character of its own, that of a field, comes with the quotes of its name.
mutual

theorem value?_write : ∀ (v : Json) {depth n : Nat} {rest : List Char}, isPlain depth v = true →
    Closes rest → (write v rest).length ≤ n → value? n (write v rest) = some (v, rest)
  | .null, _, n + 1, rest, _, _, _ => rfl
  | .bool true, _, n + 1, rest, _, _, _ => rfl
  | .bool false, _, n + 1, rest, _, _, _ => rfl
  | .number (.whole value), depth, n, rest, hplain, hrest, hn => by
    have hpos := List.length_pos_iff.mpr (write_ne_nil hplain rest)
    obtain ⟨n, rfl⟩ := Nat.exists_eq_succ_of_ne_zero (Nat.ne_zero_of_lt (by omega : 0 < n))
    rw [isPlain] at hplain
    exact value?_number hplain hrest
  | .string s, _, n + 1, rest, _, _, _ => by
    have hquoted : write (.string s) rest = '"' :: (s.toList.flatMap escape ++ '"' :: rest) := by
      simp [write, quoted]
    rw [hquoted, value?, skipSpace_cons (by decide)]
    simp only [string?_quoted, Option.map_some]
  | .array [], _, n + 1, rest, _, _, _ => rfl
  | .array (item :: items), depth + 1, n + 1, rest, hplain, _, hn => by
    simp only [isPlain, arePlain, Bool.and_eq_true] at hplain
    have hitem := length_le_write item (writeItems items rest)
    rw [write, List.length_cons] at hn
    rw [write]
    exact value?_array (exists_write_cons hplain.1 _)
      (value?_write item hplain.1 (closes_writeItems items rest) (by omega))
      (items?_writeItems items hplain.2 (by omega))
  | .object [], _, n + 1, rest, _, _, _ => rfl
  | .object ((name, value) :: fields), depth + 1, n + 2, rest, hplain, _, hn => by
    simp only [isPlain, havePlain, Bool.and_eq_true] at hplain
    have hvalue := length_le_write value (writeFields fields rest)
    rw [write, List.length_cons, List.length_append, List.length_cons] at hn
    have hname : 2 ≤ (quoted name).length := by simp [quoted]
    rw [write]
    exact value?_object (field?_quoted
      (value?_write value hplain.1 (closes_writeFields fields rest) (by omega)))
      (fields?_writeFields fields hplain.2 (by omega))

theorem items?_writeItems : ∀ (items : List Json) {depth n : Nat} {rest : List Char},
    arePlain depth items = true → (writeItems items rest).length ≤ n →
    items? n (writeItems items rest) = some (items, rest)
  | [], _, n + 1, rest, _, _ => rfl
  | item :: items, depth, n + 1, rest, hplain, hn => by
    simp only [arePlain, Bool.and_eq_true] at hplain
    have hitem := length_le_write item (writeItems items rest)
    rw [writeItems, List.length_cons] at hn
    have hread := value?_write (n := n) item hplain.1 (closes_writeItems items rest) (by omega)
    have hmore : items? n (writeItems items rest) = some (items, rest) :=
      items?_writeItems items hplain.2 (by omega)
    rw [writeItems, items?, skipSpace_cons (by decide)]
    simp only [hread, hmore, Option.bind_eq_bind, Option.bind_some, Option.pure_def]

theorem fields?_writeFields : ∀ (fields : List (String × Json)) {depth n : Nat}
    {rest : List Char}, havePlain depth fields = true → (writeFields fields rest).length ≤ n →
    fields? n (writeFields fields rest) = some (fields, rest)
  | [], _, n + 1, rest, _, _ => rfl
  | (name, value) :: fields, depth, n + 2, rest, hplain, hn => by
    simp only [havePlain, Bool.and_eq_true] at hplain
    have hvalue := length_le_write value (writeFields fields rest)
    have hname : 2 ≤ (quoted name).length := by simp [quoted]
    rw [writeFields, List.length_cons, List.length_append, List.length_cons] at hn
    have hread : value? n (write value (writeFields fields rest)) =
        some (value, writeFields fields rest) :=
      value?_write value hplain.1 (closes_writeFields fields rest) (by omega)
    have hmore : fields? (n + 1) (writeFields fields rest) = some (fields, rest) :=
      fields?_writeFields fields hplain.2 (by omega)
    rw [writeFields, fields?, skipSpace_cons (by decide)]
    simp only [field?_quoted hread, hmore, Option.bind_eq_bind, Option.bind_some, Option.pure_def]

end

theorem parse?_compact {depth : Nat} {v : Json} (h : isPlain depth v = true) :
    parse? (compact v) = some v := by
  have hread := value?_write (n := 2 * (write v []).length + 2) v h (.inl rfl) (by omega)
  rw [parse?, compact, String.toList_ofList]
  simp only [hread]
  rfl

theorem exponentOf_le {n k : Nat} (h : n < 2 ^ k) :
    Double.exponentOf n 1 ≤ max ((k : Int) - 52) Double.leastExponent := by
  have hlog : Nat.log2 n ≤ k := by
    by_cases hn : n = 0
    · simp [hn]
    · exact Nat.le_of_lt ((Nat.log2_lt hn).mpr h)
  have hone : Nat.log2 1 = 0 := by decide
  simp only [Double.exponentOf, hone]
  split <;> omega

theorem nearest?_isSome {n : Nat} (h : n < 2 ^ 65) : (Double.nearest? n 1).isSome = true := by
  have hexp := exponentOf_le h
  simp only [Double.leastExponent] at hexp
  have hsome (d : Double) (hd : d.exponent ≤ Double.exponentOf n 1 + 1) :
      (if d.mantissa = 0 then some Double.zero
        else if 971 < d.exponent then none else some d).isSome = true := by
    rw [if_neg (by omega : ¬ 971 < d.exponent)]
    split <;> rfl
  simp only [Double.nearest?]
  split
  · rfl
  · refine hsome _ ?_
    split
    · exact Int.le_refl _
    · exact Int.le_add_one (Int.le_refl _)

theorem size?_isSome {value : Int} (h : Number.fitsWord value = true) :
    (Number.whole value).size?.isSome = true := by
  have hword : value.natAbs < 2 ^ 65 := by
    simp only [Number.fitsWord, Number.fitsSigned, Number.fitsUnsigned, Bool.or_eq_true,
      Bool.and_eq_true, decide_eq_true_eq] at h
    simp only [Number.wordSize] at h
    omega
  exact nearest?_isSome hword

mutual

theorem isBounded_of_isPlain :
    ∀ {depth : Nat} {v : Json}, isPlain depth v = true → isBounded depth v = true
  | _, .number (.whole value), h => by
    rw [isPlain] at h
    rw [isBounded, size?_isSome h]
  | depth + 1, .array items, h => by
    rw [isPlain] at h
    rw [isBounded, areBounded_of_arePlain h]
  | depth + 1, .object fields, h => by
    rw [isPlain] at h
    rw [isBounded, haveBounded_of_havePlain h]
  | depth, .null, _ => by cases depth <;> rfl
  | depth, .bool _, _ => by cases depth <;> rfl
  | depth, .string _, _ => by cases depth <;> rfl

theorem areBounded_of_arePlain : ∀ {depth : Nat} {items : List Json},
    arePlain depth items = true → areBounded depth items = true
  | _, [], _ => rfl
  | depth, item :: items, h => by
    simp only [arePlain, Bool.and_eq_true] at h
    rw [areBounded, isBounded_of_isPlain h.1, areBounded_of_arePlain h.2, Bool.and_self]

theorem haveBounded_of_havePlain : ∀ {depth : Nat} {fields : List (String × Json)},
    havePlain depth fields = true → haveBounded depth fields = true
  | _, [], _ => rfl
  | depth, (_, value) :: fields, h => by
    simp only [havePlain, Bool.and_eq_true] at h
    rw [haveBounded, isBounded_of_isPlain h.1, haveBounded_of_havePlain h.2, Bool.and_self]

end

theorem parseBounded?_compact {v : Json} (h : isPlain depthLimit v = true) :
    parseBounded? (compact v) = some v := by
  rw [parseBounded?, parse?_compact h, Option.filter_some, isBounded_of_isPlain h, if_pos rfl]

theorem compact_inj {depth : Nat} {v w : Json} (hv : isPlain depth v = true)
    (hw : isPlain depth w = true) (h : compact v = compact w) : v = w :=
  Option.some.inj ((parse?_compact hv).symm.trans (h ▸ parse?_compact hw))

end ApiPages.Json
