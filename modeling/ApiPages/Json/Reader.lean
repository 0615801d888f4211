import ApiPages.Json.Value

/-!
Reading JSON text. Every reader takes the text that is left and returns a value with what follows
it. A count that starts at the length of the text bounds the nesting.
-/
namespace ApiPages.Json

def isSpace (c : Char) : Bool := c == ' ' || c == '\n' || c == '\t' || c == '\r'

def skipSpace (cs : List Char) : List Char := cs.dropWhile isSpace

def hexValue? (c : Char) : Option Nat :=
  if c.isDigit then some (c.toNat - 48)
  else if 'a' ≤ c ∧ c ≤ 'f' then some (c.toNat - 87)
  else if 'A' ≤ c ∧ c ≤ 'F' then some (c.toNat - 55)
  else none

def hex4? : List Char → Option (Nat × List Char)
  | a :: b :: c :: d :: rest => do
    let a ← hexValue? a
    let b ← hexValue? b
    let c ← hexValue? c
    let d ← hexValue? d
    pure (((a * 16 + b) * 16 + c) * 16 + d, rest)
  | _ => none

def codeUnit? (cs : List Char) : Option (Char × List Char) := do
  let (n, rest) ← hex4? cs
  if 0xd800 ≤ n ∧ n < 0xdc00 then
    match rest with
    | '\\' :: 'u' :: rest =>
      let (low, rest) ← hex4? rest
      if 0xdc00 ≤ low ∧ low < 0xe000 then
        some (Char.ofNat (0x10000 + (n - 0xd800) * 0x400 + (low - 0xdc00)), rest)
      else none
    | _ => none
  else if 0xdc00 ≤ n ∧ n < 0xe000 then none
  else some (Char.ofNat n, rest)

def stringBody? : Nat → List Char → Option (List Char × List Char)
  | 0, _ => none
  | _ + 1, [] => none
  | _ + 1, '"' :: rest => some ([], rest)
  | n + 1, '\\' :: e :: rest =>
    let push (c : Char) (rest : List Char) := (stringBody? n rest).map fun (cs, rest) => (c :: cs, rest)
    match e with
    | '"' => push '"' rest
    | '\\' => push '\\' rest
    | '/' => push '/' rest
    | 'b' => push '\x08' rest
    | 'f' => push '\x0c' rest
    | 'n' => push '\n' rest
    | 'r' => push '\r' rest
    | 't' => push '\t' rest
    | 'u' => (codeUnit? rest).bind fun (c, rest) => push c rest
    | _ => none
  | n + 1, c :: rest =>
    if c = '\\' ∨ c.toNat < 0x20 then none
    else (stringBody? n rest).map fun (cs, rest) => (c :: cs, rest)

def string? (cs : List Char) : Option (String × List Char) :=
  (stringBody? (cs.length + 1) cs).map fun (s, rest) => (String.ofList s, rest)

def natOf (ds : List Char) : Nat := Nat.ofDigitChars 10 ds 0

def numberOf (negative : Bool) (whole fraction : List Char) (power : Option Int) : Number :=
  let value : Int := (if negative then -1 else 1) * natOf whole
  if fraction = [] ∧ power = none ∧ Number.fitsWord value ∧ ¬ (negative ∧ value = 0) then .whole value
  else
    let ds := whole ++ fraction
    Number.reduce negative ds.length (natOf ds) (power.getD 0 - fraction.length)

def sign : List Char → Bool × List Char
  | '-' :: rest => (true, rest)
  | cs => (false, cs)

def fraction? : List Char → Option (List Char × List Char)
  | '.' :: rest =>
    let (ds, rest) := rest.span Char.isDigit
    if ds = [] then none else some (ds, rest)
  | cs => some ([], cs)

def power? : List Char → Option (Option Int × List Char)
  | [] => some (none, [])
  | c :: rest =>
    if c = 'e' ∨ c = 'E' then
      let (sign, rest) : Int × List Char := match rest with
        | '-' :: rest => (-1, rest)
        | '+' :: rest => (1, rest)
        | _ => (1, rest)
      let (ds, rest) := rest.span Char.isDigit
      if ds = [] then none else some (some (sign * (natOf ds : Int)), rest)
    else some (none, c :: rest)

def number? (cs : List Char) : Option (Number × List Char) :=
  let (negative, cs) := sign cs
  let (whole, cs) := cs.span Char.isDigit
  if whole = [] ∨ (whole.length > 1 ∧ whole.head? = some '0') then none
  else do
    let (fraction, cs) ← fraction? cs
    let (power, cs) ← power? cs
    pure (numberOf negative whole fraction power, cs)

mutual

def value? : Nat → List Char → Option (Json × List Char)
  | 0, _ => none
  | n + 1, cs =>
    match skipSpace cs with
    | 'n' :: 'u' :: 'l' :: 'l' :: rest => some (.null, rest)
    | 't' :: 'r' :: 'u' :: 'e' :: rest => some (.bool true, rest)
    | 'f' :: 'a' :: 'l' :: 's' :: 'e' :: rest => some (.bool false, rest)
    | '"' :: rest => (string? rest).map fun (s, rest) => (.string s, rest)
    | '[' :: rest =>
      match skipSpace rest with
      | ']' :: rest => some (.array [], rest)
      | rest => do
        let (item, rest) ← value? n rest
        let (items, rest) ← items? n rest
        pure (.array (item :: items), rest)
    | '{' :: rest =>
      match skipSpace rest with
      | '}' :: rest => some (.object [], rest)
      | rest => do
        let (field, rest) ← field? n rest
        let (fields, rest) ← fields? n rest
        pure (.object (field :: fields), rest)
    | cs => (number? cs).map fun (x, rest) => (.number x, rest)

def items? : Nat → List Char → Option (List Json × List Char)
  | 0, _ => none
  | n + 1, cs =>
    match skipSpace cs with
    | ']' :: rest => some ([], rest)
    | ',' :: rest => do
      let (item, rest) ← value? n rest
      let (items, rest) ← items? n rest
      pure (item :: items, rest)
    | _ => none

def field? : Nat → List Char → Option ((String × Json) × List Char)
  | 0, _ => none
  | n + 1, cs =>
    match skipSpace cs with
    | '"' :: rest => do
      let (name, rest) ← string? rest
      match skipSpace rest with
      | ':' :: rest =>
        let (value, rest) ← value? n rest
        pure ((name, value), rest)
      | _ => none
    | _ => none

def fields? : Nat → List Char → Option (List (String × Json) × List Char)
  | 0, _ => none
  | n + 1, cs =>
    match skipSpace cs with
    | '}' :: rest => some ([], rest)
    | ',' :: rest => do
      let (field, rest) ← field? n rest
      let (fields, rest) ← fields? n rest
      pure (field :: fields, rest)
    | _ => none

end

def parse? (text : String) : Option Json :=
  let cs := text.toList
  match value? (2 * cs.length + 2) cs with
  | some (value, rest) => if skipSpace rest = [] then some value else none
  | none => none

end ApiPages.Json
