import ApiPages.Json.Reader
import ApiPages.Text.Line

/-!
Settings files of lines `key = value` under headers `[table]`. A value is a string, a whole number, a
truth value or an array of values. The settings are read into an object; a key may be set only once.
-/
namespace ApiPages.Toml

def isSpace (c : Char) : Bool := c == ' ' || c == '\t'

def skipSpace (cs : List Char) : List Char := cs.dropWhile isSpace

def lineBreak? : List Char → Option (List Char)
  | '\n' :: rest | '\r' :: '\n' :: rest => some rest
  | _ => none

def isPrintable (c : Char) : Bool := c == '\t' || (c.toNat ≥ 0x20 && c.toNat != 0x7f)

def skipComment : List Char → List Char
  | '#' :: rest => rest.dropWhile isPrintable
  | cs => cs

def skipLines : Nat → List Char → List Char
  | 0, cs => cs
  | n + 1, cs =>
    let rest := skipComment (skipSpace cs)
    match lineBreak? rest with
    | some rest => skipLines n rest
    | none => rest

def endOfLine? (cs : List Char) : Option (List Char) :=
  match skipComment (skipSpace cs) with
  | [] => some []
  | rest => lineBreak? rest

def coded? (n : Nat) (cs : List Char) : Option (Char × List Char) := do
  let ds ← (cs.take n).mapM Json.hexValue?
  let value := ds.foldl (fun v d => v * 16 + d) 0
  if h : ds.length = n ∧ value.isValidChar then some (Char.ofNatAux value h.2, cs.drop n) else none

def basicBody? : Nat → List Char → Option (List Char × List Char)
  | 0, _ => none
  | _ + 1, '"' :: rest => some ([], rest)
  | n + 1, '\\' :: c :: rest => do
    let (c, rest) ← match c with
      | 'b' => some ('\x08', rest)
      | 't' => some ('\t', rest)
      | 'n' => some ('\n', rest)
      | 'f' => some ('\x0c', rest)
      | 'r' => some ('\r', rest)
      | '"' => some ('"', rest)
      | '\\' => some ('\\', rest)
      | 'u' => coded? 4 rest
      | 'U' => coded? 8 rest
      | _ => none
    let (cs, rest) ← basicBody? n rest
    pure (c :: cs, rest)
  | n + 1, c :: rest =>
    if isPrintable c ∧ c ≠ '\\' then (basicBody? n rest).map fun (cs, rest) => (c :: cs, rest) else none
  | _ + 1, [] => none

def string? : List Char → Option (String × List Char)
  | '"' :: rest => (basicBody? (rest.length + 1) rest).map fun (s, rest) => (String.ofList s, rest)
  | '\'' :: rest => (Text.splitFirst? '\'' rest).bind fun (s, rest) =>
    if s.all isPrintable then some (String.ofList s, rest) else none
  | _ => none

def isBare (c : Char) : Bool := c.isAlphanum || c == '_' || c == '-'

def keyPart? (cs : List Char) : Option (String × List Char) :=
  match cs.span isBare with
  | ([], _) => string? cs
  | (part, rest) => some (String.ofList part, rest)

def key? : Nat → List Char → Option (List String × List Char)
  | 0, _ => none
  | n + 1, cs => do
    let (part, rest) ← keyPart? (skipSpace cs)
    match skipSpace rest with
    | '.' :: rest =>
      let (parts, rest) ← key? n rest
      pure (part :: parts, rest)
    | rest => pure ([part], rest)

def digits? (cs : List Char) : Option (List Char) :=
  let groups := Text.split '_' cs
  if groups.all fun g => g ≠ [] ∧ g.all Char.isDigit then some groups.flatten else none

/-- A whole number that fits a signed 64-bit word; a leading zero stands alone. -/
def number? (word : List Char) : Option Json := do
  let (sign, body) : Int × List Char := match word with
    | '-' :: rest => (-1, rest)
    | '+' :: rest => (1, rest)
    | rest => (1, rest)
  let ds ← digits? body
  if ds.length > 1 ∧ ds.head? = some '0' then none
  let value := sign * Json.natOf ds
  if Number.fitsSigned value then some (.number (.whole value)) else none

def plain? (word : List Char) : Option Json :=
  if word = "true".toList then some (.bool true)
  else if word = "false".toList then some (.bool false)
  else number? word

mutual

def value? : Nat → List Char → Option (Json × List Char)
  | 0, _ => none
  | n + 1, '[' :: rest => (items? n rest).map fun (items, rest) => (.array items, rest)
  | _ + 1, cs =>
    match string? cs with
    | some (s, rest) => some (.string s, rest)
    | none =>
      let (word, rest) := cs.span fun c => isBare c || c == '+' || c == '.'
      (plain? word).map fun v => (v, rest)

def items? : Nat → List Char → Option (List Json × List Char)
  | 0, _ => none
  | n + 1, cs =>
    match skipLines cs.length cs with
    | ']' :: rest => some ([], rest)
    | cs => do
      let (item, rest) ← value? n cs
      match skipLines rest.length rest with
      | ',' :: rest =>
        let (items, rest) ← items? n rest
        pure (item :: items, rest)
      | ']' :: rest => pure ([item], rest)
      | _ => none

end

def alter (name : String) (f : Option Json → Option Json) :
    List (String × Json) → Option (List (String × Json))
  | [] => (f none).map fun v => [(name, v)]
  | (other, v) :: fields =>
    if other = name then (f (some v)).map fun v => (name, v) :: fields
    else (alter name f fields).map ((other, v) :: ·)

def within (f : List (String × Json) → Option (List (String × Json))) :
    List String → List (String × Json) → Option (List (String × Json))
  | [], fields => f fields
  | name :: names, fields =>
    alter name (fun
      | none => (within f names []).map .object
      | some (.object inner) => (within f names inner).map .object
      | some _ => none) fields

def assign (keys : List String) (v : Json) (fields : List (String × Json)) :
    Option (List (String × Json)) :=
  match keys.getLast? with
  | none => none
  | some name =>
    within (alter name fun
      | none => some v
      | some _ => none) keys.dropLast fields

structure Settings where
  table : List String := []
  opened : List (List String) := []
  fields : List (String × Json) := []

def Settings.open? (s : Settings) (table : List String) : Option Settings :=
  if s.opened.contains table then none
  else (within some table s.fields).map fun fields => ⟨table, table :: s.opened, fields⟩

def line? (s : Settings) (cs : List Char) : Option (Settings × List Char) :=
  match cs with
  | '[' :: rest => do
    let (table, rest) ← key? (rest.length + 1) rest
    match rest with
    | ']' :: rest =>
      let rest ← endOfLine? rest
      let s ← s.open? table
      pure (s, rest)
    | _ => none
  | cs => do
    let (keys, rest) ← key? (cs.length + 1) cs
    match rest with
    | '=' :: rest =>
      let rest := skipSpace rest
      let (v, rest) ← value? (2 * rest.length + 1) rest
      let rest ← endOfLine? rest
      let fields ← within (assign keys v) s.table s.fields
      pure ({ s with fields }, rest)
    | _ => none

def lines? : Nat → Settings → List Char → Option Settings
  | 0, _, _ => none
  | n + 1, s, cs =>
    match skipLines cs.length cs with
    | [] => some s
    | cs => (line? s cs).bind fun (s, rest) => lines? n s rest

def parse? (text : String) : Option Json :=
  let cs := text.toList
  (lines? (cs.length + 1) {} cs).map fun s => .object s.fields

end ApiPages.Toml
