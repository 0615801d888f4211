import ApiPages.Json.Value

/-!
JSON text. `write` puts the compact form of a value in front of a text; `pretty` lays every item
on a line of its own, two spaces deeper than what holds it.
-/
namespace ApiPages.Json

def digits (n : Nat) : List Char := Nat.toDigits 10 n

def writeInt : Int → List Char
  | .ofNat n => digits n
  | .negSucc n => '-' :: digits (n + 1)

/-- A decimal: positional while its point stands at most sixteen digits behind the first digit and no
more than `zeros` zeros before it, in scientific form beyond that. -/
def writeDecimal (zeros : Nat) (negative : Bool) (digitsValue : Nat) (exponent : Int) : List Char :=
  let ds := digits digitsValue
  let sign := if negative then ['-'] else []
  let point := (ds.length : Int) + exponent
  let body :=
    if digitsValue = 0 then "0.0".toList
    else if 0 ≤ exponent ∧ point ≤ 16 then
      ds ++ List.replicate exponent.toNat '0' ++ ".0".toList
    else if 0 < point ∧ point ≤ 16 then ds.take point.toNat ++ '.' :: ds.drop point.toNat
    else if -(zeros : Int) ≤ point ∧ point ≤ 0 then
      "0.".toList ++ List.replicate (-point).toNat '0' ++ ds
    else
      let rest := if ds.length = 1 then [] else '.' :: ds.drop 1
      ds.take 1 ++ rest ++ 'e' :: writeInt (point - 1)
  sign ++ body

def writeNumber : Number → List Char
  | .whole value => writeInt value
  | .decimal negative ds exponent => writeDecimal 4 negative ds exponent

def hexDigit (n : Nat) : Char := Nat.digitChar (n % 16)

def escape (c : Char) : List Char :=
  if c = '"' then ['\\', '"']
  else if c = '\\' then ['\\', '\\']
  else if c = '\n' then ['\\', 'n']
  else if c = '\r' then ['\\', 'r']
  else if c = '\t' then ['\\', 't']
  else if c = '\x08' then ['\\', 'b']
  else if c = '\x0c' then ['\\', 'f']
  else if c.toNat < 0x20 then
    ['\\', 'u', '0', '0', hexDigit (c.toNat / 16), hexDigit c.toNat]
  else [c]

def quoted (s : String) : List Char := '"' :: s.toList.flatMap escape ++ ['"']

mutual

def write : Json → List Char → List Char
  | .null, rest => 'n' :: 'u' :: 'l' :: 'l' :: rest
  | .bool true, rest => 't' :: 'r' :: 'u' :: 'e' :: rest
  | .bool false, rest => 'f' :: 'a' :: 'l' :: 's' :: 'e' :: rest
  | .number n, rest => writeNumber n ++ rest
  | .string s, rest => quoted s ++ rest
  | .array [], rest => '[' :: ']' :: rest
  | .array (item :: items), rest => '[' :: write item (writeItems items rest)
  | .object [], rest => '{' :: '}' :: rest
  | .object ((name, value) :: fields), rest =>
    '{' :: (quoted name ++ ':' :: write value (writeFields fields rest))

def writeItems : List Json → List Char → List Char
  | [], rest => ']' :: rest
  | item :: items, rest => ',' :: write item (writeItems items rest)

def writeFields : List (String × Json) → List Char → List Char
  | [], rest => '}' :: rest
  | (name, value) :: fields, rest =>
    ',' :: (quoted name ++ ':' :: write value (writeFields fields rest))

end

def compact (value : Json) : String := String.ofList (write value [])

def newLine (depth : Nat) : List Char := '\n' :: List.replicate (2 * depth) ' '

mutual

def lay (depth : Nat) : Json → List Char → List Char
  | .array (item :: items), rest =>
    '[' :: (newLine (depth + 1) ++ lay (depth + 1) item (layItems depth items rest))
  | .object ((name, value) :: fields), rest =>
    '{' :: (newLine (depth + 1) ++ quoted name ++ ':' :: ' ' ::
      lay (depth + 1) value (layFields depth fields rest))
  | value, rest => write value rest

def layItems (depth : Nat) : List Json → List Char → List Char
  | [], rest => newLine depth ++ ']' :: rest
  | item :: items, rest =>
    ',' :: (newLine (depth + 1) ++ lay (depth + 1) item (layItems depth items rest))

def layFields (depth : Nat) : List (String × Json) → List Char → List Char
  | [], rest => newLine depth ++ '}' :: rest
  | (name, value) :: fields, rest =>
    ',' :: (newLine (depth + 1) ++ quoted name ++ ':' :: ' ' ::
      lay (depth + 1) value (layFields depth fields rest))

end

def pretty (value : Json) : String := String.ofList (lay 0 value [])

end ApiPages.Json
