import ApiPages.Json.Value

/-!
The JSON form of data. A `Codec` writes a type and reads it back. A record is described by its
fields, each of which knows when it is left out; a field that is absent keeps the value of the
blank record, a field that stands twice is refused, and fields of other names are passed over.
-/
namespace ApiPages

structure Codec (α : Type) where
  encode : α → Json
  decode : Json → Option α

namespace Codec

def text : Codec String where
  encode s := .string s
  decode
    | .string s => some s
    | _ => none

def flag : Codec Bool where
  encode b := .bool b
  decode
    | .bool b => some b
    | _ => none

def count : Codec UInt64 where
  encode n := .whole n.toNat
  decode
    | .number (.whole v) => if Number.fitsUnsigned v then some (UInt64.ofNat v.toNat) else none
    | _ => none

def list (item : Codec α) : Codec (List α) where
  encode xs := .array (xs.map item.encode)
  decode
    | .array items => items.mapM item.decode
    | _ => none

def optional (value : Codec α) : Codec (Option α) where
  encode
    | none => .null
    | some x => value.encode x
  decode
    | .null => some none
    | v => (value.decode v).map some

def label? : Json → Option String
  | .string s => some s
  | .object [(s, .null)] => some s
  | _ => none

def choice (name : α → String) (spellings : List (String × α)) : Codec α where
  encode a := .string (name a)
  decode v := (label? v).bind fun s => (spellings.find? fun p => p.1 == s).map (·.2)

/-- A choice in a record that is part of another: there an empty object holds nothing too. -/
def choiceWithin (name : α → String) (spellings : List (String × α)) : Codec α where
  encode := (choice name spellings).encode
  decode
    | .object [(s, .object [])] => (choice name spellings).decode (.string s)
    | v => (choice name spellings).decode v

end Codec

structure Field (ρ : Type) where
  name : String
  write : ρ → Option Json
  read : ρ → Json → Option ρ

namespace Field

def skipIf (skip : α → Bool) (name : String) (codec : Codec α) (get : ρ → α) (set : ρ → α → ρ) :
    Field ρ where
  name := name
  write r := if skip (get r) then none else some (codec.encode (get r))
  read r v := (codec.decode v).map (set r)

def always (name : String) (codec : Codec α) (get : ρ → α) (set : ρ → α → ρ) : Field ρ :=
  skipIf (fun _ => false) name codec get set

def optional (name : String) (codec : Codec α) (get : ρ → Option α) (set : ρ → Option α → ρ) :
    Field ρ :=
  skipIf Option.isNone name codec.optional get set

def list (name : String) (codec : Codec α) (get : ρ → List α) (set : ρ → List α → ρ) : Field ρ :=
  skipIf List.isEmpty name codec.list get set

def switch (name : String) (get : ρ → Bool) (set : ρ → Bool → ρ) : Field ρ :=
  skipIf (fun b => !b) name Codec.flag get set

def within (get : ρ → σ) (set : ρ → σ → ρ) (f : Field σ) : Field ρ where
  name := f.name
  write r := f.write (get r)
  read r v := (f.read (get r) v).map (set r)

end Field

namespace Record

def encode (schema : List (Field ρ)) (r : ρ) : Json :=
  .object (schema.filterMap fun f => (f.write r).map fun v => (f.name, v))

def readField (fields : List (String × Json)) (r : ρ) (f : Field ρ) : Option ρ :=
  match fields.filter fun field => field.1 == f.name with
  | [] => some r
  | [(_, v)] => f.read r v
  | _ => none

def decodeFields (schema : List (Field ρ)) (blank : ρ) (fields : List (String × Json)) : Option ρ :=
  schema.foldlM (readField fields) blank

def codec (schema : List (Field ρ)) (blank : ρ) : Codec ρ where
  encode := encode schema
  decode
    | .object fields => decodeFields schema blank fields
    | _ => none

/-- A record written as an object, and also read from an array of its first fields in order. -/
def codecOrdered (schema : List (Field ρ)) (blank : ρ) : Codec ρ where
  encode := encode schema
  decode
    | .object fields => decodeFields schema blank fields
    | .array items =>
      if items.length ≤ schema.length then
        decodeFields schema blank ((schema.map (·.name)).zip items)
      else none
    | _ => none

end Record

end ApiPages
