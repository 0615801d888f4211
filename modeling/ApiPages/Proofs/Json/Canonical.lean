import ApiPages.Options.Basic
import ApiPages.Proofs.Json.Records

/-!
The JSON forms of doclets, entries and options. A value may be written in many ways, with unknown
fields, other spellings or defaults that are spelled out; the form in which it is written again is
its canonical one. Main statement: what is written is read back, as a value and as text, so reading
the canonical form gives the same value and writing that changes it no more.
-/
namespace ApiPages

variable {α : Type} {depth : Nat}

open Codec

theorem Options.carries (o : Options) : Record.Carries (depth + 6) o schema {} o :=
  .cons (Field.carries_list lossless_text rfl) <|
  .cons (Field.carries_optional lossless_text rfl rfl) <|
  .cons (Field.carries_optional (lossless_list Entry.lossless_codec) rfl rfl) <|
  .cons (Field.carries_optional lossless_text rfl rfl) <|
  .cons (Field.carries_optional lossless_count rfl rfl) <|
  .cons (Field.carries_optional lossless_text rfl rfl) <|
  .cons (Field.carries_list lossless_text rfl) <|
  .cons (Field.carries_list lossless_text rfl) <|
  .cons (Field.carries_list lossless_text rfl) <|
  .cons (Field.carries_optional NameFormat.lossless_codec rfl rfl) <|
  .cons (Field.carries_always lossless_flag) <|
  .cons (Field.carries_always lossless_flag) <|
  .cons (Field.carries_optional IndexFormat.lossless_codec rfl rfl) <|
  .cons (Field.carries_optional IndexFormat.lossless_codec rfl rfl) <|
  .cons (Field.carries_optional MemberIndexFormat.lossless_codec rfl rfl) <|
  .cons (Field.carries_optional ListFormat.lossless_codec rfl rfl) <|
  .cons (Field.carries_optional ListFormat.lossless_codec rfl rfl) <|
  .cons (Field.carries_always lossless_flag) <|
  .cons (Field.carries_optional lossless_text rfl rfl) <|
  .cons (Field.carries_always lossless_flag) <|
  .cons (Field.carries_always lossless_flag) <|
  .nil o

theorem Options.lossless_codec : Options.codec.Lossless (depth + 7) :=
  Record.lossless_codecOrdered (by decide) Options.carries

namespace Codec

variable {c : Codec α} {v w : Json}

def canonical? (c : Codec α) (v : Json) : Option Json := (c.decode v).map c.encode

def ofText? (c : Codec α) (text : String) : Option α := (Json.parseBounded? text).bind c.decode

theorem Lossless.decode_canonical? (h : c.Lossless depth) (hw : c.canonical? v = some w) :
    c.decode w = c.decode v := by
  obtain ⟨a, ha, rfl⟩ := Option.map_eq_some_iff.mp hw
  rw [h.decode_encode, ha]

theorem Lossless.canonical?_canonical? (h : c.Lossless depth) (hw : c.canonical? v = some w) :
    c.canonical? w = some w := by
  rw [canonical?, h.decode_canonical? hw, ← canonical?, hw]

theorem Lossless.ofText?_compact (h : c.Lossless Json.depthLimit) (a : α) :
    c.ofText? (Json.compact (c.encode a)) = some a := by
  rw [ofText?, Json.parseBounded?_compact (h.plain a), Option.bind_some, h.decode_encode]

/-- The JSON form has room for every value, and one canonical form for each. -/
structure LosesNothing (c : Codec α) : Prop where
  readsBack : ∀ a, c.decode (c.encode a) = some a
  readsBackText : ∀ a, c.ofText? (Json.compact (c.encode a)) = some a
  sameValue : ∀ v w, c.canonical? v = some w → c.decode w = c.decode v
  settled : ∀ v w, c.canonical? v = some w → c.canonical? w = some w

theorem Lossless.losesNothing (h : c.Lossless Json.depthLimit) : c.LosesNothing where
  readsBack := h.decode_encode
  readsBackText := h.ofText?_compact
  sameValue _ _ := h.decode_canonical?
  settled _ _ := h.canonical?_canonical?

end Codec

/-- Doclets, entries and options survive being written and read, and every JSON that is read has a
form that writing and reading leave as it is. -/
theorem json_forms_lossless :
    Doclet.codec.LosesNothing ∧ Entry.codec.LosesNothing ∧ Options.codec.LosesNothing :=
  ⟨Doclet.lossless_codec.losesNothing, Entry.lossless_codec.losesNothing,
    Options.lossless_codec.losesNothing⟩

example : Options.codec.canonical?
      (.object [("name-format", .string "code"), ("colour", .null), ("no-gfm", .bool true)]) =
    some (Options.codec.encode { nameFormat := some .backticks, noGfm := true }) := by
  rfl

end ApiPages
