import ApiPages.Options.Format
import ApiPages.Proofs.Json.Text
import ApiPages.Record.Doclet
import ApiPages.Record.Entry

/-!
Records written and read back. A field carries one record into another if what it writes for the
first is plain and is read into the second; the fields of a schema, one after another, carry a
record into a blank one. Main statements: the codecs of doclets and of entries lose nothing.
-/
namespace ApiPages

variable {α ρ σ : Type} {depth : Nat}

structure Codec.Lossless (c : Codec α) (depth : Nat) : Prop where
  decode_encode : ∀ a, c.decode (c.encode a) = some a
  plain : ∀ a, Json.isPlain depth (c.encode a) = true

namespace Codec

theorem Lossless.encode_inj {c : Codec α} (h : c.Lossless depth) {a b : α}
    (he : c.encode a = c.encode b) : a = b :=
  Option.some.inj ((h.decode_encode a).symm.trans (he ▸ h.decode_encode b))

theorem isPlain_string (s : String) : Json.isPlain depth (.string s) = true := by
  cases depth <;> rfl

theorem isPlain_bool (b : Bool) : Json.isPlain depth (.bool b) = true := by
  cases depth <;> rfl

theorem fitsUnsigned_toNat (n : UInt64) : Number.fitsUnsigned n.toNat = true := by
  have hlt := n.toNat_lt
  simp only [Number.fitsUnsigned, Bool.and_eq_true, decide_eq_true_eq]
  simp only [Number.wordSize]
  omega

theorem lossless_text : text.Lossless depth := ⟨fun _ => rfl, isPlain_string⟩

theorem lossless_flag : flag.Lossless depth := ⟨fun _ => rfl, isPlain_bool⟩

theorem lossless_count : count.Lossless depth where
  decode_encode n := by
    simp only [count, Json.whole, fitsUnsigned_toNat, if_true, Int.toNat_natCast,
      UInt64.ofNat_toNat]
  plain n := by
    have hplain : Json.isPlain depth (count.encode n) = Number.fitsWord n.toNat := by
      cases depth <;> rfl
    rw [hplain, Number.fitsWord, fitsUnsigned_toNat, Bool.or_true]

theorem lossless_list {c : Codec α} (h : c.Lossless depth) : c.list.Lossless (depth + 1) where
  decode_encode xs := by
    simp only [list]
    induction xs with
    | nil => rfl
    | cons x xs ih => simp [h.decode_encode, ih]
  plain xs := by
    rw [list, Json.isPlain, Json.arePlain_eq_true]
    intro item hitem
    obtain ⟨x, -, rfl⟩ := List.mem_map.mp hitem
    exact h.plain x

theorem lossless_optional {c : Codec α} (h : c.Lossless depth) (hnull : c.decode .null = none) :
    c.optional.Lossless depth where
  decode_encode
    | none => rfl
    | some x => by
      have hread := h.decode_encode x
      simp only [optional]
      split
      case h_1 he => rw [he, hnull] at hread; contradiction
      case h_2 => rw [hread, Option.map_some]
  plain
    | none => by cases depth <;> rfl
    | some x => h.plain x

theorem lossless_choice {name : α → String} {spellings : List (String × α)}
    (h : ∀ a, (spellings.find? fun p => p.1 == name a).map (·.2) = some a) :
    (choice name spellings).Lossless depth :=
  ⟨h, fun _ => isPlain_string _⟩

theorem Lossless.name_inj {name : α → String} {spellings : List (String × α)}
    (h : (choice name spellings).Lossless 0) {a b : α} (he : name a = name b) : a = b :=
  h.encode_inj (congrArg Json.string he)

theorem lossless_choiceWithin {name : α → String} {spellings : List (String × α)}
    (h : ∀ a, (spellings.find? fun p => p.1 == name a).map (·.2) = some a) :
    (choiceWithin name spellings).Lossless depth :=
  ⟨h, fun _ => isPlain_string _⟩

end Codec

namespace Field

/-- What the field writes for `r` is plain and turns `s` into `t`; left out, it leaves `s` alone. -/
def Carries (f : Field ρ) (depth : Nat) (r s t : ρ) : Prop :=
  match f.write r with
  | some v => Json.isPlain depth v = true ∧ f.read s v = some t
  | none => s = t

variable {name : String} {r s : ρ}

theorem carries_skipIf {skip : α → Bool} {codec : Codec α} {get : ρ → α} {set : ρ → α → ρ}
    (h : codec.Lossless depth) (hskip : skip (get r) = true → set s (get r) = s) :
    (skipIf skip name codec get set).Carries depth r s (set s (get r)) := by
  by_cases hs : skip (get r) = true
  · simp only [Carries, skipIf, if_pos hs]
    exact (hskip hs).symm
  · simp only [Carries, skipIf, if_neg hs, h.decode_encode, Option.map_some]
    exact ⟨h.plain _, trivial⟩

theorem carries_always {codec : Codec α} {get : ρ → α} {set : ρ → α → ρ}
    (h : codec.Lossless depth) :
    (always name codec get set).Carries depth r s (set s (get r)) :=
  carries_skipIf h fun hskip => absurd hskip Bool.false_ne_true

theorem carries_optional {codec : Codec α} {get : ρ → Option α} {set : ρ → Option α → ρ}
    (h : codec.Lossless depth) (hnull : codec.decode .null = none) (hblank : set s none = s) :
    (optional name codec get set).Carries depth r s (set s (get r)) := by
  refine carries_skipIf (Codec.lossless_optional h hnull) fun hskip => ?_
  rw [Option.isNone_iff_eq_none.mp hskip, hblank]

theorem carries_list {codec : Codec α} {get : ρ → List α} {set : ρ → List α → ρ}
    (h : codec.Lossless depth) (hblank : set s [] = s) :
    (list name codec get set).Carries (depth + 1) r s (set s (get r)) := by
  refine carries_skipIf (Codec.lossless_list h) fun hskip => ?_
  rw [List.isEmpty_iff.mp hskip, hblank]

theorem carries_switch {get : ρ → Bool} {set : ρ → Bool → ρ} (hblank : set s false = s) :
    (switch name get set).Carries depth r s (set s (get r)) := by
  refine carries_skipIf Codec.lossless_flag fun hskip => ?_
  have hoff : get r = false := by simpa using hskip
  rw [hoff, hblank]

theorem carries_within {f : Field σ} {get : ρ → σ} {set : ρ → σ → ρ} {a b : σ}
    (hset : ∀ s a b, set (set s a) b = set s b) (hget : ∀ s a, get (set s a) = a)
    (h : f.Carries depth (get r) a b) (s : ρ) :
    (within get set f).Carries depth r (set s a) (set s b) := by
  simp only [Carries, within] at h ⊢
  split at h
  · exact ⟨h.1, by rw [hget, h.2, Option.map_some, hset]⟩
  · rw [h]

end Field

namespace Record

inductive Carries (depth : Nat) (r : ρ) : List (Field ρ) → ρ → ρ → Prop
  | nil (s : ρ) : Carries depth r [] s s
  | cons {f : Field ρ} {schema : List (Field ρ)} {s t u : ρ} (head : f.Carries depth r s t)
    (tail : Carries depth r schema t u) : Carries depth r (f :: schema) s u

theorem Carries.append {r s t u : ρ} {before after : List (Field ρ)}
    (hbefore : Carries depth r before s t) (hafter : Carries depth r after t u) :
    Carries depth r (before ++ after) s u := by
  induction hbefore with
  | nil => exact hafter
  | cons head _ ih => exact .cons head (ih hafter)

theorem Carries.within {r : ρ} {schema : List (Field σ)} {get : ρ → σ} {set : ρ → σ → ρ} {a b : σ}
    (hset : ∀ s a b, set (set s a) b = set s b) (hget : ∀ s a, get (set s a) = a)
    (h : Carries depth (get r) schema a b) (s : ρ) :
    Carries depth r (schema.map (Field.within get set)) (set s a) (set s b) := by
  induction h with
  | nil => exact .nil _
  | cons head _ ih => exact .cons (Field.carries_within hset hget head s) ih

def written (schema : List (Field ρ)) (r : ρ) : List (String × Json) :=
  schema.filterMap fun f => (f.write r).map fun v => (f.name, v)

theorem mem_written {schema : List (Field ρ)} {r : ρ} {field : String × Json} :
    field ∈ written schema r ↔ ∃ f ∈ schema, f.name = field.1 ∧ f.write r = some field.2 := by
  simp [written, Prod.ext_iff, and_comm]

theorem Carries.plain {r s t : ρ} {schema : List (Field ρ)} (h : Carries depth r schema s t) :
    ∀ f ∈ schema, ∀ v, f.write r = some v → Json.isPlain depth v = true := by
  induction h with
  | nil => simp
  | cons head _ ih =>
    intro f hf v hv
    rcases List.mem_cons.mp hf with rfl | hf
    · rw [Field.Carries, hv] at head
      exact head.1
    · exact ih f hf v hv

theorem filter_written {schema : List (Field ρ)} (hnames : (schema.map (·.name)).Nodup)
    {f : Field ρ} (hf : f ∈ schema) (r : ρ) :
    (written schema r).filter (fun field => field.1 == f.name) =
      (f.write r).toList.map fun v => (f.name, v) := by
  induction schema with
  | nil => simp at hf
  | cons g schema ih =>
    obtain ⟨hg, hnames⟩ := List.nodup_cons.mp hnames
    have hcons : written (g :: schema) r =
        (g.write r).toList.map (fun v => (g.name, v)) ++ written schema r := by
      cases hw : g.write r <;> simp [written, hw]
    rw [hcons, List.filter_append]
    rcases List.mem_cons.mp hf with rfl | hf
    · have hnone : (written schema r).filter (fun field => field.1 == f.name) = [] := by
        refine List.filter_eq_nil_iff.mpr fun field hfield hname => hg ?_
        obtain ⟨other, hother, hn, -⟩ := mem_written.mp hfield
        exact List.mem_map.mpr ⟨other, hother, hn.trans (beq_iff_eq.mp hname)⟩
      rw [hnone, List.append_nil]
      cases f.write r <;> simp
    · have hne : g.name ≠ f.name := fun he => hg (List.mem_map.mpr ⟨f, hf, he.symm⟩)
      rw [ih hnames hf]
      cases g.write r <;> simp [hne]

theorem Carries.decode {schema : List (Field ρ)} (hnames : (schema.map (·.name)).Nodup)
    {fields : List (Field ρ)} (hfields : ∀ f ∈ fields, f ∈ schema) {r s t : ρ}
    (h : Carries depth r fields s t) :
    fields.foldlM (readField (written schema r)) s = some t := by
  induction h with
  | nil => rfl
  | @cons f fields s t u head _ ih =>
    have hread : readField (written schema r) s f = some t := by
      rw [readField, filter_written hnames (hfields f List.mem_cons_self)]
      rw [Field.Carries] at head
      cases hw : f.write r with
      | none => simp_all
      | some v => simp_all
    rw [List.foldlM_cons, hread]
    exact ih fun g hg => hfields g (List.mem_cons_of_mem f hg)

variable {schema : List (Field ρ)} {blank : ρ}

theorem decodeFields_written (hnames : (schema.map (·.name)).Nodup) {r : ρ}
    (h : Carries depth r schema blank r) : decodeFields schema blank (written schema r) = some r :=
  h.decode hnames fun _ hf => hf

theorem isPlain_encode {r : ρ} (h : Carries depth r schema blank r) :
    Json.isPlain (depth + 1) (encode schema r) = true := by
  rw [encode, Json.isPlain, Json.havePlain_eq_true]
  intro field hfield
  obtain ⟨f, hf, -, hv⟩ := mem_written.mp hfield
  exact h.plain f hf field.2 hv

theorem lossless_codec (hnames : (schema.map (·.name)).Nodup)
    (h : ∀ r, Carries depth r schema blank r) : (codec schema blank).Lossless (depth + 1) :=
  ⟨fun r => decodeFields_written hnames (h r), fun r => isPlain_encode (h r)⟩

theorem lossless_codecOrdered (hnames : (schema.map (·.name)).Nodup)
    (h : ∀ r, Carries depth r schema blank r) : (codecOrdered schema blank).Lossless (depth + 1) :=
  ⟨fun r => decodeFields_written hnames (h r), fun r => isPlain_encode (h r)⟩

end Record

open Codec

theorem Kind.lossless_codec : Kind.codec.Lossless depth :=
  ⟨fun k => by cases k <;> rfl, fun _ => isPlain_string _⟩

theorem Scope.lossless_codec : Scope.codec.Lossless depth :=
  lossless_choice fun s => by cases s <;> rfl

theorem Access.lossless_codec : Access.codec.Lossless depth :=
  lossless_choiceWithin fun a => by cases a <;> rfl

theorem IndexFormat.lossless_codec : IndexFormat.codec.Lossless depth :=
  lossless_choice fun f => by cases f <;> rfl

theorem MemberIndexFormat.lossless_codec : MemberIndexFormat.codec.Lossless depth :=
  lossless_choice fun f => by cases f <;> rfl

theorem ListFormat.lossless_codec : ListFormat.codec.Lossless depth :=
  lossless_choice fun f => by cases f <;> rfl

theorem NameFormat.lossless_codec : NameFormat.codec.Lossless depth :=
  lossless_choice fun f => by cases f <;> rfl

theorem TypeExpr.lossless_codec : TypeExpr.codec.Lossless (depth + 2) where
  decode_encode t := by
    have hnames : text.list.Lossless (depth + 1) := lossless_list lossless_text
    simp only [TypeExpr.codec, List.filter_cons, beq_self_eq_true, if_true, List.filter_nil,
      hnames.decode_encode]
    rfl
  plain t := by
    have hnames : text.list.Lossless (depth + 1) := lossless_list lossless_text
    simp only [TypeExpr.codec, Json.isPlain, Json.havePlain, hnames.plain, Bool.and_true]

theorem Param.carries (p : Param) : Record.Carries (depth + 2) p schema {} p :=
  .cons (Field.carries_optional TypeExpr.lossless_codec rfl rfl) <|
  .cons (Field.carries_always lossless_text) <|
  .cons (Field.carries_optional lossless_text rfl rfl) <|
  .cons (Field.carries_switch rfl) <|
  .cons (Field.carries_optional lossless_text rfl rfl) <|
  .cons (Field.carries_switch rfl) <|
  .cons (Field.carries_switch rfl) <|
  .nil p

theorem Param.lossless_codec : Param.codec.Lossless (depth + 3) :=
  Record.lossless_codecOrdered (by decide) Param.carries

theorem Returned.carries (r : Returned) : Record.Carries (depth + 2) r schema {} r :=
  .cons (Field.carries_optional TypeExpr.lossless_codec rfl rfl) <|
  .cons (Field.carries_optional lossless_text rfl rfl) <|
  .nil r

theorem Returned.lossless_codec : Returned.codec.Lossless (depth + 3) :=
  Record.lossless_codecOrdered (by decide) Returned.carries

theorem Place.carries (p : Place) : Record.Carries depth p schema {} p :=
  .cons (Field.carries_always lossless_text) <|
  .cons (Field.carries_always lossless_count) <|
  .cons (Field.carries_always lossless_text) <|
  .nil p

theorem Place.lossless_codec : Place.codec.Lossless (depth + 1) :=
  Record.lossless_codecOrdered (by decide) Place.carries

theorem CustomTag.carries (t : CustomTag) : Record.Carries depth t schema {} t :=
  .cons (Field.carries_always lossless_text) <|
  .cons (Field.carries_always lossless_text) <|
  .nil t

theorem CustomTag.lossless_codec : CustomTag.codec.Lossless (depth + 1) :=
  Record.lossless_codecOrdered (by decide) CustomTag.carries

theorem Example.carries (e : Example) : Record.Carries depth e schema {} e :=
  .cons (Field.carries_optional lossless_text rfl rfl) <|
  .cons (Field.carries_always lossless_text) <|
  .nil e

theorem Example.lossless_codec : Example.codec.Lossless (depth + 1) :=
  Record.lossless_codecOrdered (by decide) Example.carries

theorem Tags.carries (t : Tags) : Record.Carries (depth + 4) t schema {} t :=
  .cons (Field.carries_optional lossless_text rfl rfl) <|
  .cons (Field.carries_optional lossless_text rfl rfl) <|
  .cons (Field.carries_optional lossless_text rfl rfl) <|
  .cons (Field.carries_list Param.lossless_codec rfl) <|
  .cons (Field.carries_list Param.lossless_codec rfl) <|
  .cons (Field.carries_list Returned.lossless_codec rfl) <|
  .cons (Field.carries_list Returned.lossless_codec rfl) <|
  .cons (Field.carries_optional TypeExpr.lossless_codec rfl rfl) <|
  .cons (Field.carries_optional Access.lossless_codec rfl rfl) <|
  .cons (Field.carries_optional lossless_text rfl rfl) <|
  .cons (Field.carries_optional lossless_text rfl rfl) <|
  .cons (Field.carries_optional lossless_text rfl rfl) <|
  .cons (Field.carries_list lossless_text rfl) <|
  .cons (Field.carries_list lossless_text rfl) <|
  .cons (Field.carries_list lossless_text rfl) <|
  .cons (Field.carries_list lossless_text rfl) <|
  .cons (Field.carries_list lossless_text rfl) <|
  .cons (Field.carries_list lossless_text rfl) <|
  .cons (Field.carries_optional lossless_text rfl rfl) <|
  .cons (Field.carries_switch rfl) <|
  .cons (Field.carries_switch rfl) <|
  .cons (Field.carries_switch rfl) <|
  .cons (Field.carries_switch rfl) <|
  .cons (Field.carries_optional lossless_text rfl rfl) <|
  .cons (Field.carries_switch rfl) <|
  .cons (Field.carries_list CustomTag.lossless_codec rfl) <|
  .nil t

theorem Doclet.carries (d : Doclet) : Record.Carries (depth + 4) d schema {} d := by
  have htags (head : Doclet) : Record.Carries (depth + 4) d
      (Tags.schema.map (Field.within (·.tags) fun d v => { d with tags := v }))
      { head with tags := {} } { head with tags := d.tags } := by
    refine Record.Carries.within ?_ ?_ (Tags.carries d.tags) head
    · exact fun _ _ _ => rfl
    · exact fun _ _ => rfl
  refine .append (.append ?_ (htags { d with
    tags := {}, examples := [], place := none, comment := "", undocumented := false,
    ignored := false, files := [], exported := false })) ?_
  · exact .cons (Field.carries_always Kind.lossless_codec) <|
      .cons (Field.carries_always lossless_text) <|
      .cons (Field.carries_always lossless_text) <|
      .cons (Field.carries_optional lossless_text rfl rfl) <|
      .cons (Field.carries_optional Scope.lossless_codec rfl rfl) <|
      .nil _
  · refine .cons (Field.carries_list lossless_text rfl) <|
      .cons (Field.carries_optional Place.lossless_codec rfl rfl) <|
      .cons (Field.carries_skipIf lossless_text fun hempty => ?_) <|
      .cons (Field.carries_switch rfl) <|
      .cons (Field.carries_switch rfl) <|
      .cons (Field.carries_list lossless_text rfl) <|
      .cons (Field.carries_switch rfl) <|
      .nil _
    rw [String.isEmpty_iff.mp hempty]

theorem Doclet.lossless_codec : Doclet.codec.Lossless (depth + 5) :=
  Record.lossless_codec (by decide) Doclet.carries

theorem Entry.carries (e : Entry) : Record.Carries (depth + 4) e schema {} e := by
  have htags (head : Entry) : Record.Carries (depth + 4) e
      (Tags.schema.map (Field.within (·.tags) fun e v => { e with tags := v }))
      { head with tags := {} } { head with tags := e.tags } := by
    refine Record.Carries.within ?_ ?_ (Tags.carries e.tags) head
    · exact fun _ _ _ => rfl
    · exact fun _ _ => rfl
  refine .append (.append ?_ (htags { e with
    tags := {}, examples := [], isExported := false, order := 0, place := none })) ?_
  · exact .cons (Field.carries_always lossless_text) <|
      .cons (Field.carries_always Kind.lossless_codec) <|
      .cons (Field.carries_always lossless_text) <|
      .cons (Field.carries_always lossless_text) <|
      .cons (Field.carries_optional lossless_text rfl rfl) <|
      .cons (Field.carries_optional Scope.lossless_codec rfl rfl) <|
      .nil _
  · exact .cons (Field.carries_list Example.lossless_codec rfl) <|
      .cons (Field.carries_switch rfl) <|
      .cons (Field.carries_always lossless_count) <|
      .cons (Field.carries_optional Place.lossless_codec rfl rfl) <|
      .nil _

theorem Entry.lossless_codec : Entry.codec.Lossless (depth + 5) :=
  Record.lossless_codec (by decide) Entry.carries

end ApiPages
