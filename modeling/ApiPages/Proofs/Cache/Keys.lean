import Mathlib.Algebra.Group.Nat.Defs
import ApiPages.Proofs.Json.Records
import ApiPages.Service

/-!
What a key stands for. The frame of a list of texts belongs to that list only, so two lists with
one key are the same or have different frames with one digest. Main statements: the bytes that are
digested belong to one list of parts, hence to one extraction or one page, and the parts of a key
decide the page of some entries.
-/
namespace ApiPages

namespace Key

theorem littleEndian_inj {n a b : Nat} (ha : a < 256 ^ n) (hb : b < 256 ^ n)
    (h : littleEndian n a = littleEndian n b) : a = b := by
  induction n generalizing a b with
  | zero => omega
  | succ n ih =>
    obtain ⟨hlow, hhigh⟩ := List.cons.inj h
    have hmod : a % 256 = b % 256 := by simpa using congrArg UInt8.toNat hlow
    have hdiv : a / 256 = b / 256 := by
      refine ih ?_ ?_ hhigh
      · exact Nat.div_lt_of_lt_mul (by rwa [Nat.pow_succ, Nat.mul_comm] at ha)
      · exact Nat.div_lt_of_lt_mul (by rwa [Nat.pow_succ, Nat.mul_comm] at hb)
    omega

theorem frame_append_inj {p q ps qs : List UInt8} (hp : p.length < 2 ^ 64) (hq : q.length < 2 ^ 64)
    (h : frame p ++ ps = frame q ++ qs) : p = q ∧ ps = qs := by
  rw [frame, frame, List.append_assoc, List.append_assoc] at h
  obtain ⟨hlength, hrest⟩ := List.append_inj h (by simp only [littleEndian_length])
  exact List.append_inj hrest (littleEndian_inj (by omega) (by omega) hlength)

theorem framed_inj {ps qs : List (List UInt8)} (hp : ∀ p ∈ ps, p.length < 2 ^ 64)
    (hq : ∀ q ∈ qs, q.length < 2 ^ 64) (h : framed ps = framed qs) : ps = qs := by
  have hcons (p : List UInt8) (ps : List (List UInt8)) :
      framed (p :: ps) = frame p ++ framed ps := by
    rw [framed, List.flatMap_cons, framed]
  have hne (p : List UInt8) (ps : List (List UInt8)) : framed (p :: ps) ≠ [] := by
    intro hnil
    have := congrArg List.length hnil
    rw [hcons, List.length_append, frame_length, List.length_nil] at this
    omega
  induction ps generalizing qs with
  | nil =>
    cases qs with
    | nil => rfl
    | cons q qs => exact absurd h.symm (hne q qs)
  | cons p ps ih =>
    cases qs with
    | nil => exact absurd h (hne p ps)
    | cons q qs =>
      rw [hcons, hcons] at h
      obtain ⟨rfl, hrest⟩ := frame_append_inj (hp p List.mem_cons_self) (hq q List.mem_cons_self) h
      rw [ih (fun p hmem => hp p (List.mem_cons_of_mem _ hmem))
        (fun q hmem => hq q (List.mem_cons_of_mem _ hmem)) hrest]

theorem bytes_inj {s t : String} (h : bytes s = bytes t) : s = t := by
  have hdata : s.toUTF8.data = t.toUTF8.data := Array.toList_inj.mp h
  exact String.toByteArray_inj.mp (ByteArray.ext hdata)

theorem digitChar_inj : ∀ a < 16, ∀ b < 16, Nat.digitChar a = Nat.digitChar b → a = b := by decide

theorem hex_inj {xs ys : List UInt8} (h : Digest.hex xs = Digest.hex ys) : xs = ys := by
  have hchars := String.ofList_inj.mp h
  clear h
  induction xs generalizing ys with
  | nil =>
    cases ys with
    | nil => rfl
    | cons y ys => simp at hchars
  | cons x xs ih =>
    cases ys with
    | nil => simp at hchars
    | cons y ys =>
      simp only [List.flatMap_cons, List.cons_append, List.nil_append, List.cons.injEq] at hchars
      obtain ⟨hhigh, hlow, hrest⟩ := hchars
      have hx := x.toNat_lt
      have hy := y.toNat_lt
      have hdiv := digitChar_inj _ (by omega) _ (by omega) hhigh
      have hmod := digitChar_inj _ (by omega) _ (by omega) hlow
      rw [ih hrest, UInt8.toNat_inj.mp (by omega : x.toNat = y.toNat)]

def encoded (parts : List String) : List UInt8 := framed (parts.map bytes)

def Fits (parts : List String) : Prop := ∀ part ∈ parts, (bytes part).length < 2 ^ 64

def CollisionFree (hashed : List (List String)) : Prop :=
  ∀ ps ∈ hashed, ∀ qs ∈ hashed,
    Digest.sha256 (encoded ps) = Digest.sha256 (encoded qs) → encoded ps = encoded qs

theorem encoded_inj {ps qs : List String} (hp : Fits ps) (hq : Fits qs)
    (h : encoded ps = encoded qs) : ps = qs := by
  have hlists : ps.map bytes = qs.map bytes := by
    refine framed_inj ?_ ?_ h
    · simpa [Fits] using hp
    · simpa [Fits] using hq
  exact (List.map_inj_right fun _ _ => bytes_inj).mp hlists

theorem ofParts_inj {hashed : List (List String)} (hfree : CollisionFree hashed)
    (hfits : ∀ parts ∈ hashed, Fits parts) {ps qs : List String} (hp : ps ∈ hashed)
    (hq : qs ∈ hashed) (h : ofParts ps = ofParts qs) : ps = qs :=
  encoded_inj (hfits ps hp) (hfits qs hq) (hfree ps hp qs hq (hex_inj h))

theorem slash_not_mem_ofParts (parts : List String) : '/' ∉ (ofParts parts).toList := by
  have hdigit : ∀ n < 16, Nat.digitChar n ≠ '/' := by decide
  rw [ofParts, Digest.hex, String.toList_ofList, List.mem_flatMap]
  rintro ⟨b, -, hb⟩
  have hlt := b.toNat_lt
  simp only [List.mem_cons, List.not_mem_nil, or_false] at hb
  rcases hb with hb | hb
  · exact hdigit _ (by omega) hb.symm
  · exact hdigit _ (by omega) hb.symm

theorem ofParts_ne_empty (parts : List String) : ofParts parts ≠ "" := by
  intro hempty
  have hnil : Digest.sha256 (encoded parts) = [] := hex_inj hempty
  simp [Digest.sha256, Digest.Words.toList, Digest.bigEndian] at hnil

end Key

open Codec

theorem RenderOptions.toJson_inj {o o' : RenderOptions} (h : o.toJson = o'.toJson) : o = o' := by
  have htexts : text.list.Lossless 1 := lossless_list lossless_text
  have hcounts : count.Lossless 1 := lossless_count
  cases o
  cases o'
  simp only [toJson, Json.object.injEq, List.cons.injEq, Prod.mk.injEq, true_and, and_true,
    Json.string.injEq, Json.bool.injEq] at h
  obtain ⟨rfl, hdepth, rfl, hplugins, hhelpers, hpartials, hname, rfl, rfl, hmodule, hglobal,
    hmember, hparam, hproperty, rfl⟩ := h
  cases hcounts.encode_inj hdepth
  cases htexts.encode_inj hplugins
  cases htexts.encode_inj hhelpers
  cases htexts.encode_inj hpartials
  cases NameFormat.lossless_codec.name_inj hname
  cases IndexFormat.lossless_codec.name_inj hmodule
  cases IndexFormat.lossless_codec.name_inj hglobal
  cases MemberIndexFormat.lossless_codec.name_inj hmember
  cases ListFormat.lossless_codec.name_inj hparam
  cases ListFormat.lossless_codec.name_inj hproperty
  rfl

theorem RenderOptions.isPlain_toJson (o : RenderOptions) : Json.isPlain 2 o.toJson = true := by
  have hlist (xs : List String) : Json.isPlain 1 (text.list.encode xs) = true :=
    (lossless_list lossless_text).plain xs
  have hcount (n : UInt64) : Json.isPlain 1 (count.encode n) = true := lossless_count.plain n
  simp only [toJson, Json.isPlain, Json.havePlain, hlist, hcount, Bool.and_true]

theorem flatMap_pair_inj {α β : Type} {f : α → List β} (hlength : ∀ a, (f a).length = 2)
    {xs ys : List α} (h : xs.flatMap f = ys.flatMap f) : xs.map f = ys.map f := by
  have hne (x : α) (xs : List α) : (x :: xs).flatMap f ≠ [] := by
    intro hnil
    have hlen := congrArg List.length hnil
    rw [List.flatMap_cons, List.length_append, hlength, List.length_nil] at hlen
    omega
  induction xs generalizing ys with
  | nil =>
    cases ys with
    | nil => rfl
    | cons y ys => exact absurd h.symm (hne y ys)
  | cons x xs ih =>
    cases ys with
    | nil => exact absurd h (hne x xs)
    | cons y ys =>
      rw [List.flatMap_cons, List.flatMap_cons] at h
      obtain ⟨hhead, hrest⟩ := List.append_inj h (by rw [hlength, hlength])
      rw [List.map_cons, List.map_cons, hhead, ih hrest]

def Input.texts (i : Input) : List String := [i.path.getD "", i.text]

theorem ExtractOptions.keyParts_inj {o o' : ExtractOptions} {is js : List Input}
    (h : o.keyParts is = o'.keyParts js) :
    o.html = o'.html ∧ o.configure = o'.configure ∧ is.map Input.texts = js.map Input.texts := by
  have hconfigure : text.optional.Lossless 0 := lossless_optional lossless_text rfl
  have hplain (o : ExtractOptions) :
      Json.isPlain 1 (.array [.bool o.html, text.optional.encode o.configure]) = true := by
    simp only [Json.isPlain, Json.arePlain, hconfigure.plain, Bool.and_true]
  obtain ⟨hoptions, hparts⟩ := List.cons.inj (List.cons.inj h).2
  have hjson := Json.compact_inj (hplain o) (hplain o') hoptions
  simp only [Json.array.injEq, List.cons.injEq, Json.bool.injEq, and_true] at hjson
  exact ⟨hjson.1, hconfigure.encode_inj hjson.2, flatMap_pair_inj (fun _ => rfl) hparts⟩

theorem ExtractOptions.keyParts_congr {o o' : ExtractOptions} {is js : List Input}
    (hhtml : o.html = o'.html) (hconfigure : o.configure = o'.configure)
    (htexts : is.map Input.texts = js.map Input.texts) : o.keyParts is = o'.keyParts js := by
  have hparts (is : List Input) :
      (is.flatMap fun i => [i.path.getD "", i.text]) = (is.map Input.texts).flatten := by
    rw [List.flatMap_def]
    rfl
  rw [keyParts, keyParts, hparts, hparts, hhtml, hconfigure, htexts]

def Input.Named (i : Input) : Prop := i.path ≠ some ""

theorem Input.eq_of_texts {i j : Input} (hi : i.Named) (hj : j.Named) (h : i.texts = j.texts) :
    i = j := by
  obtain ⟨hpath, htext⟩ : i.path.getD "" = j.path.getD "" ∧ i.text = j.text := by
    simpa [texts] using h
  obtain ⟨ipath, itext⟩ := i
  obtain ⟨jpath, jtext⟩ := j
  simp only [Input.Named] at hi hj
  cases ipath <;> cases jpath <;> simp_all

theorem Input.eq_of_map_texts {is js : List Input} (hi : ∀ i ∈ is, i.Named)
    (hj : ∀ j ∈ js, j.Named) (h : is.map texts = js.map texts) : is = js := by
  induction is generalizing js with
  | nil => simpa using h.symm
  | cons i is ih =>
    cases js with
    | nil => simp at h
    | cons j js =>
      rw [List.map_cons, List.map_cons] at h
      obtain ⟨hhead, hrest⟩ := List.cons.inj h
      rw [Input.eq_of_texts (hi i List.mem_cons_self) (hj j List.mem_cons_self) hhead,
        ih (fun i hm => hi i (List.mem_cons_of_mem _ hm))
          (fun j hm => hj j (List.mem_cons_of_mem _ hm)) hrest]

def UserTemplates.texts (u : UserTemplates) : List (List String) :=
  u.files.map fun f => [f.name, f.content]

theorem RenderOptions.keyParts_inj {o o' : RenderOptions} {es es' : List Entry}
    {u u' : UserTemplates} (h : o.keyParts es u = o'.keyParts es' u') :
    o = o' ∧ es = es' ∧ u.texts = u'.texts := by
  obtain ⟨hoptions, hrest⟩ := List.cons.inj (List.cons.inj h).2
  obtain ⟨hentries, hfiles⟩ := List.cons.inj hrest
  have hlossless : Entry.codec.list.Lossless 6 := lossless_list Entry.lossless_codec
  refine ⟨?_, ?_, flatMap_pair_inj (fun _ => rfl) hfiles⟩
  · exact toJson_inj (Json.compact_inj o.isPlain_toJson o'.isPlain_toJson hoptions)
  · exact hlossless.encode_inj
      (Json.compact_inj (hlossless.plain es) (hlossless.plain es') hentries)

theorem allLayers_congr (o : RenderOptions) {u u' : UserTemplates} (h : u.texts = u'.texts) :
    Template.allLayers o u = Template.allLayers o u' := by
  have hlayers (u : UserTemplates) :
      u.files.map (fun f => (f.name, Template.Content.text f.content)) =
        u.texts.map fun t => (t.getD 0 "", .text (t.getD 1 "")) := by
    rw [UserTemplates.texts, List.map_map]
    rfl
  rw [Template.allLayers, Template.allLayers, hlayers u, hlayers u', h]

theorem render_congr (engine : Template.Engine) (outside : Outside) (es : List Entry)
    (o : RenderOptions) {u u' : UserTemplates} (h : u.texts = u'.texts) :
    render engine outside es o u = render engine outside es o u' := by
  rw [render, render, Template.layered, Template.layered, allLayers_congr o h]

theorem RenderOptions.keyParts_congr (o : RenderOptions) (es : List Entry) {u u' : UserTemplates}
    (h : u.texts = u'.texts) : o.keyParts es u = o.keyParts es u' := by
  have hparts (u : UserTemplates) :
      (u.files.flatMap fun f => [f.name, f.content]) = u.texts.flatten := by
    rw [UserTemplates.texts, List.flatMap_def]
  rw [keyParts, keyParts, hparts, hparts, h]

/-- The bytes that are digested belong to one list of parts. So two extractions with the same bytes
have the same options and read the same texts at the same paths, and two pages with the same bytes
have the same options, entries and templates. -/
theorem hashed_bytes_decide :
    (∀ ps qs : List (List UInt8), (∀ p ∈ ps, p.length < 2 ^ 64) → (∀ q ∈ qs, q.length < 2 ^ 64) →
        (Key.framed ps = Key.framed qs ↔ ps = qs)) ∧
      (∀ (o o' : ExtractOptions) (is js : List Input),
        Key.Fits (o.keyParts is) → Key.Fits (o'.keyParts js) →
        (Key.encoded (o.keyParts is) = Key.encoded (o'.keyParts js) ↔
          o.html = o'.html ∧ o.configure = o'.configure ∧
            is.map Input.texts = js.map Input.texts)) ∧
      ∀ (o o' : RenderOptions) (es es' : List Entry) (u u' : UserTemplates),
        Key.Fits (o.keyParts es u) → Key.Fits (o'.keyParts es' u') →
        (Key.encoded (o.keyParts es u) = Key.encoded (o'.keyParts es' u') ↔
          o = o' ∧ es = es' ∧ u.texts = u'.texts) := by
  refine ⟨?_, ?_, ?_⟩
  · intro ps qs hps hqs
    exact ⟨Key.framed_inj hps hqs, congrArg Key.framed⟩
  · intro o o' is js hfits hfits'
    constructor
    · intro hbytes
      exact ExtractOptions.keyParts_inj (Key.encoded_inj hfits hfits' hbytes)
    · rintro ⟨hhtml, hconfigure, htexts⟩
      rw [ExtractOptions.keyParts_congr hhtml hconfigure htexts]
  · intro o o' es es' u u' hfits hfits'
    constructor
    · intro hbytes
      exact RenderOptions.keyParts_inj (Key.encoded_inj hfits hfits' hbytes)
    · rintro ⟨rfl, rfl, htexts⟩
      rw [RenderOptions.keyParts_congr o es htexts]

def cutLate : List Input := [{ path := some "ab", text := "c" }]

def cutEarly : List Input := [{ path := some "a", text := "bc" }]

def nameCutLate : UserTemplates :=
  { plugins := [{ name := "header", path := "header", content := "" }] }

def nameCutEarly : UserTemplates :=
  { partials := [{ name := "head", path := "head", content := "er" }] }

theorem hashed_bytes_decide_cut :
    (∀ p ∈ [Key.bytes "ab", Key.bytes "c"], p.length < 2 ^ 64) ∧
      (∀ q ∈ [Key.bytes "a", Key.bytes "bc"], q.length < 2 ^ 64) ∧
      Key.framed [Key.bytes "ab", Key.bytes "c"] ≠ Key.framed [Key.bytes "a", Key.bytes "bc"] ∧
      Key.Fits (ExtractOptions.keyParts {} cutLate) ∧
      Key.Fits (ExtractOptions.keyParts {} cutEarly) ∧
      Key.encoded (ExtractOptions.keyParts {} cutLate) ≠
        Key.encoded (ExtractOptions.keyParts {} cutEarly) ∧
      Key.Fits (RenderOptions.keyParts {} [{}] nameCutLate) ∧
      Key.Fits (RenderOptions.keyParts {} [{}] nameCutEarly) ∧
      Key.encoded (RenderOptions.keyParts {} [{}] nameCutLate) ≠
        Key.encoded (RenderOptions.keyParts {} [{}] nameCutEarly) := by
  obtain ⟨hlists, hextractions, hpages⟩ := hashed_bytes_decide
  have hlate : ∀ p ∈ [Key.bytes "ab", Key.bytes "c"], p.length < 2 ^ 64 := by decide +kernel
  have hearly : ∀ q ∈ [Key.bytes "a", Key.bytes "bc"], q.length < 2 ^ 64 := by decide +kernel
  have hlateParts : Key.Fits (ExtractOptions.keyParts {} cutLate) := by
    unfold Key.Fits
    decide +kernel
  have hearlyParts : Key.Fits (ExtractOptions.keyParts {} cutEarly) := by
    unfold Key.Fits
    decide +kernel
  have hpage : Key.Fits (RenderOptions.keyParts {} [{}] {}) := by
    unfold Key.Fits
    decide +kernel
  have hlatePage : Key.Fits (RenderOptions.keyParts {} [{}] nameCutLate) :=
    List.forall_mem_append.mpr ⟨hpage, by decide +kernel⟩
  have hearlyPage : Key.Fits (RenderOptions.keyParts {} [{}] nameCutEarly) :=
    List.forall_mem_append.mpr ⟨hpage, by decide +kernel⟩
  refine ⟨hlate, hearly, ?_, hlateParts, hearlyParts, ?_, hlatePage, hearlyPage, ?_⟩
  · intro hbytes
    have hlist := (hlists _ _ hlate hearly).mp hbytes
    exact absurd hlist (by decide +kernel)
  · intro hbytes
    obtain ⟨-, -, htexts⟩ := (hextractions _ _ _ _ hlateParts hearlyParts).mp hbytes
    exact absurd htexts (by decide)
  · intro hbytes
    obtain ⟨-, -, htexts⟩ := (hpages _ _ _ _ _ _ hlatePage hearlyPage).mp hbytes
    exact absurd htexts (by decide)

end ApiPages
