import ApiPages.Proofs.Cache.Entries
import ApiPages.Proofs.Extract.Inputs

/-!
Caches do not show. Calls are made one after another, and between them others change files and
whatever else is outside; nobody else puts files into the folders of the caches, which start out
empty. A stored text is then what some earlier call computed from what its key stands for. Main
statement: if no two lists of key parts collide, a call is answered as by the service without caches,
on any disk where it finds the same inputs and templates; but a page may be one that was made under
other circumstances outside, which no key tells apart.
-/
namespace ApiPages

namespace ExtractOptions

theorem readInput_named {d : Disk} {path : String} {i : Input} (h : readInput d path = .ok i) :
    i.Named := by
  rw [readInput] at h
  split at h
  · next text hread =>
    cases h
    intro hempty
    cases Option.some.inj hempty
    cases hread
  · contradiction

theorem inputs_named {o : ExtractOptions} {d : Disk} {base : String} {inputs : List Input}
    (h : o.inputs d base = .ok inputs) : ∀ i ∈ inputs, i.Named := by
  rw [ExtractOptions.inputs] at h
  split at h
  · cases h
    intro i hi
    cases List.mem_singleton.mp hi
    exact Option.some_ne_none _ |>.symm
  · cases hpaths : o.paths d base with
    | error f => rw [hpaths] at h; cases h
    | ok paths =>
      rw [hpaths] at h
      intro i hi
      obtain ⟨path, -, hread⟩ := mem_of_mapM_eq_ok h i hi
      exact readInput_named hread

end ExtractOptions

inductive Event where
  | change (files : Disk → Disk) (outside : Outside)
  | call (c : Call)

namespace Service

def bare (s : Service) : Service := { base := s.base, engine := s.engine }

def places (s : Service) (home : Route) : List Route :=
  (s.extracted.toList ++ s.rendered.toList).map ({ here := home } : Disk).place

def step : Service × World → Event → Service × World
  | (s, w), .change files outside =>
    (s, { disk := { files w.disk with here := w.disk.here }, outside })
  | (s, w), .call c => ((s.answer w c).2.1, { w with disk := (s.answer w c).2.2 })

def calls : Service × World → List Event → List (Call × Service × World)
  | _, [] => []
  | m, .change files outside :: events => calls (step m (.change files outside)) events
  | m, .call c :: events => (c, m) :: calls (step m (.call c)) events

def extractionParts (s : Service) (d : Disk) (o : ExtractOptions) : List (List String) :=
  match o.inputs d s.base with
  | .ok inputs => if s.extracted.isSome ∧ o.cache then [o.keyParts inputs] else []
  | .error _ => []

def pageParts (s : Service) (d : Disk) (entries : List Entry) (o : RenderOptions) :
    List (List String) :=
  match UserTemplates.load d o with
  | .ok user => if s.rendered.isSome ∧ o.cache then [o.keyParts entries user] else []
  | .error _ => []

def pageKeys (s : Service) (d : Disk) (o : Options) : List (List String) :=
  match o.data with
  | some entries => s.pageParts d entries (.ofOptions o)
  | none =>
    match s.entries d o with
    | (.ok entries, disk) => s.pageParts disk entries (.ofOptions o)
    | (.error _, _) => []

def keyParts (s : Service) (d : Disk) (c : Call) : List (List String) :=
  let extraction := s.extractionParts d (.ofOptions c.options)
  match c.request with
  | .clear => []
  | .page => (if c.options.data.isSome then [] else extraction) ++ s.pageKeys d c.options
  | _ => extraction

def hashed (m : Service × World) (events : List Event) : List (List String) :=
  (calls m events).flatMap fun (c, s, w) => s.keyParts w.disk c

/-- The pages that were asked for, each with what its key is made of and what was outside then. -/
def pagesAsked (m : Service × World) (events : List Event) : List (List String × Outside) :=
  (calls m events).flatMap fun (c, s, w) =>
    if c.request = .page then (s.pageKeys w.disk c.options).map (·, w.outside) else []

/-- On another disk the call finds the same inputs and, for a page, the same templates, which the
service looks for after it has stored what it extracted. -/
def FindsAlike (s : Service) (d e : Disk) (c : Call) : Prop :=
  let o := c.options
  let sameInputs := (ExtractOptions.ofOptions o).inputs d s.base =
    (ExtractOptions.ofOptions o).inputs e s.base
  let sameTemplates (d : Disk) :=
    UserTemplates.load d (.ofOptions o) = UserTemplates.load e (.ofOptions o)
  match c.request with
  | .clear => True
  | .page => if o.data.isSome then sameTemplates d else sameInputs ∧ sameTemplates (s.entries d o).2
  | _ => sameInputs

def found (s : Service) (d : Disk) (o : Options) : Except Failure (List Doclet) := do
  let inputs ← (ExtractOptions.ofOptions o).inputs d s.base
  (extract o.html inputs).mapError Failure.ofProblem

def drawn (s : Service) (w : World) (entries : List Entry) (o : RenderOptions) :
    Except Failure String := do
  let user ← (UserTemplates.load w.disk o).mapError Failure.ofProblem
  (render s.engine w.outside entries o user).mapError Failure.ofProblem

section Bare

variable (s : Service) (w : World) (d : Disk) (o : Options)

theorem doclets_bare : s.bare.doclets d o = (s.found d o, d) := by
  rw [doclets, found]
  have hbase : s.bare.base = s.base := rfl
  rw [hbase]
  cases (ExtractOptions.ofOptions o).inputs d s.base <;> rfl

theorem entries_bare :
    s.bare.entries d o = ((s.found d o).map (Catalogue.ofDoclets o.showPrivate), d) := by
  rw [entries, doclets_bare]

theorem pageOf_bare (entries : List Entry) (o : RenderOptions) :
    s.bare.pageOf w entries o = (s.drawn w entries o, w.disk) := by
  rw [pageOf, drawn]
  cases UserTemplates.load w.disk o <;> rfl

theorem page_bare : s.bare.page w o =
    (((o.data.map Except.ok).getD
      ((s.found w.disk o).map (Catalogue.ofDoclets o.showPrivate))).bind fun entries =>
        s.drawn w entries (.ofOptions o), w.disk) := by
  cases hdata : o.data with
  | some entries =>
    simp only [page, hdata, pageOf_bare]
    rfl
  | none =>
    simp only [page, hdata, entries_bare]
    cases (s.found w.disk o).map (Catalogue.ofDoclets o.showPrivate) with
    | error f => rfl
    | ok entries => exact pageOf_bare s w entries _

end Bare

variable {asked : List (List String)} {seen : List (List String × Outside)} {engine : Template.Engine}

/-- The texts that earlier calls have stored under a key. -/
inductive Stored (asked : List (List String)) (seen : List (List String × Outside))
    (engine : Template.Engine) : String → String → Prop
  | doclets {o : ExtractOptions} {inputs : List Input} {found : List Doclet}
      (named : ∀ i ∈ inputs, i.Named) (mem : o.keyParts inputs ∈ asked)
      (result : extract o.html inputs = .ok found) :
      Stored asked seen engine (Key.ofParts (o.keyParts inputs))
        (Doclet.codec.list.encode found).compact
  | page {o : RenderOptions} {entries : List Entry} {user : UserTemplates} {outside : Outside}
      {text : String} (mem : o.keyParts entries user ∈ asked)
      (earlier : (o.keyParts entries user, outside) ∈ seen)
      (result : render engine outside entries o user = .ok text) :
      Stored asked seen engine (Key.ofParts (o.keyParts entries user))
        (Codec.text.encode text).compact

theorem extractionParts_ne_pageParts (o : ExtractOptions) (inputs : List Input) (o' : RenderOptions)
    (entries : List Entry) (user : UserTemplates) : o.keyParts inputs ≠ o'.keyParts entries user := by
  intro he
  have hoptions := (List.cons.inj (List.cons.inj he).2).1
  have hplain : Json.isPlain 2 (.array [.bool o.html, Codec.text.optional.encode o.configure]) =
      true := by
    cases hconfigure : o.configure <;> rfl
  cases Json.compact_inj hplain o'.isPlain_toJson hoptions

section Keys

variable (hfree : Key.CollisionFree asked) (hfits : ∀ parts ∈ asked, Key.Fits parts)
include hfree hfits

theorem stored_doclets {o : ExtractOptions} {inputs : List Input} {text : String}
    (hnamed : ∀ i ∈ inputs, i.Named) (hasked : o.keyParts inputs ∈ asked)
    (h : Stored asked seen engine (Key.ofParts (o.keyParts inputs)) text) :
    ∃ found, extract o.html inputs = .ok found ∧ text = (Doclet.codec.list.encode found).compact := by
  generalize hkey : Key.ofParts (o.keyParts inputs) = key at h
  cases h with
  | @doclets o' inputs' found hnamed' hasked' hfound =>
    have hparts := Key.ofParts_inj hfree hfits hasked hasked' hkey
    obtain ⟨hhtml, -, htexts⟩ := ExtractOptions.keyParts_inj hparts
    refine ⟨found, ?_, rfl⟩
    rw [hhtml, Input.eq_of_map_texts hnamed hnamed' htexts, hfound]
  | page hasked' =>
    have hparts := Key.ofParts_inj hfree hfits hasked hasked' hkey
    exact absurd hparts (extractionParts_ne_pageParts _ _ _ _ _)

theorem stored_page {o : RenderOptions} {entries : List Entry} {user : UserTemplates} {text : String}
    (hasked : o.keyParts entries user ∈ asked)
    (h : Stored asked seen engine (Key.ofParts (o.keyParts entries user)) text) :
    ∃ outside, (o.keyParts entries user, outside) ∈ seen ∧
      ∃ page, render engine outside entries o user = .ok page ∧
        text = (Codec.text.encode page).compact := by
  generalize hkey : Key.ofParts (o.keyParts entries user) = key at h
  cases h with
  | doclets hnamed' hasked' =>
    have hparts := Key.ofParts_inj hfree hfits hasked hasked' hkey
    exact absurd hparts.symm (extractionParts_ne_pageParts _ _ _ _ _)
  | @page o' entries' user' outside page hasked' hseen hpage =>
    have hparts := Key.ofParts_inj hfree hfits hasked hasked' hkey
    rw [← hparts] at hseen
    obtain ⟨rfl, rfl, htexts⟩ := RenderOptions.keyParts_inj hparts
    exact ⟨outside, hseen, page, (render_congr engine outside entries o htexts).trans hpage, rfl⟩

end Keys

section Through

variable {home : Route} {places : List Route} {P : String → String → Prop} {d : Disk}
  {folder : Option String} {wanted : Bool} {parts : List String} {α : Type} {codec : Codec α}
  {compute : Except Failure α} (h : d.Keeps home places P)
  (hfolder : ∀ f ∈ folder, d.place f ∈ places)
include h hfolder

theorem through_keeps (hapart : Disk.Apart places)
    (hcompute : folder.isSome ∧ wanted → ∀ value, compute = .ok value →
      P (Key.ofParts parts) (codec.encode value).compact) :
    (through d folder wanted codec parts compute).2.Keeps home places P := by
  cases folder with
  | none => exact h
  | some f =>
    cases wanted with
    | false => exact h
    | true =>
      have hplace : ({ folder := f, disk := d } : Cache).place ∈ places := hfolder f rfl
      simp only [through, if_true]
      exact Disk.Keeps.memo h hplace (Cache.isKey_ofParts parts) hapart (hcompute ⟨rfl, rfl⟩)

theorem through_eq (hcodec : codec.Lossless Json.depthLimit)
    (hstored : folder.isSome ∧ wanted → ∀ text, P (Key.ofParts parts) text →
      ∃ value, compute = .ok value ∧ text = (codec.encode value).compact) :
    (through d folder wanted codec parts compute).1 = compute := by
  cases folder with
  | none => rfl
  | some f =>
    cases wanted with
    | false => rfl
    | true =>
      have hplace : ({ folder := f, disk := d } : Cache).place ∈ places := hfolder f rfl
      simp only [through, if_true]
      exact Disk.Keeps.memo_eq h hplace (Cache.isKey_ofParts parts) hcodec (hstored ⟨rfl, rfl⟩)

omit h hfolder in
theorem through_of_key {f key : String} (hkey : Key.ofParts parts = key) :
    through d (some f) true codec parts compute =
      ((({ folder := f, disk := d } : Cache).memo codec key compute).1,
        (({ folder := f, disk := d } : Cache).memo codec key compute).2.disk) := by
  rw [through, if_pos rfl, hkey]

end Through

def Sound (asked : List (List String)) (seen : List (List String × Outside)) (home : Route)
    (s : Service) (d : Disk) : Prop :=
  d.Keeps home (s.places home) (Stored asked seen s.engine)

variable {home : Route} {s : Service} {w : World} {d : Disk}

theorem Sound.place_mem (h : Sound asked seen home s d) {f : String}
    (hf : f ∈ s.extracted.toList ++ s.rendered.toList) : d.place f ∈ s.places home := by
  have hhere : d.here = ({ here := home } : Disk).here := h.here
  rw [Disk.place_congr hhere]
  exact List.mem_map_of_mem hf

theorem Sound.extracted (h : Sound asked seen home s d) :
    ∀ f ∈ s.extracted, d.place f ∈ s.places home := fun _ hf =>
  h.place_mem (List.mem_append_left _ (Option.mem_toList.mpr hf))

theorem Sound.rendered (h : Sound asked seen home s d) :
    ∀ f ∈ s.rendered, d.place f ∈ s.places home := fun _ hf =>
  h.place_mem (List.mem_append_right _ (Option.mem_toList.mpr hf))

theorem mapError_eq_ok {α : Type} {x : Except Problem α} {value : α}
    (h : x.mapError Failure.ofProblem = .ok value) : x = .ok value := by
  cases x with
  | ok own => rw [Except.ok.inj h]
  | error p => cases h

section Step

variable (h : Sound asked seen home s d) (hapart : Disk.Apart (s.places home))
include h hapart

theorem Sound.doclets {o : Options}
    (hparts : ∀ parts ∈ s.extractionParts d (.ofOptions o), parts ∈ asked) :
    Sound asked seen home s (s.doclets d o).2 := by
  rw [Service.doclets]
  cases hinputs : (ExtractOptions.ofOptions o).inputs d s.base with
  | error f => exact h
  | ok inputs =>
    refine through_keeps h h.extracted hapart fun hcached found hfound => ?_
    refine .doclets (ExtractOptions.inputs_named hinputs) (hparts _ ?_) (mapError_eq_ok hfound)
    simp only [extractionParts, hinputs, if_pos hcached, List.mem_singleton]

theorem Sound.entries {o : Options}
    (hparts : ∀ parts ∈ s.extractionParts d (.ofOptions o), parts ∈ asked) :
    Sound asked seen home s (s.entries d o).2 :=
  h.doclets hapart hparts

theorem Sound.pageOf {outside : Outside} {entries : List Entry} {o : RenderOptions}
    (hparts : ∀ parts ∈ s.pageParts d entries o, parts ∈ asked ∧ (parts, outside) ∈ seen) :
    Sound asked seen home s (s.pageOf ⟨d, outside⟩ entries o).2 := by
  rw [Service.pageOf]
  cases hload : UserTemplates.load d o with
  | error p => exact h
  | ok user =>
    refine through_keeps h h.rendered hapart fun hcached page hpage => ?_
    have hasked : o.keyParts entries user ∈ s.pageParts d entries o := by
      simp only [pageParts, hload, if_pos hcached, List.mem_singleton]
    exact .page (hparts _ hasked).1 (hparts _ hasked).2 (mapError_eq_ok hpage)

omit hapart in
theorem Sound.cleared {folder : Option String} (hfolder : ∀ f ∈ folder, d.place f ∈ s.places home) :
    (cleared d folder).1 = .ok () ∧ Sound asked seen home s (cleared d folder).2 := by
  cases folder with
  | none => exact ⟨rfl, h⟩
  | some f =>
    have hplace : ({ folder := f, disk := d } : Cache).place ∈ s.places home := hfolder f rfl
    exact Disk.Keeps.clear h hplace

omit hapart in
theorem Sound.clear :
    (s.clear d).1 = .ok () ∧ Sound asked seen home s (s.clear d).2 := by
  obtain ⟨hfirst, hsound⟩ := h.cleared h.extracted
  obtain ⟨hsecond, hsound'⟩ := hsound.cleared hsound.rendered
  have hclear : s.clear d = Service.cleared (Service.cleared d s.extracted).2 s.rendered := by
    rw [Service.clear]
    rcases hcleared : Service.cleared d s.extracted with ⟨result, d'⟩
    rw [hcleared] at hfirst
    cases hfirst
    rfl
  rw [hclear]
  exact ⟨hsecond, hsound'⟩

theorem Sound.page {o : Options} {outside : Outside} {waits : Bool}
    (hparts : ∀ parts ∈ s.keyParts d ⟨.page, o, waits⟩, parts ∈ asked)
    (hseen : ∀ parts ∈ s.pageKeys d o, (parts, outside) ∈ seen) :
    Sound asked seen home s (s.page ⟨d, outside⟩ o).2 := by
  simp only [keyParts, List.mem_append] at hparts
  have hkeys : ∀ parts ∈ s.pageKeys d o, parts ∈ asked ∧ (parts, outside) ∈ seen :=
    fun parts hmem => ⟨hparts parts (.inr hmem), hseen parts hmem⟩
  simp only [pageKeys] at hkeys
  simp only [Service.page]
  cases hdata : o.data with
  | some entries =>
    rw [hdata] at hkeys
    exact h.pageOf hapart hkeys
  | none =>
    rw [hdata] at hparts hkeys
    have hsound := h.entries hapart fun parts hmem => hparts parts (.inl hmem)
    rcases hentries : s.entries d o with ⟨made, d'⟩
    rw [hentries] at hsound hkeys
    cases made with
    | error f => exact hsound
    | ok entries => exact hsound.pageOf hapart hkeys

theorem Sound.reply {c : Call} {outside : Outside}
    (hparts : ∀ parts ∈ s.keyParts d c, parts ∈ asked)
    (hseen : c.request = .page → ∀ parts ∈ s.pageKeys d c.options, (parts, outside) ∈ seen) :
    Sound asked seen home s (s.reply ⟨d, outside⟩ c).2 := by
  obtain ⟨request, o, waits⟩ := c
  cases request with
  | doclets => exact h.doclets hapart hparts
  | entries => exact h.entries hapart hparts
  | page => exact h.page hapart hparts (hseen rfl)
  | namepaths => exact h.entries hapart hparts
  | clear => exact h.clear.2

end Step

theorem page_inj {x y : Except Failure String} (h : x.map Answer.page = y.map Answer.page) :
    x = y := by
  cases x <;> cases y <;> cases h <;> rfl

theorem found_congr {e : Disk} {o : Options}
    (h : (ExtractOptions.ofOptions o).inputs d s.base = (ExtractOptions.ofOptions o).inputs e s.base) :
    s.found d o = s.found e o := by
  rw [found, found, h]

section Result

variable (hfree : Key.CollisionFree asked) (hfits : ∀ parts ∈ asked, Key.Fits parts)
  (h : Sound asked seen home s d)
include hfree hfits h

theorem Sound.doclets_eq {o : Options}
    (hparts : ∀ parts ∈ s.extractionParts d (.ofOptions o), parts ∈ asked) :
    (s.doclets d o).1 = s.found d o := by
  rw [Service.doclets, found]
  cases hinputs : (ExtractOptions.ofOptions o).inputs d s.base with
  | error f => rfl
  | ok inputs =>
    refine through_eq h h.extracted (Codec.lossless_list Doclet.lossless_codec)
      fun hcached text htext => ?_
    have hasked : (ExtractOptions.ofOptions o).keyParts inputs ∈ asked := by
      refine hparts _ ?_
      simp only [extractionParts, hinputs, if_pos hcached, List.mem_singleton]
    obtain ⟨found, hfound, htext⟩ :=
      stored_doclets hfree hfits (ExtractOptions.inputs_named hinputs) hasked htext
    exact ⟨found, by rw [hfound]; rfl, htext⟩

theorem Sound.entries_eq {o : Options}
    (hparts : ∀ parts ∈ s.extractionParts d (.ofOptions o), parts ∈ asked) :
    (s.entries d o).1 = (s.found d o).map (Catalogue.ofDoclets o.showPrivate) := by
  rw [← h.doclets_eq hfree hfits hparts]
  rfl

theorem Sound.pageOf_eq {outside : Outside} {entries : List Entry} {o : RenderOptions} {e : Disk}
    (hparts : ∀ parts ∈ s.pageParts d entries o, parts ∈ asked)
    (hfinds : UserTemplates.load d o = UserTemplates.load e o)
    (hsteady : ∀ parts ∈ s.pageParts d entries o, ∀ earlier, (parts, earlier) ∈ seen →
      s.drawn ⟨e, earlier⟩ entries o = s.drawn ⟨e, outside⟩ entries o) :
    (s.pageOf ⟨d, outside⟩ entries o).1 = s.drawn ⟨e, outside⟩ entries o := by
  simp only [Service.pageOf, drawn, ← hfinds] at hsteady ⊢
  cases hload : UserTemplates.load d o with
  | error p => rfl
  | ok user =>
    rw [hload] at hsteady
    refine through_eq h h.rendered Codec.lossless_text fun hcached text htext => ?_
    have hasked : o.keyParts entries user ∈ s.pageParts d entries o := by
      simp only [pageParts, hload, if_pos hcached, List.mem_singleton]
    obtain ⟨earlier, hearlier, page, hpage, htext⟩ :=
      stored_page hfree hfits (hparts _ hasked) htext
    refine ⟨page, ?_, htext⟩
    have hsame : (render s.engine earlier entries o user).mapError Failure.ofProblem =
        (render s.engine outside entries o user).mapError Failure.ofProblem :=
      hsteady _ hasked earlier hearlier
    rw [← hsame, hpage]
    rfl

theorem Sound.page_eq (hapart : Disk.Apart (s.places home)) {o : Options} {outside : Outside}
    {waits : Bool} {e : Disk} (hparts : ∀ parts ∈ s.keyParts d ⟨.page, o, waits⟩, parts ∈ asked)
    (hfinds : s.FindsAlike d e ⟨.page, o, waits⟩)
    (hsteady : ∀ parts ∈ s.pageKeys d o, ∀ earlier, (parts, earlier) ∈ seen →
      (s.bare.page ⟨e, earlier⟩ o).1 = (s.bare.page ⟨e, outside⟩ o).1) :
    (s.page ⟨d, outside⟩ o).1 = (s.bare.page ⟨e, outside⟩ o).1 := by
  simp only [keyParts, List.mem_append] at hparts
  have hkeys : ∀ parts ∈ s.pageKeys d o, parts ∈ asked := fun parts hmem => hparts parts (.inr hmem)
  simp only [pageKeys] at hkeys hsteady
  simp only [page_bare] at hsteady ⊢
  simp only [FindsAlike] at hfinds
  simp only [Service.page]
  cases hdata : o.data with
  | some entries =>
    rw [hdata] at hkeys hsteady hfinds
    exact h.pageOf_eq hfree hfits hkeys hfinds hsteady
  | none =>
    rw [hdata] at hparts hkeys hsteady hfinds
    obtain ⟨hinputs, hload⟩ := hfinds
    have hfirst : ∀ parts ∈ s.extractionParts d (.ofOptions o), parts ∈ asked :=
      fun parts hmem => hparts parts (.inl hmem)
    have hsound := h.entries hapart hfirst
    have hmade := h.entries_eq hfree hfits hfirst
    rw [found_congr hinputs] at hmade
    -- The templates are looked for on the disk that extraction leaves.
    rcases hentries : s.entries d o with ⟨made, d'⟩
    rw [hentries] at hkeys hsteady hsound hmade hload
    rw [Option.map_none, Option.getD_none, ← hmade] at hsteady ⊢
    cases made with
    | error f => rfl
    | ok entries => exact hsound.pageOf_eq hfree hfits hkeys hload hsteady

theorem Sound.reply_eq (hapart : Disk.Apart (s.places home)) {c : Call} {outside : Outside}
    {e : Disk} (hparts : ∀ parts ∈ s.keyParts d c, parts ∈ asked)
    (hfinds : s.FindsAlike d e c)
    (hsteady : ∀ parts ∈ s.pageKeys d c.options, ∀ earlier, (parts, earlier) ∈ seen →
      (s.bare.reply ⟨e, earlier⟩ c).1 = (s.bare.reply ⟨e, outside⟩ c).1) :
    (s.reply ⟨d, outside⟩ c).1 = (s.bare.reply ⟨e, outside⟩ c).1 := by
  obtain ⟨request, o, waits⟩ := c
  have hdoclets (hinputs : (ExtractOptions.ofOptions o).inputs d s.base =
      (ExtractOptions.ofOptions o).inputs e s.base)
      (hparts : ∀ parts ∈ s.extractionParts d (.ofOptions o), parts ∈ asked) :
      (s.doclets d o).1 = (s.bare.doclets e o).1 := by
    rw [h.doclets_eq hfree hfits hparts, doclets_bare, found_congr hinputs]
  cases request with
  | doclets => exact congrArg (Except.map Answer.doclets) (hdoclets hfinds hparts)
  | entries =>
    exact congrArg (fun found => (found.map (Catalogue.ofDoclets o.showPrivate)).map Answer.entries)
      (hdoclets hfinds hparts)
  | page =>
    refine congrArg (Except.map Answer.page) (h.page_eq hfree hfits hapart hparts hfinds ?_)
    intro parts hmem earlier hearlier
    exact page_inj (hsteady parts hmem earlier hearlier)
  | namepaths =>
    exact congrArg (fun found => (found.map (Catalogue.ofDoclets o.showPrivate)).map fun es =>
      Answer.namepaths (Catalogue.namepaths es)) (hdoclets hfinds hparts)
  | clear => exact congrArg (Except.map fun _ => Answer.cleared) h.clear.1

end Result

theorem step_call (s : Service) (w : World) (c : Call) :
    step (s, w) (.call c) =
      ({ s with usage := s.usage.record c.name }, { w with disk := (s.reply w c).2 }) :=
  rfl

theorem reply_page {c : Call} (h : c.request = .page) :
    s.reply w c = ((s.page w c.options).1.map .page, (s.page w c.options).2) := by
  simp only [reply, h]

theorem answer_page {c : Call} (h : c.request = .page) :
    (s.answer w c).1 = (s.page w c.options).1.map .page :=
  congrArg Prod.fst (reply_page h)

theorem hashed_call (m : Service × World) (c : Call) (events : List Event) :
    hashed m (.call c :: events) = m.1.keyParts m.2.disk c ++ hashed (step m (.call c)) events :=
  rfl

theorem pagesAsked_call (m : Service × World) (c : Call) (events : List Event) :
    pagesAsked m (.call c :: events) =
      (if c.request = .page then (m.1.pageKeys m.2.disk c.options).map (·, m.2.outside) else []) ++
        pagesAsked (step m (.call c)) events :=
  rfl

theorem pageKeys_of_entries {o : Options} (hdata : o.data = none) {entries : List Entry} {d' : Disk}
    (hentries : s.entries d o = (.ok entries, d')) :
    s.pageKeys d o = s.pageParts d' entries (.ofOptions o) := by
  simp only [pageKeys, hdata, hentries]

theorem keyParts_page {c : Call} (hpage : c.request = .page) (hdata : c.options.data = none) :
    s.keyParts d c =
      s.extractionParts d (.ofOptions c.options) ++ s.pageKeys d c.options := by
  simp only [keyParts, hpage, hdata]
  rfl

theorem calls_append (m : Service × World) (events more : List Event) :
    calls m (events ++ more) = calls m events ++ calls (events.foldl step m) more := by
  induction events generalizing m with
  | nil => rfl
  | cons event events ih =>
    cases event with
    | change files outside => exact ih _
    | call c => exact congrArg ((c, m) :: ·) (ih _)

theorem Sound.run {events : List Event} (h : Sound asked seen home s w.disk)
    (hapart : Disk.Apart (s.places home))
    (hspares : ∀ files outside, .change files outside ∈ events →
      ∀ p ∈ s.places home, Disk.Spares p files)
    (hparts : ∀ parts ∈ hashed (s, w) events, parts ∈ asked)
    (hseen : ∀ page ∈ pagesAsked (s, w) events, page ∈ seen) :
    ∃ usage, (events.foldl step (s, w)).1 = { s with usage } ∧
      Sound asked seen home s (events.foldl step (s, w)).2.disk := by
  induction events generalizing s w with
  | nil => exact ⟨s.usage, rfl, h⟩
  | cons event events ih =>
    have hlater : ∀ files outside, .change files outside ∈ events →
        ∀ p ∈ s.places home, Disk.Spares p files :=
      fun files outside hmem => hspares files outside (List.mem_cons_of_mem _ hmem)
    cases event with
    | change files outside =>
      have hchanged := Disk.Keeps.spared h (hspares files outside List.mem_cons_self)
      exact ih hchanged hapart hlater hparts hseen
    | call c =>
      simp only [hashed_call, pagesAsked_call, List.mem_append] at hparts hseen
      have hnow : c.request = .page →
          ∀ parts ∈ s.pageKeys w.disk c.options, (parts, w.outside) ∈ seen := by
        intro hpage parts hmem
        refine hseen _ (.inl ?_)
        rw [if_pos hpage]
        exact List.mem_map_of_mem hmem
      have hreply := h.reply hapart (fun parts hmem => hparts parts (.inl hmem)) hnow
      obtain ⟨usage, hservice, hsound⟩ :=
        ih (s := { s with usage := s.usage.record c.name }) (w := { w with disk := (s.reply w c).2 })
          hreply hapart hlater (fun parts hmem => hparts parts (.inr hmem))
          fun page hmem => hseen page (.inr hmem)
      exact ⟨usage, hservice, hsound⟩

/-- Every call on a service whose caches start out empty is answered as by the service without
caches, if that service would have made the page alike each time that one with the same key was asked
for. -/
theorem answer_eq_bare {s s' : Service} {w w' : World} {events : List Event} {c : Call} {e : Disk}
    (hrun : events.foldl step (s, w) = (s', w'))
    (hvacant : ∀ p ∈ s.places w.disk.here, w.disk.Vacant p)
    (hapart : Disk.Apart (s.places w.disk.here))
    (hspares : ∀ files outside, .change files outside ∈ events →
      ∀ p ∈ s.places w.disk.here, Disk.Spares p files)
    (hfits : ∀ parts ∈ hashed (s, w) (events ++ [.call c]), Key.Fits parts)
    (hfree : Key.CollisionFree (hashed (s, w) (events ++ [.call c])))
    (hfinds : s'.FindsAlike w'.disk e c)
    (hsteady : ∀ parts ∈ s'.pageKeys w'.disk c.options,
      ∀ outside, (parts, outside) ∈ pagesAsked (s, w) events →
        (s.bare.answer ⟨e, outside⟩ c).1 = (s.bare.answer ⟨e, w'.outside⟩ c).1) :
    (s'.answer w' c).1 = (s.bare.answer ⟨e, w'.outside⟩ c).1 := by
  have hkeeps : Sound (hashed (s, w) (events ++ [.call c])) (pagesAsked (s, w) events) w.disk.here s
      w.disk := Disk.keeps_of_vacant hvacant
  have hcalls := calls_append (s, w) events [.call c]
  have hhashed : hashed (s, w) (events ++ [.call c]) =
      hashed (s, w) events ++ s'.keyParts w'.disk c := by
    rw [hashed, hcalls, List.flatMap_append, hrun]
    simp only [calls, List.flatMap_cons, List.flatMap_nil, List.append_nil]
    rfl
  obtain ⟨usage, hservice, hsound⟩ := hkeeps.run hapart hspares
    (fun parts hmem => hhashed ▸ List.mem_append_left _ hmem) fun page hmem => hmem
  rw [hrun] at hservice hsound
  cases hservice
  exact hsound.reply_eq hfree hfits hapart
    (fun parts hmem => hhashed ▸ List.mem_append_right _ hmem) hfinds hsteady

def variableOf (outside : Outside) (args : Template.Args) : Except String Json :=
  match Template.Filter.arg? args "name" with
  | some (.string name) =>
    match outside.environment.lookup name, Template.Filter.arg? args "default" with
    | some value, _ => .ok (.string value)
    | none, some value => .ok value
    | none, none => .error ("Environment variable \x60" ++ name ++ "\x60 not found")
  | some value =>
    .error ("Function \x60get_env\x60 received name=" ++ Template.Filter.shown value ++
      " but \x60name\x60 can only be a string")
  | none => .error "Function \x60get_env\x60 didn't receive a \x60name\x60 argument"

def ownFunctions (outside : Outside) : Template.Builtins :=
  { function? := fun name => if name = "get_env" then some (variableOf outside) else none }

def cachedService : Service :=
  { engine := Template.engine ownFunctions
    extracted := some "cache/explain"
    rendered := some "cache/render" }

theorem apart_cachedService : Disk.Apart (cachedService.places []) :=
  Disk.apart_of_length (n := 2) (by decide)

def sampleEntry : Entry :=
  { id := "a"
    name := "a"
    longname := "a"
    scope := some .globalScope
    tags := { description := some "A." }
    place := some { filename := "a.js", line := 2 } }

def stageTemplate : String := "\x7b\x7b get_env(name='STAGE', default='x') \x7d\x7d"

def pageOfFile : Call :=
  { request := .page, options := { files := ["a.js"], template := some stageTemplate } }

def pageOfEntry : Call :=
  { request := .page, options := { data := some [sampleEntry], template := some stageTemplate } }

def sampleWorld : World := { disk := { items := [(["a.js"], .file (some "/** A. */\nlet a"))] } }

def fileChange : Event :=
  .change (fun d => d.put ["a.js"] (.file (some "/** B. */\nlet b")))
    { environment := [("HOME", "/b")] }

def sampleRun : List Event := [.call pageOfFile, fileChange]

def fileParts : List String := ["0.1.0", "[false,null]", "a.js", "/** A. */\nlet a"]

def entryParts : List String :=
  RenderOptions.keyParts (.ofOptions pageOfEntry.options) [sampleEntry] {}

def textParts : List String := ["0.1.0", "[false,null]", "", "/** A. */"]

def fileKey : String := "7805318781f285013d6b5ff3d80b16554041a31349684687809a2ff8190af18a"

def entryKey : String := "314e8f5eeeec0a2e9de3ef736e26281d76ab4eb5fc87bc1582d792e1a045013a"

def textKey : String := "5093a8db404f40f010c2887bfaf05ce57c6eab089bbab766fe7edd2619dbf2f1"

theorem fits_fileParts : Key.Fits fileParts := by
  unfold Key.Fits
  decide +kernel

theorem fits_entryParts : Key.Fits entryParts := by
  unfold Key.Fits
  decide +kernel

theorem ofParts_fileParts : Key.ofParts fileParts = fileKey := by
  decide +kernel

theorem ofParts_entryParts : Key.ofParts entryParts = entryKey := by
  decide +kernel

theorem ofParts_textParts : Key.ofParts textParts = textKey := by
  decide +kernel

theorem collisionFree_of_two {ps qs : List String} (h : ∀ parts ∈ asked, parts = ps ∨ parts = qs)
    (hne : Key.ofParts ps ≠ Key.ofParts qs) : Key.CollisionFree asked := by
  intro ps' hps' qs' hqs' hdigest
  rcases h ps' hps' with rfl | rfl <;> rcases h qs' hqs' with rfl | rfl
  · rfl
  · exact absurd (congrArg Digest.hex hdigest) hne
  · exact absurd (congrArg Digest.hex hdigest).symm hne
  · rfl

theorem vacant_sampleWorld : ∀ p ∈ cachedService.places [], sampleWorld.disk.Vacant p := by
  have hitems : ∀ p ∈ cachedService.places [], ∀ item ∈ sampleWorld.disk.items,
      item.2 = .folder ∨ item.1 ≠ p ∧ item.1.dropLast ≠ p := by
    decide
  exact fun p hp => Disk.vacant_of_items (hitems p hp)

theorem entries_pageOfFile :
    (cachedService.entries sampleWorld.disk pageOfFile.options).1 = .ok [sampleEntry] := by
  have hsound : Sound [fileParts] [] [] cachedService sampleWorld.disk :=
    Disk.keeps_of_vacant vacant_sampleWorld
  have hfree : Key.CollisionFree [fileParts] := by
    intro ps hps qs hqs _
    rw [List.mem_singleton.mp hps, List.mem_singleton.mp hqs]
  have hfits : ∀ parts ∈ [fileParts], Key.Fits parts := by
    intro parts hmem
    rw [List.mem_singleton.mp hmem]
    exact fits_fileParts
  rw [hsound.entries_eq hfree hfits (by decide +kernel)]
  decide +kernel

theorem pageKeys_pageOfFile :
    cachedService.pageKeys sampleWorld.disk pageOfFile.options = [entryParts] := by
  have hmade := entries_pageOfFile
  rcases hentries : cachedService.entries sampleWorld.disk pageOfFile.options with ⟨made, d⟩
  rw [hentries] at hmade
  cases hmade
  rw [pageKeys_of_entries rfl hentries]
  rfl

theorem hashed_sampleRun :
    hashed (cachedService, sampleWorld) (sampleRun ++ [.call pageOfEntry]) =
      [fileParts, entryParts, entryParts] := by
  have hextraction : cachedService.extractionParts sampleWorld.disk
      (.ofOptions pageOfFile.options) = [fileParts] := by
    decide +kernel
  have hfirst : cachedService.keyParts sampleWorld.disk pageOfFile = [fileParts, entryParts] := by
    rw [keyParts_page rfl rfl, hextraction, pageKeys_pageOfFile]
    rfl
  have hlast (usage : Usage) (w : World) :
      hashed ({ cachedService with usage }, w) (fileChange :: [.call pageOfEntry]) = [entryParts] :=
    rfl
  show hashed (cachedService, sampleWorld) (.call pageOfFile :: _) = _
  rw [hashed_call, step_call, hfirst]
  exact congrArg (List.append [fileParts, entryParts]) (hlast _ _)

theorem pagesAsked_sampleRun :
    pagesAsked (cachedService, sampleWorld) sampleRun = [(entryParts, {})] := by
  have hpage : pageOfFile.request = .page := rfl
  show pagesAsked (cachedService, sampleWorld) (.call pageOfFile :: _) = _
  rw [pagesAsked_call, if_pos hpage, pageKeys_pageOfFile]
  rfl

theorem answer_eq_bare_sampleRun :
    (∀ p ∈ cachedService.places [], sampleWorld.disk.Vacant p) ∧
      Disk.Apart (cachedService.places []) ∧
      (∀ files outside, .change files outside ∈ sampleRun →
        ∀ p ∈ cachedService.places [], Disk.Spares p files) ∧
      (∀ parts ∈ hashed (cachedService, sampleWorld) (sampleRun ++ [.call pageOfEntry]),
        Key.Fits parts) ∧
      Key.CollisionFree (hashed (cachedService, sampleWorld) (sampleRun ++ [.call pageOfEntry])) ∧
      (∀ page ∈ pagesAsked (cachedService, sampleWorld) sampleRun,
        (cachedService.bare.answer ⟨{}, page.2⟩ pageOfEntry).1 = .ok (.page "x\n")) ∧
      ((sampleRun.foldl step (cachedService, sampleWorld)).1.answer
        (sampleRun.foldl step (cachedService, sampleWorld)).2 pageOfEntry).1 = .ok (.page "x\n") := by
  have hspares : ∀ files outside, .change files outside ∈ sampleRun →
      ∀ p ∈ cachedService.places [], Disk.Spares p files := by
    intro files outside hmem p hp
    simp only [sampleRun, fileChange, List.mem_cons, reduceCtorEq, false_or, Event.change.injEq,
      List.not_mem_nil, or_false] at hmem
    obtain ⟨rfl, -⟩ := hmem
    have hother : ∀ p ∈ cachedService.places [], ["a.js"] ≠ p ∧ [] ≠ p := by decide
    exact Disk.spares_put (List.cons_ne_nil _ _) (hother p hp).1 (hother p hp).2
  have hparts : ∀ parts ∈ hashed (cachedService, sampleWorld) (sampleRun ++ [.call pageOfEntry]),
      parts = fileParts ∨ parts = entryParts := by
    rw [hashed_sampleRun]
    intro parts hmem
    simpa using hmem
  have hfits : ∀ parts ∈ hashed (cachedService, sampleWorld) (sampleRun ++ [.call pageOfEntry]),
      Key.Fits parts := by
    intro parts hmem
    rcases hparts parts hmem with rfl | rfl
    · exact fits_fileParts
    · exact fits_entryParts
  have hne : Key.ofParts fileParts ≠ Key.ofParts entryParts := by
    rw [ofParts_fileParts, ofParts_entryParts]
    decide
  have hfree := collisionFree_of_two hparts hne
  have hearlier : ∀ page ∈ pagesAsked (cachedService, sampleWorld) sampleRun,
      (cachedService.bare.answer ⟨{}, page.2⟩ pageOfEntry).1 = .ok (.page "x\n") := by
    rw [pagesAsked_sampleRun]
    intro page hmem
    rw [List.mem_singleton.mp hmem]
    decide +kernel
  have hnow : (cachedService.bare.answer ⟨{}, { environment := [("HOME", "/b")] }⟩ pageOfEntry).1 =
      .ok (.page "x\n") := by
    decide +kernel
  -- Without template files a disk does not matter.
  have hload (d e : Disk) : UserTemplates.load d (.ofOptions pageOfEntry.options) =
      UserTemplates.load e (.ofOptions pageOfEntry.options) := rfl
  refine ⟨vacant_sampleWorld, apart_cachedService, hspares, hfits, hfree, hearlier, ?_⟩
  refine (answer_eq_bare (Prod.eta _).symm vacant_sampleWorld apart_cachedService hspares hfits hfree
    (hload _ _) ?_).trans hnow
  intro parts _ outside hmem
  exact (hearlier _ hmem).trans hnow.symm

def pageOfCache : Call :=
  { request := .page
    options := { source := some "/** A. */", helpers := ["cache/explain"], template := some "x" } }

def storedDoclets : String :=
  "[\x7b\"kind\":\"package\",\"name\":\"\",\"longname\":\"package:undefined\"\x7d]"

def extractedDisk : Disk :=
  { items :=
      [ (["cache", "explain", textKey ++ ".json"], .file (some storedDoclets)),
        (["cache", "explain"], .folder), (["cache"], .folder) ] }

theorem entries_pageOfCache :
    cachedService.entries {} pageOfCache.options = (.ok [], extractedDisk) := by
  have hdoclets : cachedService.doclets {} pageOfCache.options =
      through {} (some "cache/explain") true Doclet.codec.list textParts
        ((extract false [{ text := "/** A. */" }]).mapError Failure.ofProblem) :=
    rfl
  rw [entries, hdoclets, through_of_key ofParts_textParts]
  decide +kernel

def cacheTemplates : UserTemplates :=
  { helpers :=
      [ { name := textKey
          path := "cache/explain/" ++ textKey ++ ".json"
          content := storedDoclets } ] }

def cacheParts : List String :=
  RenderOptions.keyParts (.ofOptions pageOfCache.options) [] cacheTemplates

theorem load_pageOfCache :
    UserTemplates.load extractedDisk (.ofOptions pageOfCache.options) = .ok cacheTemplates := by
  decide +kernel

theorem page_pageOfCache : (cachedService.page {} pageOfCache.options).1 = .ok "x\n" := by
  have hdata : pageOfCache.options.data = none := rfl
  have hvacant : ∀ p ∈ [["cache", "render"]], extractedDisk.Vacant p := by
    have hitems : ∀ p ∈ [["cache", "render"]], ∀ item ∈ extractedDisk.items,
        item.2 = .folder ∨ item.1 ≠ p ∧ item.1.dropLast ≠ p := by
      decide
    exact fun p hp => Disk.vacant_of_items (hitems p hp)
  have hkeeps : extractedDisk.Keeps [] [["cache", "render"]] fun _ _ => False :=
    Disk.keeps_of_vacant hvacant
  have hfolder : ∀ f ∈ some "cache/render", extractedDisk.place f ∈ [["cache", "render"]] := by
    intro f hf
    cases hf
    decide
  have hmade : (render cachedService.engine {} [] (.ofOptions pageOfCache.options)
      cacheTemplates).mapError Failure.ofProblem = .ok "x\n" := by
    decide +kernel
  simp only [page, hdata, entries_pageOfCache, pageOf, load_pageOfCache, hmade]
  exact through_eq hkeeps hfolder Codec.lossless_text fun _ _ => False.elim

theorem hashed_pageOfCache :
    hashed (cachedService, {}) [.call pageOfCache] = [textParts, cacheParts] := by
  have hextraction : cachedService.extractionParts {} (.ofOptions pageOfCache.options) =
      [textParts] := by
    decide +kernel
  have hpage : cachedService.pageParts extractedDisk [] (.ofOptions pageOfCache.options) =
      [cacheParts] := by
    rw [pageParts, load_pageOfCache]
    rfl
  have hparts : cachedService.keyParts {} pageOfCache = [textParts, cacheParts] := by
    rw [keyParts_page rfl rfl, pageKeys_of_entries rfl entries_pageOfCache, hpage, hextraction]
    rfl
  rw [hashed_call, hparts]
  rfl

def stageWorld (stage : String) : World := { outside := { environment := [("STAGE", stage)] } }

def stageRun : List Event := [.call pageOfEntry, .change id (stageWorld "two").outside]

def pageDisk : Disk :=
  { items :=
      [ (["cache", "render", entryKey ++ ".json"], .file (some "\"one\\n\"")),
        (["cache", "render"], .folder), (["cache"], .folder) ] }

def stagePage (outside : Outside) : Except Failure String :=
  (render cachedService.engine outside [sampleEntry] (.ofOptions pageOfEntry.options) {}).mapError
    Failure.ofProblem

theorem page_pageOfEntry (hengine : s.engine = cachedService.engine)
    (hrendered : s.rendered = some "cache/render") (w : World) :
    s.page w pageOfEntry.options =
      through w.disk (some "cache/render") true Codec.text entryParts (stagePage w.outside) := by
  have hload : UserTemplates.load w.disk (.ofOptions pageOfEntry.options) = .ok {} := rfl
  have hdata : pageOfEntry.options.data = some [sampleEntry] := rfl
  simp only [page, hdata, pageOf, hload, hengine, hrendered]
  rfl

theorem page_one (hengine : s.engine = cachedService.engine)
    (hrendered : s.rendered = some "cache/render") :
    s.page (stageWorld "one") pageOfEntry.options = (.ok "one\n", pageDisk) := by
  rw [page_pageOfEntry hengine hrendered, through_of_key ofParts_entryParts]
  decide +kernel

theorem page_two (hengine : s.engine = cachedService.engine)
    (hrendered : s.rendered = some "cache/render") :
    (s.page ⟨pageDisk, (stageWorld "two").outside⟩ pageOfEntry.options).1 = .ok "one\n" := by
  rw [page_pageOfEntry hengine hrendered, through_of_key ofParts_entryParts]
  decide +kernel

theorem run_stageRun : stageRun.foldl step (cachedService, stageWorld "one") =
    ({ cachedService with usage := cachedService.usage.record pageOfEntry.name },
      ⟨pageDisk, (stageWorld "two").outside⟩) := by
  rw [stageRun, List.foldl_cons, step_call, reply_page rfl, page_one rfl rfl]
  rfl

theorem hashed_stageRun :
    hashed (cachedService, stageWorld "one") (stageRun ++ [.call pageOfEntry]) =
      [entryParts, entryParts] := by
  have hparts (usage : Usage) (d : Disk) :
      ({ cachedService with usage } : Service).keyParts d pageOfEntry = [entryParts] :=
    rfl
  have hlast (usage : Usage) (w : World) : hashed ({ cachedService with usage }, w)
      [.change id (stageWorld "two").outside, .call pageOfEntry] = [entryParts] :=
    rfl
  show hashed (cachedService, stageWorld "one") (.call pageOfEntry :: _) = _
  rw [hashed_call, step_call, hparts cachedService.usage]
  exact congrArg (List.append [entryParts]) (hlast _ _)

/-- A page may be made of what the caches hold, and one that shows a variable is not made anew when
the variable changes. -/
theorem caches_show :
    (∀ p ∈ cachedService.places [], ({} : Disk).Vacant p) ∧
      Disk.Apart (cachedService.places []) ∧
      (Key.CollisionFree (hashed (cachedService, {}) [.call pageOfCache]) ∧
        (cachedService.answer {} pageOfCache).1 = .ok (.page "x\n") ∧
        (cachedService.bare.answer {} pageOfCache).1 =
          .error (.ofProblem (.templateFile "cache/explain" "no such file or directory"))) ∧
      (∀ p, Disk.Spares p id) ∧
      Key.CollisionFree
        (hashed (cachedService, stageWorld "one") (stageRun ++ [.call pageOfEntry])) ∧
      ((stageRun.foldl step (cachedService, stageWorld "one")).1.answer
        (stageRun.foldl step (cachedService, stageWorld "one")).2 pageOfEntry).1 =
          .ok (.page "one\n") ∧
      (cachedService.bare.answer (stageRun.foldl step (cachedService, stageWorld "one")).2
        pageOfEntry).1 = .ok (.page "two\n") := by
  have hvacant : ∀ p ∈ cachedService.places [], ({} : Disk).Vacant p :=
    fun p _ => Disk.vacant_of_items (List.forall_mem_nil _)
  have hcacheKey : Key.ofParts textParts ≠ Key.ofParts cacheParts := by
    rw [ofParts_textParts]
    decide +kernel
  have hcacheParts : ∀ parts ∈ hashed (cachedService, {}) [.call pageOfCache],
      parts = textParts ∨ parts = cacheParts := by
    rw [hashed_pageOfCache]
    intro parts hmem
    simpa using hmem
  have hstageKey : Key.ofParts entryParts ≠ Key.ofParts textParts := by
    rw [ofParts_entryParts, ofParts_textParts]
    decide
  have hstageParts : ∀ parts ∈ hashed (cachedService, stageWorld "one")
      (stageRun ++ [.call pageOfEntry]), parts = entryParts ∨ parts = textParts := by
    rw [hashed_stageRun]
    intro parts hmem
    exact .inl (by simpa using hmem)
  refine ⟨hvacant, apart_cachedService, ⟨collisionFree_of_two hcacheParts hcacheKey, ?_, ?_⟩,
    fun p d q content _ hfile => hfile, collisionFree_of_two hstageParts hstageKey, ?_, ?_⟩
  · rw [answer_page rfl, page_pageOfCache]
    rfl
  · decide +kernel
  · rw [run_stageRun, answer_page rfl]
    exact congrArg (Except.map Answer.page) (page_two rfl rfl)
  · rw [run_stageRun]
    decide +kernel

end Service

end ApiPages
