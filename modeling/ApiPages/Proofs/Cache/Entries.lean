import ApiPages.Proofs.Cache.Keys
import ApiPages.Proofs.Files.Places

/-!
What the folders of caches hold. Files get into them by writes under a key only, so a property that
every stored text has stays true through reads, writes and clearing of any of the caches, and while
others change what is around. Main statement: if what is stored under a key is what is computed, a
result through the cache is the one that is computed.
-/
namespace ApiPages.Cache

def place (c : Cache) : Route := c.disk.place c.folder

def IsKey (key : String) : Prop := key ≠ "" ∧ '/' ∉ key.toList

variable {c : Cache} {key : String}

theorem isName_append (hkey : IsKey key) {suffix : String} (hlength : 2 < suffix.toList.length)
    (hsuffix : '/' ∉ suffix.toList) : Path.IsName (key ++ suffix).toList := by
  rw [String.toList_append]
  refine ⟨fun hmem => ?_, fun hmem => ?_⟩
  · rcases List.mem_append.mp hmem with hmem | hmem
    · exact hkey.2 hmem
    · exact hsuffix hmem
  · have hshort : ∀ name ∈ [[], ['.'], ['.', '.']], name.length ≤ 2 := by decide
    have := hshort _ hmem
    rw [List.length_append] at this
    omega

theorem isName_entry (hkey : IsKey key) : Path.IsName (key ++ ".json").toList :=
  isName_append hkey (by decide) (by decide)

theorem isName_draft (hkey : IsKey key) : Path.IsName (key ++ ".json.tmp").toList :=
  isName_append hkey (by decide) (by decide)

theorem splitName_entry (hkey : IsKey key) :
    Path.splitName (key ++ ".json") = (key, some "json") := by
  have hne : key.toList.reverse ≠ [] :=
    fun hnil => hkey.1 (String.toList_eq_nil_iff.mp (List.reverse_eq_nil_iff.mp hnil))
  have hsplit : Text.splitFirst? '.' (key ++ ".json").toList.reverse =
      some (['n', 'o', 's', 'j'], key.toList.reverse) := by
    rw [String.toList_append, List.reverse_append]
    rfl
  rw [Path.splitName, hsplit]
  simp [hne]

theorem draft_eq (hkey : IsKey key) : c.draft key = Path.join c.folder (key ++ ".json.tmp") := by
  have hname : (Path.splitName (key ++ ".json")).1 ++ "." ++ "json.tmp" = key ++ ".json.tmp" := by
    rw [splitName_entry hkey, String.append_assoc]
    rfl
  rw [draft, entry, Path.withExtension_join (isName_entry hkey), hname]
  rw [hname]
  exact (isName_draft hkey).1

theorem place_entry (hkey : IsKey key) : c.disk.place (c.entry key) = c.place ++ [key ++ ".json"] :=
  c.disk.place_join (isName_entry hkey) c.folder

theorem place_draft (hkey : IsKey key) :
    c.disk.place (c.draft key) = c.place ++ [key ++ ".json.tmp"] := by
  rw [draft_eq hkey]
  exact c.disk.place_join (isName_draft hkey) c.folder

theorem writeText_files (hkey : IsKey key) (text : String) :
    (c.writeText key text).2.disk.here = c.disk.here ∧
      ∀ p content, (c.writeText key text).2.disk.HasFile p content →
        c.disk.HasFile p content ∨ content = some text ∧
          (p = c.place ++ [key ++ ".json"] ∨ p = c.place ++ [key ++ ".json.tmp"]) := by
  rw [writeText]
  -- The folder is made, the draft is written and then moved; whatever fails leaves the rest undone.
  split
  · exact ⟨rfl, fun _ _ hfile => .inl hfile⟩
  next d hfolders =>
  obtain ⟨hhere, hfiles⟩ := Disk.makeFolders?_files hfolders
  split
  · exact ⟨hhere, fun p content hfile => .inl (hfiles p content hfile)⟩
  next d' hwrite =>
  obtain ⟨hhere', hdraft, hfiles'⟩ := Disk.write?_files hwrite
  rw [Disk.place_congr hhere, place_draft hkey] at hdraft hfiles'
  have hwritten : ∀ p content, d'.HasFile p content → c.disk.HasFile p content ∨
      content = some text ∧ p = c.place ++ [key ++ ".json.tmp"] := by
    intro p content hfile
    rcases hfiles' p content hfile with hfile | ⟨hp, hcontent⟩
    · exact .inl (hfiles p content hfile)
    · cases hcontent
      exact .inr ⟨rfl, hp⟩
  have hplace (path : String) : d'.place path = c.disk.place path :=
    Disk.place_congr (hhere'.trans hhere) path
  split
  · refine ⟨hhere'.trans hhere, fun p content hfile => ?_⟩
    rcases hwritten p content hfile with hfile | ⟨hcontent, hp⟩
    · exact .inl hfile
    · exact .inr ⟨hcontent, .inr hp⟩
  next d'' hmove =>
  obtain ⟨hhere'', hfiles''⟩ := Disk.move?_files hmove
  rw [hplace, hplace, place_draft hkey, place_entry hkey] at hfiles''
  refine ⟨hhere''.trans (hhere'.trans hhere), fun p content hfile => ?_⟩
  rcases hfiles'' p content hfile with hfile | ⟨hp, hfile⟩
  · rcases hwritten p content hfile with hfile | ⟨hcontent, hp⟩
    · exact .inl hfile
    · exact .inr ⟨hcontent, .inr hp⟩
  · rw [Disk.HasFile, hdraft] at hfile
    cases hfile
    exact .inr ⟨rfl, .inl hp⟩

theorem entry_ne_draft (key key' : String) : key ++ ".json" ≠ key' ++ ".json.tmp" := by
  intro he
  have hentry : (key ++ ".json").toList.getLast? = some 'n' := by
    rw [String.toList_append, List.getLast?_append]
    rfl
  have hdraft : (key' ++ ".json.tmp").toList.getLast? = some 'p' := by
    rw [String.toList_append, List.getLast?_append]
    rfl
  rw [he, hdraft] at hentry
  exact absurd hentry (by decide)

theorem isKey_ofParts (parts : List String) : IsKey (Key.ofParts parts) :=
  ⟨Key.ofParts_ne_empty parts, Key.slash_not_mem_ofParts parts⟩

end ApiPages.Cache

namespace ApiPages.Disk

def Vacant (d : Disk) (p : Route) : Prop :=
  (∀ content, ¬ d.HasFile p content) ∧ ∀ name content, ¬ d.HasFile (p ++ [name]) content

theorem vacant_of_items {d : Disk} {p : Route}
    (h : ∀ item ∈ d.items, item.2 = .folder ∨ item.1 ≠ p ∧ item.1.dropLast ≠ p) : d.Vacant p := by
  have hmem {q : Route} {content : Option String} (hfile : d.HasFile q content) :
      (q, .file content) ∈ d.items := by
    have hq := hfile.ne_nil
    rw [HasFile, itemAt?, if_neg hq] at hfile
    obtain ⟨before, after, hsplit, -⟩ := List.lookup_eq_some_iff.mp hfile
    rw [hsplit]
    exact List.mem_append_right _ List.mem_cons_self
  refine ⟨fun content hfile => ?_, fun name content hfile => ?_⟩
  · rcases h _ (hmem hfile) with hfolder | ⟨hne, -⟩
    · cases hfolder
    · exact hne rfl
  · rcases h _ (hmem hfile) with hfolder | ⟨-, hne⟩
    · cases hfolder
    · exact hne List.dropLast_concat

/-- None of the places has the name of an entry or of a draft in another one. -/
def Apart (places : List Route) : Prop :=
  ∀ p ∈ places, ∀ q ∈ places, ∀ key, q ≠ p ++ [key ++ ".json"] ∧ q ≠ p ++ [key ++ ".json.tmp"]

theorem apart_of_length {places : List Route} {n : Nat} (h : ∀ p ∈ places, p.length = n) :
    Apart places := by
  intro p hp q hq key
  have hlonger (name : String) : q ≠ p ++ [name] := by
    intro he
    have := congrArg List.length he
    rw [List.length_append, h p hp, h q hq, List.length_singleton] at this
    omega
  exact ⟨hlonger _, hlonger _⟩

structure Keeps (home : Route) (places : List Route) (P : String → String → Prop) (d : Disk) :
    Prop where
  here : d.here = home
  folder : ∀ p ∈ places, ∀ content, ¬ d.HasFile p content
  entry : ∀ p ∈ places, ∀ key text, d.HasFile (p ++ [key ++ ".json"]) (some text) → P key text

variable {home : Route} {places : List Route} {P : String → String → Prop}

theorem keeps_of_vacant {d : Disk} (h : ∀ p ∈ places, d.Vacant p) : d.Keeps d.here places P :=
  ⟨rfl, fun p hp => (h p hp).1, fun p hp _ _ hfile => absurd hfile ((h p hp).2 _ _)⟩

theorem Keeps.spared {d : Disk} (h : d.Keeps home places P) {change : Disk → Disk}
    (hspares : ∀ p ∈ places, Spares p change) :
    ({ change d with here := d.here } : Disk).Keeps home places P := by
  refine ⟨h.here, fun p hp content hfile => ?_, fun p hp key text hfile => ?_⟩
  · exact h.folder p hp content (hspares p hp d _ _ (.inl rfl) hfile)
  · exact h.entry p hp key text (hspares p hp d _ _ (.inr ⟨_, rfl⟩) hfile)

section Cache

variable {c : Cache} {key : String} (h : c.disk.Keeps home places P) (hplace : c.place ∈ places)
include h hplace

theorem Keeps.writeText (hapart : Apart places) (hkey : Cache.IsKey key) {text : String}
    (hP : P key text) : (c.writeText key text).2.disk.Keeps home places P := by
  obtain ⟨hhere, hfiles⟩ := Cache.writeText_files hkey text
  refine ⟨hhere.trans h.here, fun p hp content hfile => ?_, fun p hp key' text' hfile => ?_⟩
  · rcases hfiles _ _ hfile with hfile | ⟨-, he | he⟩
    · exact h.folder p hp content hfile
    · exact (hapart _ hplace p hp _).1 he
    · exact (hapart _ hplace p hp _).2 he
  · rcases hfiles _ _ hfile with hfile | ⟨htext, he | he⟩
    · exact h.entry p hp key' text' hfile
    · obtain ⟨-, hname⟩ := List.append_singleton_inj.mp he
      cases htext
      rw [(String.append_left_inj _).mp hname]
      exact hP
    · obtain ⟨-, hname⟩ := List.append_singleton_inj.mp he
      exact absurd hname (Cache.entry_ne_draft key' key)

theorem Keeps.clear : c.clear.1 = .ok () ∧ c.clear.2.disk.Keeps home places P := by
  rw [Cache.clear]
  split
  · next hholds =>
    obtain ⟨p, hfind⟩ := Option.isSome_iff_exists.mp hholds
    obtain ⟨rfl, hsome⟩ := find?_eq hfind
    have hfolder : c.disk.isFolderAt (c.disk.place c.folder) = true := by
      obtain ⟨i, hi⟩ := Option.isSome_iff_exists.mp hsome
      cases i with
      | folder => rw [isFolderAt, hi]; rfl
      | file content => exact absurd hi (h.folder _ hplace content)
    have hremove :
        c.disk.removeFolder? c.folder = some (c.disk.cutOff (c.disk.place c.folder)) := by
      rw [removeFolder?, hfind, Option.bind_some, if_pos hfolder]
    rw [hremove]
    exact ⟨rfl, h.here, fun p hp content hfile => h.folder p hp content hfile.of_cutOff,
      fun p hp key text hfile => h.entry p hp key text hfile.of_cutOff⟩
  · exact ⟨rfl, h⟩

variable {α : Type} {codec : Codec α} (hkey : Cache.IsKey key)
include hkey

theorem Keeps.read? {value : α} (hread : c.read? codec key = some value) :
    ∃ text, P key text ∧ (Json.parseBounded? text).bind codec.decode = some value := by
  rw [Cache.read?, Option.bind_assoc] at hread
  obtain ⟨text, htext, hvalue⟩ := Option.bind_eq_some_iff.mp hread
  have hfile := readText?_eq htext
  rw [Cache.place_entry hkey] at hfile
  exact ⟨text, h.entry _ hplace key text hfile, hvalue⟩

theorem Keeps.memo (hapart : Apart places) {compute : Except Failure α}
    (hcompute : ∀ value, compute = .ok value → P key (codec.encode value).compact) :
    (c.memo codec key compute).2.disk.Keeps home places P := by
  unfold Cache.memo
  split
  · exact h
  · cases compute with
    | ok value => exact h.writeText hplace hapart hkey (hcompute value rfl)
    | error f => exact h

theorem Keeps.memo_eq (hcodec : codec.Lossless Json.depthLimit) {compute : Except Failure α}
    (hstored : ∀ text, P key text →
      ∃ value, compute = .ok value ∧ text = (codec.encode value).compact) :
    (c.memo codec key compute).1 = compute := by
  unfold Cache.memo
  split
  · next value hread =>
    obtain ⟨text, htext, hvalue⟩ := h.read? hplace hkey hread
    obtain ⟨stored, hcompute, rfl⟩ := hstored text htext
    rw [Json.parseBounded?_compact (hcodec.plain stored), Option.bind_some,
      hcodec.decode_encode] at hvalue
    rw [hcompute, Option.some.inj hvalue]
  · cases compute <;> rfl

end Cache

end ApiPages.Disk
