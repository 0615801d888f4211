import ApiPages.Proofs.Cache.Entries
import ApiPages.Proofs.Files.Folders
import ApiPages.Proofs.Json.Canonical
import Mathlib.Data.List.Dedup

/-!
A cache is a map: from an absent folder on, what is read under a key is what was last written under
it. Main statement: this holds after every sequence of calls, and on every disk a write that is
refused changes neither what is read nor the size.
-/
namespace ApiPages

def Item.text? : Item → Option String
  | .file content => content
  | .folder => none

namespace Cache

variable {c c' : Cache} {key text name : String}

structure Placed (c : Cache) : Prop where
  sound : c.disk.Sound
  straight : c.disk.Straight c.folder

def item? (c : Cache) (name : String) : Option Item := c.disk.itemAt? (c.place ++ [name])

theorem Placed.readText? (h : c.Placed) (hkey : IsKey key) :
    c.disk.readText? (c.entry key) = (c.item? (key ++ ".json")).bind Item.text? := by
  have hitem : c.disk.item? (c.entry key) = c.item? (key ++ ".json") :=
    h.sound.item?_join h.straight (isName_entry hkey)
  rw [Disk.readText?, hitem]
  cases c.item? (key ++ ".json") with
  | none => rfl
  | some i => cases i <;> rfl

theorem Placed.entries (h : c.Placed) (hfolder : c.folder ≠ "") :
    c.entries = (c.disk.children c.place).filter isEntry := by
  have hfind : c.disk.find? c.folder = c.disk.reach? c.folder := if_neg hfolder
  rw [Cache.entries, Disk.list?, hfind]
  congr 1
  rw [h.sound.reach?_bind h.straight fun p hp => by rw [hp]; rfl]
  split
  · rfl
  next hplain =>
  -- Nothing stands in what is no folder.
  symm
  rw [Option.getD_none, List.eq_nil_iff_forall_not_mem]
  intro name hname
  have hparent := h.sound.parent _ (Disk.mem_children.mp hname)
  rw [List.dropLast_concat] at hparent
  exact hplain hparent

theorem Placed.mem_entries (h : c.Placed) (hfolder : c.folder ≠ "") :
    name ∈ c.entries ↔ isEntry name = true ∧ (c.item? name).isSome = true := by
  rw [h.entries hfolder, List.mem_filter, Disk.mem_children, and_comm]
  rfl

theorem Placed.entries_nodup (h : c.Placed) (hfolder : c.folder ≠ "") : c.entries.Nodup := by
  rw [h.entries hfolder]
  exact (h.sound.children_nodup c.place).filter _

theorem size_congr (h : c.Placed) (h' : c'.Placed) (hfolder : c'.folder = c.folder)
    (hitem : ∀ name, isEntry name = true → c'.item? name = c.item? name) : c'.size = c.size := by
  by_cases hempty : c.folder = ""
  · have hnone (d : Disk) : d.find? "" = none := if_pos rfl
    rw [size, size, Cache.entries, Cache.entries, hfolder, hempty, Disk.list?, Disk.list?, hnone,
      hnone]
    rfl
  · have hempty' : c'.folder ≠ "" := by rwa [hfolder]
    refine ((List.perm_ext_iff_of_nodup (h'.entries_nodup hempty') (h.entries_nodup hempty)).mpr
      fun name => ?_).length_eq
    rw [h'.mem_entries hempty', h.mem_entries hempty]
    exact and_congr_right fun hentry => by rw [hitem name hentry]

/-- A step from a cache to another one that stays well placed and leaves alone what stands in the
folder under other names than some. -/
structure Keeping (touched : String → Prop) (c c' : Cache) : Prop where
  placed : c'.Placed
  folder : c'.folder = c.folder
  here : c'.disk.here = c.disk.here
  item : ∀ name, ¬ touched name → c'.item? name = c.item? name

variable {touched : String → Prop} {d : Disk} {i : Item}

theorem Keeping.place (h : Keeping touched c c') : c'.place = c.place := by
  rw [Cache.place, Cache.place, h.folder, Disk.place_congr h.here]

theorem Keeping.trans {c'' : Cache} (h : Keeping touched c c') (h' : Keeping touched c' c'') :
    Keeping touched c c'' where
  placed := h'.placed
  folder := h'.folder.trans h.folder
  here := h'.here.trans h.here
  item name hname := (h'.item name hname).trans (h.item name hname)

theorem Keeping.weaken {touched' : String → Prop} (h : Keeping touched c c')
    (hsub : ∀ name, touched name → touched' name) : Keeping touched' c c' :=
  ⟨h.placed, h.folder, h.here, fun name hname => h.item name fun ht => hname (hsub name ht)⟩

theorem Keeping.isFolderAt (h : Keeping touched c c') (hname : ¬ touched name) :
    c'.disk.isFolderAt (c'.place ++ [name]) = c.disk.isFolderAt (c.place ++ [name]) := by
  rw [Disk.isFolderAt, Disk.isFolderAt, ← item?, ← item?, h.item name hname]

theorem Placed.opened (h : c.Placed) (hopened : Disk.Opened c.place c.disk d) :
    Keeping touched c { c with disk := d } := by
  have hplace : d.place c.folder = c.place := Disk.place_congr hopened.here c.folder
  refine ⟨⟨hopened.sound, h.straight.congr hopened.here fun q _ _ => hopened.isFolderAt⟩, rfl,
    hopened.here, fun name _ => ?_⟩
  show d.itemAt? (d.place c.folder ++ [name]) = c.item? name
  rw [hplace]
  exact hopened.itemAt?_below name

theorem Placed.put (h : c.Placed) (hfolder : c.disk.isFolderAt c.place = true)
    (hplain : c.disk.isFolderAt (c.place ++ [name]) = false) (i : Item) :
    Keeping (· = name) c { c with disk := c.disk.put (c.place ++ [name]) i } := by
  refine ⟨⟨?_, h.straight.congr rfl fun q _ _ hq => ?_⟩, rfl, rfl, fun other hother => ?_⟩
  · exact h.sound.put (by simp) (by rwa [List.dropLast_concat]) (.inr hplain)
  · have hne : q ≠ c.place ++ [name] := by
      rintro rfl
      rw [hplain] at hq
      cases hq
    rw [Disk.isFolderAt_iff, Disk.itemAt?_put_of_ne c.disk i hne]
    exact Disk.isFolderAt_iff.mp hq
  · show (c.disk.put _ i).itemAt? (c.place ++ [other]) = c.disk.itemAt? (c.place ++ [other])
    exact Disk.itemAt?_put_of_ne c.disk i fun he => hother (by simpa using he)

theorem Placed.cutOff (h : c.Placed) (hplain : c.disk.isFolderAt (c.place ++ [name]) = false) :
    Keeping (· = name) c { c with disk := c.disk.cutOff (c.place ++ [name]) } := by
  refine ⟨⟨h.sound.cutOff (h.sound.not_above_here hplain), h.straight.congr rfl fun q _ _ hq => ?_⟩,
    rfl, rfl, fun other hother => ?_⟩
  · have hbeside : ¬ c.place ++ [name] <+: q := by
      intro habove
      rw [h.sound.isFolderAt_of_folder hq habove] at hplain
      cases hplain
    rw [Disk.isFolderAt_iff, Disk.itemAt?_cutOff_beside hbeside]
    exact Disk.isFolderAt_iff.mp hq
  · show (c.disk.cutOff _).itemAt? (c.place ++ [other]) = c.disk.itemAt? (c.place ++ [other])
    refine Disk.itemAt?_cutOff_beside fun habove => hother ?_
    have he := habove.eq_of_length (by simp)
    simpa using he.symm

theorem Placed.isFolderAt_place (h : c.Placed) (hitem : c.item? name = some i) :
    c.disk.isFolderAt c.place = true := by
  have hparent := h.sound.parent (c.place ++ [name]) (by rw [← item?, hitem]; rfl)
  rwa [List.dropLast_concat] at hparent

theorem Placed.write? (h : c.Placed) (hname : Path.IsName name.toList)
    (hwrite : c.disk.write? (Path.join c.folder name) i = some d) :
    Keeping (· = name) c { c with disk := d } ∧ ({ c with disk := d } : Cache).item? name = some i := by
  obtain ⟨p, hslot, rfl⟩ := Option.map_eq_some_iff.mp hwrite
  rw [h.sound.slot?_join h.straight hname, Option.ite_none_right_eq_some] at hslot
  obtain ⟨⟨hfolder, hplain⟩, hp⟩ := hslot
  cases hp
  exact ⟨h.put hfolder (Bool.eq_false_iff.mpr hplain) i, Disk.itemAt?_put c.disk _ i (by simp)⟩

theorem Placed.move? (h : c.Placed) {source target : String} {content : Option String}
    (hsource : Path.IsName source.toList) (htarget : Path.IsName target.toList)
    (hne : target ≠ source) (hitem : c.item? source = some (.file content))
    (hmove : c.disk.move? (Path.join c.folder source) (Path.join c.folder target) = some d) :
    Keeping (fun name => name = source ∨ name = target) c { c with disk := d } ∧
      ({ c with disk := d } : Cache).item? target = some (.file content) := by
  have hthere : c.disk.itemAt? (c.disk.place c.folder ++ [source]) = some (.file content) := hitem
  have hfind : c.disk.find? (Path.join c.folder source) = some (c.place ++ [source]) := by
    rw [h.sound.find?_join h.straight hsource, hthere]
    rfl
  simp only [Disk.move?, hfind, Option.bind_eq_bind, Option.bind_some, Option.bind_eq_some_iff,
    Option.pure_def, Option.some.injEq] at hmove
  obtain ⟨j, hj, q, hslot, rfl⟩ := hmove
  cases hthere.symm.trans hj
  rw [h.sound.slot?_join h.straight htarget, Option.ite_none_right_eq_some] at hslot
  obtain ⟨⟨hfolder, hplain⟩, hq⟩ := hslot
  cases hq
  have hfile : c.disk.isFolderAt (c.place ++ [source]) = false := by
    rw [Disk.isFolderAt, hj]
    rfl
  have hcut := h.cutOff hfile
  have hcutFolder : (c.disk.cutOff (c.place ++ [source])).isFolderAt c.place = true := by
    have hbeside : ¬ c.place ++ [source] <+: c.place := by
      intro habove
      have hlength := habove.length_le
      rw [List.length_append, List.length_singleton] at hlength
      omega
    rw [Disk.isFolderAt_iff, Disk.itemAt?_cutOff_beside hbeside]
    exact Disk.isFolderAt_iff.mp hfolder
  have hcutTarget : (c.disk.cutOff (c.place ++ [source])).isFolderAt (c.place ++ [target]) = false :=
    (hcut.isFolderAt hne).trans (Bool.eq_false_iff.mpr hplain)
  exact ⟨(hcut.weaken fun _ => .inl).trans ((hcut.placed.put hcutFolder hcutTarget _).weaken
    fun _ => .inr), Disk.itemAt?_put _ _ _ (by simp)⟩

/-- A write that succeeds stores the text under its key; one that is refused stores nothing. Only the
draft is another name that may be touched. -/
theorem Placed.writeText (h : c.Placed) (hkey : IsKey key) (text : String) :
    Keeping (fun name => name = key ++ ".json" ∨ name = key ++ ".json.tmp") c
        (c.writeText key text).2 ∧
      ((c.writeText key text).2.disk = c.disk ∨
        (c.writeText key text).2.disk.isFolderAt c.place = true) ∧
      (c.writeText key text).2.item? (key ++ ".json") =
        match (c.writeText key text).1 with
        | .ok _ => some (.file (some text))
        | .error _ => c.item? (key ++ ".json") := by
  rw [Cache.writeText, draft_eq hkey]
  split
  · exact ⟨⟨h, rfl, rfl, fun _ _ => rfl⟩, .inl rfl, rfl⟩
  next d₁ hmake =>
  obtain ⟨hopened, hfolder⟩ := h.sound.makeFolders? h.straight hmake
  have hmade : Keeping (fun _ => False) c { c with disk := d₁ } := h.opened hopened
  split
  · exact ⟨hmade.weaken fun _ => False.elim, .inr hfolder, hmade.item _ id⟩
  next d₂ hwrite =>
  obtain ⟨hdraft, hdraftItem⟩ := hmade.placed.write? (isName_draft hkey) hwrite
  have hdrafted := (hmade.weaken fun _ => False.elim).trans hdraft
  split
  · refine ⟨hdrafted.weaken fun _ => .inr, .inr ?_, hdrafted.item _ (entry_ne_draft key key)⟩
    exact hdrafted.place ▸ hdrafted.placed.isFolderAt_place hdraftItem
  next d₃ hmove =>
  obtain ⟨hmoved, hmovedItem⟩ := hdrafted.placed.move? (isName_draft hkey) (isName_entry hkey)
    (entry_ne_draft key key) hdraftItem hmove
  have hstored := (hdrafted.weaken fun _ => .inl).trans hmoved
  refine ⟨hstored.weaken fun _ => Or.symm, .inr ?_, hmovedItem⟩
  exact hstored.place ▸ hstored.placed.isFolderAt_place hmovedItem

theorem isEntry_entry (hkey : IsKey key) : isEntry (key ++ ".json") = true := by
  rw [isEntry, splitName_entry hkey]
  rfl

theorem isEntry_draft (key : String) : isEntry (key ++ ".json.tmp") = false := by
  have hname : key ++ ".json.tmp" = key ++ ".json" ++ ".tmp" := by
    rw [String.append_assoc]
    rfl
  have hsplit : Text.splitFirst? '.' (key ++ ".json" ++ ".tmp").toList.reverse =
      some (['p', 'm', 't'], (key ++ ".json").toList.reverse) := by
    rw [String.toList_append, List.reverse_append]
    rfl
  rw [isEntry, hname, Path.splitName, hsplit]
  simp

theorem Placed.item?_writeText (h : c.Placed) (hkey : IsKey key) {f : Failure} {text : String}
    (hrefused : (c.writeText key text).1 = .error f) (hentry : isEntry name = true) :
    (c.writeText key text).2.item? name = c.item? name := by
  obtain ⟨hkeep, -, hitem⟩ := h.writeText hkey text
  by_cases he : name = key ++ ".json"
  · rw [he, hitem, hrefused]
  · refine hkeep.item name (not_or.mpr ⟨he, ?_⟩)
    rintro rfl
    rw [isEntry_draft key] at hentry
    cases hentry

structure Removable (c : Cache) : Prop where
  folder : c.disk.itemAt? c.place = none ∨ c.disk.isFolderAt c.place = true
  here : ¬ c.place <+: c.disk.here
  visited : ∀ q ∈ c.disk.visited c.folder, q <+: c.place ∨ ¬ c.place <+: q

theorem Placed.removable (h : c.Placed) (habsent : c.disk.itemAt? c.place = none) :
    c.Removable := by
  have hplain : c.disk.isFolderAt c.place = false := by
    rw [Disk.isFolderAt, habsent]
    rfl
  refine ⟨.inl habsent, h.sound.not_above_here hplain, fun q hq => ?_⟩
  refine (h.straight q hq).imp id fun hfolder habove => ?_
  rw [h.sound.isFolderAt_of_folder hfolder habove] at hplain
  cases hplain

theorem Removable.keeping (h : c.Removable) (hkeep : Keeping touched c c')
    (hfolder : c'.disk.itemAt? c.place = none ∨ c'.disk.isFolderAt c.place = true) :
    c'.Removable := by
  have hvisited : c'.disk.visited c'.folder = c.disk.visited c.folder := by
    rw [Disk.visited, Disk.visited, Disk.start, Disk.start, hkeep.folder, hkeep.here]
  refine ⟨?_, ?_, ?_⟩
  · rwa [hkeep.place]
  · rw [hkeep.place, hkeep.here]
    exact h.here
  · rw [hkeep.place, hvisited]
    exact h.visited

theorem Placed.item?_of_absent (h : c.Placed) (habsent : c.disk.itemAt? c.place = none)
    (name : String) : c.item? name = none := by
  have hplain : c.disk.isFolderAt c.place = false := by
    rw [Disk.isFolderAt, habsent]
    rfl
  exact h.sound.itemAt?_eq_none hplain (List.prefix_append _ _) (by simp)

theorem Placed.clear (h : c.Placed) (hr : c.Removable) :
    c.clear.1 = .ok () ∧ Keeping (fun _ => True) c c.clear.2 ∧
      c.clear.2.disk.itemAt? c.place = none := by
  rcases hr.folder with habsent | hfolder
  · have hholds : c.disk.holds c.folder = false := by
      rw [Disk.holds, Option.isSome_eq_false_iff, Option.isNone_iff_eq_none,
        Option.eq_none_iff_forall_ne_some]
      intro p hfind
      obtain ⟨rfl, hsome⟩ := Disk.find?_eq hfind
      rw [show c.disk.itemAt? (c.disk.place c.folder) = none from habsent] at hsome
      cases hsome
    rw [Cache.clear, hholds]
    exact ⟨rfl, ⟨h, rfl, rfl, fun _ _ => rfl⟩, habsent⟩
  · have hplace : c.place ≠ [] := fun hnil => hr.here (hnil ▸ List.nil_prefix)
    have hname : c.folder ≠ "" := by
      intro hempty
      have hself : c.place = c.disk.here := by
        rw [Cache.place, hempty]
        rfl
      exact hr.here (hself ▸ List.prefix_rfl)
    have hfind : c.disk.find? c.folder = some c.place :=
      (if_neg hname).trans (h.sound.reach?_eq h.straight hfolder)
    have hholds : c.disk.holds c.folder = true := by
      rw [Disk.holds, hfind]
      rfl
    have hremove : c.disk.removeFolder? c.folder = some (c.disk.cutOff c.place) := by
      rw [Disk.removeFolder?, hfind, Option.bind_some, if_pos hfolder]
    rw [Cache.clear, if_pos hholds, hremove]
    refine ⟨rfl, ⟨⟨h.sound.cutOff hr.here, ?_⟩, rfl, rfl, fun _ hname => absurd trivial hname⟩,
      Disk.itemAt?_cutOff_below hplace List.prefix_rfl⟩
    refine h.straight.congr rfl fun q hq habove hqfolder => ?_
    rw [Disk.isFolderAt_iff,
      Disk.itemAt?_cutOff_beside ((hr.visited q hq).resolve_left habove)]
    exact Disk.isFolderAt_iff.mp hqfolder

inductive Call (α : Type) where
  | read (key : String)
  | write (key : String) (value : α)
  | clear

section Run

variable {α : Type} {codec : Codec α} {done : List (Call α)} {call : Call α}

def Call.IsKeyed : Call α → Prop
  | .read key => IsKey key
  | .write key _ => IsKey key
  | .clear => True

def Call.answer (codec : Codec α) (c : Cache) : Call α → Except Failure Unit × Cache
  | .read _ => (.ok (), c)
  | .write key value => c.write codec key value
  | .clear => c.clear

def step (codec : Codec α) (s : Cache × List (Call α)) (call : Call α) : Cache × List (Call α) :=
  ((call.answer codec s.1).2, match (call.answer codec s.1).1 with
    | .ok _ => call :: s.2
    | .error _ => s.2)

def run (codec : Codec α) (c : Cache) (calls : List (Call α)) : Cache × List (Call α) :=
  calls.foldl (step codec) (c, [])

def Call.isClear : Call α → Bool
  | .clear => true
  | _ => false

def Call.written? : Call α → Option (String × α)
  | .write key value => some (key, value)
  | _ => none

/-- What was written since the last time the cache was cleared, the last value first. -/
def written (done : List (Call α)) : List (String × α) :=
  (done.takeWhile fun call => !call.isClear).filterMap Call.written?

/-- The folder holds, under names of entries, the texts of what was written last. -/
structure Mirrors (codec : Codec α) (done : List (Call α)) (c : Cache) : Prop where
  placed : c.Placed
  removable : c.Removable
  keyed : ∀ key ∈ (written done).map Prod.fst, IsKey key
  item : ∀ name, isEntry name = true → c.item? name =
    ((written done).find? fun w => w.1 ++ ".json" == name).map fun w =>
      .file (some (codec.encode w.2).compact)

theorem Mirrors.start (h : c.Placed) (habsent : c.disk.itemAt? c.place = none) :
    Mirrors codec [] c where
  placed := h
  removable := h.removable habsent
  keyed _ hmem := by cases hmem
  item name _ := h.item?_of_absent habsent name

theorem Mirrors.step (h : Mirrors codec done c) (hkeyed : call.IsKeyed) :
    Mirrors codec (step codec (c, done) call).2 (step codec (c, done) call).1 := by
  cases call with
  | read key => exact ⟨h.placed, h.removable, h.keyed, h.item⟩
  | clear =>
    obtain ⟨hok, hkeep, habsent⟩ := h.placed.clear h.removable
    simp only [Cache.step, Call.answer, hok]
    refine ⟨hkeep.placed, h.removable.keeping hkeep (.inl habsent), fun key hmem => ?_,
      fun name _ => ?_⟩
    · cases hmem
    · exact hkeep.placed.item?_of_absent (hkeep.place ▸ habsent) name
  | write key value =>
    simp only [Cache.step, Call.answer, write]
    generalize htext : (codec.encode value).compact = text
    obtain ⟨hkeep, hplace, hitem⟩ := h.placed.writeText hkeyed text
    have hremovable := h.removable.keeping hkeep <| hplace.elim
      (fun hsame => by rw [hsame]; exact h.removable.folder) .inr
    cases hresult : (c.writeText key text).1 with
    | error f =>
      refine ⟨hkeep.placed, hremovable, h.keyed, fun name hentry => ?_⟩
      rw [h.placed.item?_writeText hkeyed hresult hentry, h.item name hentry]
    | ok _ =>
      rw [hresult] at hitem
      refine ⟨hkeep.placed, hremovable, fun key' hmem => ?_, fun name hentry => ?_⟩
      · rcases List.mem_cons.mp hmem with rfl | hmem
        · exact hkeyed
        · exact h.keyed key' hmem
      · have hwritten : written (.write key value :: done) = (key, value) :: written done := rfl
        rw [hwritten, List.find?_cons]
        by_cases he : key ++ ".json" = name
        · rw [beq_iff_eq.mpr he, ← he, hitem, ← htext]
          rfl
        · rw [beq_false_of_ne he, ← h.item name hentry]
          refine hkeep.item name (not_or.mpr ⟨Ne.symm he, ?_⟩)
          rintro rfl
          rw [isEntry_draft key] at hentry
          cases hentry

theorem Mirrors.run (h : c.Placed) (habsent : c.disk.itemAt? c.place = none)
    {calls : List (Call α)} (hkeyed : ∀ call ∈ calls, call.IsKeyed) :
    Mirrors codec (run codec c calls).2 (run codec c calls).1 := by
  have hrun {s : Cache × List (Call α)} (hs : Mirrors codec s.2 s.1) :
      Mirrors codec (calls.foldl (Cache.step codec) s).2 (calls.foldl (Cache.step codec) s).1 := by
    induction calls generalizing s with
    | nil => exact hs
    | cons call calls ih =>
      rw [List.forall_mem_cons] at hkeyed
      exact ih hkeyed.2 (hs.step hkeyed.1)
  exact hrun (.start h habsent)

theorem Mirrors.folder (h : Mirrors codec done c) : c.folder ≠ "" := by
  intro hempty
  have hself : c.place = c.disk.here := by
    rw [Cache.place, hempty]
    rfl
  exact h.removable.here (hself ▸ List.prefix_rfl)

theorem find?_entry (w : List (String × α)) (key : String) :
    (w.find? fun w => w.1 ++ ".json" == key ++ ".json").map Prod.snd = w.lookup key := by
  induction w with
  | nil => rfl
  | cons first w ih =>
    rw [List.find?_cons, List.lookup_cons]
    by_cases he : first.1 = key
    · rw [beq_iff_eq.mpr (congrArg (· ++ ".json") he), beq_iff_eq.mpr he.symm]
      rfl
    · rw [beq_false_of_ne fun hname => he ((String.append_left_inj _).mp hname),
        beq_false_of_ne (Ne.symm he)]
      exact ih

theorem Mirrors.read? (h : Mirrors codec done c) (hkey : IsKey key)
    (hcodec : ∀ value, codec.ofText? (codec.encode value).compact = some value) :
    c.read? codec key = (written done).lookup key := by
  rw [Cache.read?, h.placed.readText? hkey, h.item _ (isEntry_entry hkey), ← find?_entry]
  cases (written done).find? fun w => w.1 ++ ".json" == key ++ ".json" with
  | none => rfl
  | some w => exact hcodec w.2

theorem Mirrors.size (h : Mirrors codec done c) :
    c.size = ((written done).map Prod.fst).dedup.length := by
  have hperm : c.entries.Perm (((written done).map Prod.fst).dedup.map (· ++ ".json")) := by
    refine (List.perm_ext_iff_of_nodup (h.placed.entries_nodup h.folder) ?_).mpr fun name => ?_
    · exact (List.nodup_dedup _).map fun a b he => (String.append_left_inj _).mp he
    · rw [h.placed.mem_entries h.folder, List.mem_map]
      simp only [List.mem_dedup]
      constructor
      · rintro ⟨hentry, hsome⟩
        rw [h.item name hentry, Option.isSome_map, List.find?_isSome] at hsome
        obtain ⟨w, hw, he⟩ := hsome
        exact ⟨w.1, List.mem_map_of_mem hw, beq_iff_eq.mp he⟩
      · rintro ⟨key, hmem, rfl⟩
        have hentry := isEntry_entry (h.keyed key hmem)
        obtain ⟨w, hw, rfl⟩ := List.mem_map.mp hmem
        refine ⟨hentry, ?_⟩
        rw [h.item _ hentry, Option.isSome_map, List.find?_isSome]
        exact ⟨w, hw, beq_iff_eq.mpr rfl⟩
  rw [Cache.size, hperm.length_eq, List.length_map]

/-- From an absent folder on, a key has the value written last since the last clearing, and the size is
the number of keys written since then. A write that is refused changes nothing of this, whatever
stands in the folder, or in its way. -/
theorem keeps_last_written (h : c.Placed)
    (hcodec : ∀ value, codec.ofText? (codec.encode value).compact = some value) :
    (c.disk.itemAt? c.place = none → ∀ calls : List (Call α), (∀ call ∈ calls, call.IsKeyed) →
      (∀ key, IsKey key → (run codec c calls).1.read? codec key =
        (written (run codec c calls).2).lookup key) ∧
      (run codec c calls).1.size = ((written (run codec c calls).2).map Prod.fst).dedup.length) ∧
    ∀ key value f, IsKey key → (c.write codec key value).1 = .error f →
      (∀ key', IsKey key' → (c.write codec key value).2.read? codec key' = c.read? codec key') ∧
      (c.write codec key value).2.size = c.size := by
  constructor
  · intro habsent calls hkeyed
    have hmirrors : Mirrors codec (run codec c calls).2 (run codec c calls).1 :=
      Mirrors.run h habsent hkeyed
    exact ⟨fun key hkey => hmirrors.read? hkey hcodec, hmirrors.size⟩
  · intro key value f hkey hrefused
    obtain ⟨hkeep, -, -⟩ := h.writeText hkey (codec.encode value).compact
    have hitem {name : String} (hentry : isEntry name = true) :=
      h.item?_writeText hkey hrefused hentry
    refine ⟨fun key' hkey' => ?_, size_congr h hkeep.placed hkeep.folder fun _ => hitem⟩
    rw [write, Cache.read?, Cache.read?, hkeep.placed.readText? hkey', h.readText? hkey',
      hitem (isEntry_entry hkey')]

end Run

def shelf : Cache := { folder := "cache" }

def shelving : List (Call String) :=
  [.write "a" "first", .write "b" "second", .clear, .write "a" "third", .read "b", .write "a" "last"]

def blocked : Cache where
  folder := "cache"
  disk.items := [(["cache"], .folder), (["cache", "a.json"], .folder),
    (["cache", "b.json"], .file (some "\"second\""))]

theorem keeps_last_written_shelving :
    (run Codec.text shelf shelving).1.read? Codec.text "a" = some "last" ∧
      (run Codec.text shelf shelving).1.read? Codec.text "b" = none ∧
      (run Codec.text shelf shelving).1.size = 1 ∧
      (∃ f, (blocked.write Codec.text "a" "third").1 = .error f) ∧
      (blocked.write Codec.text "a" "third").2.read? Codec.text "b" = some "second" ∧
      (blocked.write Codec.text "a" "third").2.size = 2 := by
  have hcodec (value : String) : Codec.text.ofText? (Codec.text.encode value).compact = some value :=
    Codec.lossless_text.ofText?_compact value
  have hshelf : shelf.Placed :=
    ⟨.of_items (by decide) (by decide) (by decide), Disk.straight_of_not_mem (by decide)⟩
  have hblocked : blocked.Placed :=
    ⟨.of_items (by decide) (by decide) (by decide), Disk.straight_of_not_mem (by decide)⟩
  have ha : IsKey "a" := ⟨by decide, by decide⟩
  have hb : IsKey "b" := ⟨by decide, by decide⟩
  have hkeyed : ∀ call ∈ shelving, call.IsKeyed := by
    simp [shelving, Call.IsKeyed, ha, hb]
  obtain ⟨hread, hsize⟩ := (keeps_last_written hshelf hcodec).1 (by decide) shelving hkeyed
  have hrefused : (blocked.write Codec.text "a" "third").1 =
      .error (refused "Failed to move cache entry into place" "cache/a.json") := by
    decide +kernel
  obtain ⟨hkept, hsame⟩ :=
    (keeps_last_written hblocked hcodec).2 "a" "third" _ ha hrefused
  refine ⟨?_, ?_, ?_, ⟨_, hrefused⟩, ?_, ?_⟩
  · rw [hread "a" ha]
    decide +kernel
  · rw [hread "b" hb]
    decide +kernel
  · rw [hsize]
    decide +kernel
  · rw [hkept "b" hb]
    decide +kernel
  · rw [hsame]
    decide +kernel

end Cache

end ApiPages
