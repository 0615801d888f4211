import ApiPages.Proofs.Files.Places
import Mathlib.Data.List.Nodup

/-!
Disks on which everything stands in a folder. There a path that steps up only out of folders that
are there leads to its place exactly if something stands at that place; making its folders changes
nothing but what is missing above the place.
-/
namespace ApiPages.Disk

variable {d d' : Disk} {p q : Route} {i : Item} {name folder : String}

theorem isFolderAt_iff : d.isFolderAt p = true ↔ d.itemAt? p = some .folder := beq_iff_eq

theorem itemAt?_cutOff_below (hp : p ≠ []) (h : p <+: q) : (d.cutOff p).itemAt? q = none := by
  have hq : q ≠ [] := by
    rintro rfl
    exact hp (List.prefix_nil.mp h)
  rw [itemAt?, if_neg hq, List.lookup_eq_none_iff]
  intro item hitem
  have hkept := (List.mem_filter.mp hitem).2
  rw [bne_iff_ne]
  rintro rfl
  rw [List.isPrefixOf_iff_prefix.mpr h] at hkept
  cases hkept

theorem itemAt?_cutOff_beside (h : ¬ p <+: q) : (d.cutOff p).itemAt? q = d.itemAt? q := by
  by_cases hq : q = []
  · simp [itemAt?, hq]
  · simp only [itemAt?, if_neg hq, cutOff]
    have hkeep : p.isPrefixOf q = false := by
      rw [Bool.eq_false_iff]
      exact fun he => h (List.isPrefixOf_iff_prefix.mp he)
    induction d.items with
    | nil => rfl
    | cons item items ih =>
      by_cases he : q = item.1
      · rw [List.filter_cons_of_pos (by rw [← he, hkeep]; rfl), List.lookup_cons, List.lookup_cons,
          beq_iff_eq.mpr he]
      · have hb : (q == item.1) = false := by simpa using he
        by_cases hcut : p.isPrefixOf item.1 = true
        · rw [List.filter_cons_of_neg (by simp [hcut]), ih, List.lookup_cons, hb]
        · rw [List.filter_cons_of_pos (by rw [Bool.eq_false_iff.mpr hcut]; rfl), List.lookup_cons, List.lookup_cons, hb,
            ih]

theorem isSome_itemAt?_iff (hp : p ≠ []) :
    (d.itemAt? p).isSome = true ↔ p ∈ d.items.map Prod.fst := by
  rw [itemAt?, if_neg hp, ← Option.ne_none_iff_isSome, Ne, List.lookup_eq_none_iff]
  simp only [bne_iff_ne, not_forall, not_not, List.mem_map]
  constructor
  · rintro ⟨item, hitem, rfl⟩
    exact ⟨item, hitem, rfl⟩
  · rintro ⟨item, hitem, rfl⟩
    exact ⟨item, hitem, rfl⟩

theorem mem_children : name ∈ d.children p ↔ (d.itemAt? (p ++ [name])).isSome = true := by
  rw [isSome_itemAt?_iff (by simp), children, List.mem_filterMap, List.mem_map]
  constructor
  · rintro ⟨item, hitem, hname⟩
    rw [Option.ite_none_right_eq_some] at hname
    obtain ⟨rfl, hlast⟩ := hname
    obtain ⟨front, hfront⟩ := List.getLast?_eq_some_iff.mp hlast
    exact ⟨item, hitem, by rw [hfront, List.dropLast_concat]⟩
  · rintro ⟨item, hitem, hroute⟩
    exact ⟨item, hitem, by simp [hroute]⟩

structure Sound (d : Disk) : Prop where
  here : d.isFolderAt d.here = true
  parent : ∀ p, (d.itemAt? p).isSome = true → d.isFolderAt p.dropLast = true
  nodup : (d.items.map Prod.fst).Nodup

theorem Sound.of_items (hhere : d.isFolderAt d.here = true)
    (hparent : ∀ p ∈ d.items.map Prod.fst, d.isFolderAt p.dropLast = true)
    (hnodup : (d.items.map Prod.fst).Nodup) : d.Sound := by
  refine ⟨hhere, fun p hsome => ?_, hnodup⟩
  by_cases hp : p = []
  · rw [hp]
    rfl
  · exact hparent p ((isSome_itemAt?_iff hp).mp hsome)

theorem Sound.children_nodup (h : d.Sound) (p : Route) : (d.children p).Nodup := by
  have hpieces := h.nodup
  have hchildren : d.children p =
      (d.items.map Prod.fst).filterMap fun q => if q.dropLast = p then q.getLast? else none := by
    rw [List.filterMap_map]
    rfl
  rw [hchildren]
  refine hpieces.filterMap fun q r name hq hr => ?_
  simp only [Option.mem_def, Option.ite_none_right_eq_some] at hq hr
  obtain ⟨rfl, hq⟩ := hq
  obtain ⟨hr, hlast⟩ := hr
  obtain ⟨front, rfl⟩ := List.getLast?_eq_some_iff.mp hq
  obtain ⟨front', rfl⟩ := List.getLast?_eq_some_iff.mp hlast
  rw [List.dropLast_concat, List.dropLast_concat] at hr
  rw [hr]

theorem Sound.isFolderAt_of_prefix (h : d.Sound) (hsome : (d.itemAt? q).isSome = true)
    (habove : p <+: q) (hne : p ≠ q) : d.isFolderAt p = true := by
  obtain ⟨below, rfl⟩ := habove
  induction below using List.reverseRecOn with
  | nil => simp at hne
  | append_singleton below name ih =>
    have hparent := h.parent _ hsome
    rw [← List.append_assoc, List.dropLast_concat] at hparent
    cases below with
    | nil => simpa using hparent
    | cons piece below =>
      refine ih ?_ (by simp)
      rw [isFolderAt_iff.mp hparent]
      rfl

theorem Sound.isFolderAt_of_folder (h : d.Sound) (hfolder : d.isFolderAt q = true)
    (habove : p <+: q) : d.isFolderAt p = true := by
  by_cases he : p = q
  · rw [he]
    exact hfolder
  · refine h.isFolderAt_of_prefix ?_ habove he
    rw [isFolderAt_iff.mp hfolder]
    rfl

theorem Sound.itemAt?_eq_none (h : d.Sound) (hfolder : d.isFolderAt p = false) (habove : p <+: q)
    (hne : p ≠ q) : d.itemAt? q = none := by
  by_contra hsome
  have := h.isFolderAt_of_prefix (Option.ne_none_iff_isSome.mp hsome) habove hne
  rw [hfolder] at this
  cases this

theorem Sound.not_above_here (h : d.Sound) (hfolder : d.isFolderAt p = false) :
    ¬ p <+: d.here := by
  intro habove
  rw [h.isFolderAt_of_folder h.here habove] at hfolder
  cases hfolder

theorem Sound.put (h : d.Sound) (hp : p ≠ []) (hparent : d.isFolderAt p.dropLast = true)
    (hplace : i = .folder ∨ d.isFolderAt p = false) : (d.put p i).Sound := by
  have hfolders {q : Route} (hq : d.isFolderAt q = true) : (d.put p i).isFolderAt q = true := by
    rw [isFolderAt_iff] at hq ⊢
    by_cases he : q = p
    · subst he
      rcases hplace with rfl | hplace
      · exact itemAt?_put d q .folder hp
      · rw [isFolderAt_iff.mpr hq] at hplace
        cases hplace
    · rw [itemAt?_put_of_ne d i he, hq]
  refine ⟨hfolders h.here, fun q hsome => ?_, ?_⟩
  · by_cases he : q = p
    · rw [he]
      exact hfolders hparent
    · rw [itemAt?_put_of_ne d i he] at hsome
      exact hfolders (h.parent q hsome)
  · rw [Disk.put, List.map_cons, List.nodup_cons]
    refine ⟨fun hmem => ?_, h.nodup.sublist (List.filter_sublist.map _)⟩
    obtain ⟨item, hitem, he⟩ := List.mem_map.mp hmem
    have hne := (List.mem_filter.mp hitem).2
    rw [decide_eq_true_eq] at hne
    exact hne he

theorem Sound.cutOff (h : d.Sound) (hhere : ¬ p <+: d.here) : (d.cutOff p).Sound := by
  have hp : p ≠ [] := by
    rintro rfl
    exact hhere List.nil_prefix
  refine ⟨?_, fun q hsome => ?_, h.nodup.sublist (List.filter_sublist.map _)⟩
  · have hkept := itemAt?_cutOff_beside (d := d) hhere
    rw [isFolderAt_iff]
    exact hkept.trans (isFolderAt_iff.mp h.here)
  · have hq : ¬ p <+: q := by
      intro habove
      rw [itemAt?_cutOff_below hp habove] at hsome
      cases hsome
    rw [itemAt?_cutOff_beside hq] at hsome
    rw [isFolderAt_iff,
      itemAt?_cutOff_beside fun habove => hq (habove.trans (List.dropLast_prefix q))]
    exact isFolderAt_iff.mp (h.parent q hsome)

def visited (d : Disk) (path : String) : List Route :=
  (Text.split '/' path.toList).scanl stepTo (d.start path)

/-- A path whose steps up lead only out of folders that are there. What it passes otherwise lies above
its place. -/
def Straight (d : Disk) (path : String) : Prop :=
  ∀ p ∈ d.visited path, p <+: d.place path ∨ d.isFolderAt p = true

theorem Straight.congr {path : String} (h : d.Straight path) (hhere : d'.here = d.here)
    (hfolders : ∀ q ∈ d.visited path, ¬ q <+: d.place path → d.isFolderAt q = true →
      d'.isFolderAt q = true) : d'.Straight path := by
  have hstart : d'.start path = d.start path := by rw [start, start, hhere]
  intro q hq
  rw [visited, hstart] at hq
  rw [place_congr hhere]
  by_cases habove : q <+: d.place path
  · exact .inl habove
  · exact .inr (hfolders q hq habove ((h q hq).resolve_left habove))

theorem stepTo_cases (p : Route) (piece : List Char) :
    stepTo p piece = p ∨ stepTo p piece = p.dropLast ∨ ∃ name, stepTo p piece = p ++ [name] := by
  rw [stepTo]
  split
  · exact .inl rfl
  · split
    · exact .inr (.inl rfl)
    · exact .inr (.inr ⟨_, rfl⟩)

theorem mem_scanl_self (p : Route) (pieces : List (List Char)) : p ∈ pieces.scanl stepTo p := by
  cases pieces <;> simp

theorem prefix_foldl_of_mem_scanl {pieces : List (List Char)} (h : ['.', '.'] ∉ pieces) :
    ∀ q ∈ pieces.scanl stepTo p, p <+: q ∧ q <+: pieces.foldl stepTo p := by
  induction pieces generalizing p with
  | nil => simp
  | cons piece pieces ih =>
    have hdown : p <+: stepTo p piece := by
      rw [stepTo, if_neg fun (he : piece = ['.', '.']) => h (he ▸ List.mem_cons_self)]
      split
      · exact List.prefix_rfl
      · exact List.prefix_append _ _
    have hrest := ih (p := stepTo p piece) fun hmem => h (List.mem_cons_of_mem _ hmem)
    intro q hq
    rw [List.scanl_cons, List.mem_cons] at hq
    rcases hq with rfl | hq
    · exact ⟨List.prefix_rfl, hdown.trans (hrest _ (mem_scanl_self _ pieces)).2⟩
    · exact ⟨hdown.trans (hrest q hq).1, (hrest q hq).2⟩

theorem straight_of_not_mem {path : String} (h : ['.', '.'] ∉ Text.split '/' path.toList) :
    d.Straight path :=
  fun q hq => .inl (prefix_foldl_of_mem_scanl h q hq).2

theorem Sound.start (h : d.Sound) (path : String) : d.isFolderAt (d.start path) = true := by
  rw [Disk.start]
  split
  · rfl
  · exact h.here

theorem foldlM_enter?_of_folders {pieces : List (List Char)}
    (h : ∀ q ∈ pieces.scanl stepTo p, d.isFolderAt q = true) :
    pieces.foldlM d.enter? p = some (pieces.foldl stepTo p) := by
  induction pieces generalizing p with
  | nil => rfl
  | cons piece pieces ih =>
    simp only [List.scanl_cons, List.mem_cons, forall_eq_or_imp] at h
    have hstep : d.isFolderAt (stepTo p piece) = true := h.2 _ (mem_scanl_self _ pieces)
    have henter : d.enter? p piece = some (stepTo p piece) :=
      if_pos ⟨h.1, by rw [isFolderAt_iff.mp hstep]; rfl⟩
    rw [List.foldlM_cons, henter]
    exact ih h.2

def reach? (d : Disk) (path : String) : Option Route :=
  (Text.split '/' path.toList).foldlM d.enter? (d.start path)

theorem Sound.reach?_eq (h : d.Sound) (hstraight : d.Straight folder)
    (hfolder : d.isFolderAt (d.place folder) = true) :
    d.reach? folder = some (d.place folder) :=
  foldlM_enter?_of_folders fun q hq => (hstraight q hq).elim (h.isFolderAt_of_folder hfolder) id

theorem Sound.reach?_bind (h : d.Sound) (hstraight : d.Straight folder) {f : Route → Option Route}
    (hf : ∀ p, d.isFolderAt p = false → f p = none) :
    (d.reach? folder).bind f = f (d.place folder) := by
  cases hfolder : d.isFolderAt (d.place folder) with
  | true => rw [h.reach?_eq hstraight hfolder, Option.bind_some]
  | false =>
    rw [hf _ hfolder, Option.bind_eq_none_iff]
    intro p hreach
    rw [(foldlM_enter? hreach).1]
    exact hf _ hfolder

theorem foldlM_join (hslash : '/' ∉ name.toList) (folder : String) {f : Route → Option Route}
    (hf : ∀ p, d.isFolderAt p = false → f p = none) :
    ∃ pieces, Text.split '/' (Path.join folder name).toList = pieces ++ [name.toList] ∧
      (pieces.foldlM d.enter? (d.start (Path.join folder name))).bind f =
        (d.reach? folder).bind f := by
  obtain ⟨pieces, hpieces, hstart, hfolder⟩ := d.split_join hslash folder
  refine ⟨pieces, hpieces, ?_⟩
  rw [hstart, reach?]
  rcases hfolder with hfolder | hfolder
  · rw [hfolder]
  · rw [hfolder, List.foldlM_append, Option.bind_eq_bind, Option.bind_assoc]
    congr 1
    funext p
    -- The empty piece at the end is one step more, which stays in the folder.
    have hlast : [[]].foldlM d.enter? p = d.enter? p [] := by
      rw [List.foldlM_cons]
      exact Option.bind_fun_some _
    have hstay : stepTo p [] = p := if_pos (.inl rfl)
    rw [hlast, enter?, hstay]
    cases hp : d.isFolderAt p with
    | false => rw [hf p hp]; rfl
    | true => rw [if_pos ⟨rfl, by rw [isFolderAt_iff.mp hp]; rfl⟩, Option.bind_some]

theorem enter?_eq_none {piece : List Char} (hfolder : d.isFolderAt p = false) :
    d.enter? p piece = none := by
  rw [enter?, hfolder]
  exact if_neg fun hboth => Bool.false_ne_true hboth.1

theorem Sound.find?_join (h : d.Sound) (hstraight : d.Straight folder)
    (hname : Path.IsName name.toList) :
    d.find? (Path.join folder name) =
      if (d.itemAt? (d.place folder ++ [name])).isSome then some (d.place folder ++ [name])
      else none := by
  obtain ⟨pieces, hpieces, hjoin⟩ := foldlM_join hname.1 folder
    (f := fun p => d.enter? p name.toList) fun p hp => enter?_eq_none hp
  have hne : Path.join folder name ≠ "" := by
    rw [Path.join_eq_lead hname.1]
    intro hempty
    have hnil := (String.append_eq_empty_iff.mp hempty).2
    exact hname.2 (by rw [hnil]; decide)
  have hlast (p : Route) : [name.toList].foldlM d.enter? p = d.enter? p name.toList := by
    rw [List.foldlM_cons]
    exact Option.bind_fun_some _
  rw [find?, if_neg hne, hpieces, List.foldlM_append, Option.bind_eq_bind, funext hlast, hjoin,
    h.reach?_bind hstraight fun p hp => enter?_eq_none hp, enter?, stepTo_name hname]
  cases hsome : (d.itemAt? (d.place folder ++ [name])).isSome with
  | false => simp
  | true =>
    have hparent := h.parent _ hsome
    rw [List.dropLast_concat] at hparent
    rw [hparent]
    rfl

theorem Sound.item?_join (h : d.Sound) (hstraight : d.Straight folder)
    (hname : Path.IsName name.toList) :
    d.item? (Path.join folder name) = d.itemAt? (d.place folder ++ [name]) := by
  rw [item?, h.find?_join hstraight hname]
  cases hitem : d.itemAt? (d.place folder ++ [name]) with
  | none => rfl
  | some i => exact hitem

theorem Sound.slot?_join (h : d.Sound) (hstraight : d.Straight folder)
    (hname : Path.IsName name.toList) :
    d.slot? (Path.join folder name) =
      if d.isFolderAt (d.place folder) ∧ ¬ d.isFolderAt (d.place folder ++ [name]) then
        some (d.place folder ++ [name])
      else none := by
  have hclosed (p : Route) (hp : d.isFolderAt p = false) :
      (if d.isFolderAt p ∧ ¬ d.isFolderAt (stepTo p name.toList) then
        some (stepTo p name.toList) else none) = none := by
    rw [hp]
    exact if_neg fun hboth => Bool.false_ne_true hboth.1
  obtain ⟨pieces, hpieces, hjoin⟩ := foldlM_join hname.1 folder hclosed
  have hcounts := hname.2
  simp only [List.mem_cons, List.not_mem_nil, or_false, not_or] at hcounts
  have hlast : (pieces ++ [name.toList]).getLastD [] = name.toList := by simp
  simp only [slot?, hpieces, hlast, List.dropLast_concat, hcounts, or_false, if_false]
  rw [hjoin, h.reach?_bind hstraight hclosed, stepTo_name hname]

/-- `d'` is `d` with folders where nothing stood on the way to a place. -/
structure Opened (target : Route) (d d' : Disk) : Prop where
  sound : d'.Sound
  here : d'.here = d.here
  grown : ∀ q, d'.itemAt? q = d.itemAt? q ∨
    q <+: target ∧ d.itemAt? q = none ∧ d'.itemAt? q = some .folder

variable {target : Route}

theorem Opened.refl (h : d.Sound) : Opened target d d := ⟨h, rfl, fun _ => .inl rfl⟩

theorem Opened.trans {d'' : Disk} (h : Opened target d d') (h' : Opened target d' d'') :
    Opened target d d'' := by
  refine ⟨h'.sound, h'.here.trans h.here, fun q => ?_⟩
  rcases h'.grown q with he' | ⟨habove, hnone, hfolder⟩
  · rcases h.grown q with he | ⟨habove, hnone, hfolder⟩
    · exact .inl (he'.trans he)
    · exact .inr ⟨habove, hnone, he'.trans hfolder⟩
  · rcases h.grown q with he | ⟨-, -, hfolder'⟩
    · exact .inr ⟨habove, he ▸ hnone, hfolder⟩
    · rw [hnone] at hfolder'
      cases hfolder'

theorem Opened.isFolderAt (h : Opened target d d') (hq : d.isFolderAt q = true) :
    d'.isFolderAt q = true := by
  rw [isFolderAt_iff] at hq ⊢
  rcases h.grown q with he | ⟨-, -, hfolder⟩
  · exact he.trans hq
  · exact hfolder

theorem Opened.itemAt?_below (h : Opened target d d') (name : String) :
    d'.itemAt? (target ++ [name]) = d.itemAt? (target ++ [name]) := by
  rcases h.grown (target ++ [name]) with he | ⟨habove, -, -⟩
  · exact he
  · have hlength := habove.length_le
    rw [List.length_append, List.length_singleton] at hlength
    omega

theorem open?_opened {piece : List Char} (h : d.Sound) (hp : d.isFolderAt p = true)
    (hway : stepTo p piece <+: target ∨ d.isFolderAt (stepTo p piece) = true)
    (hopen : open? piece (d, p) = some (d', q)) :
    Opened target d d' ∧ q = stepTo p piece ∧ d'.isFolderAt q = true := by
  simp only [open?] at hopen
  split at hopen
  · next hfolder =>
    cases hopen
    exact ⟨.refl h, rfl, isFolderAt_iff.mpr hfolder⟩
  · contradiction
  · next hnone =>
    cases hopen
    have hne : stepTo p piece ≠ [] := by
      intro hnil
      rw [hnil] at hnone
      cases hnone
    have hplain : d.isFolderAt (stepTo p piece) = false := by
      rw [Disk.isFolderAt, hnone]
      rfl
    have habove : stepTo p piece <+: target := by
      rcases hway with hway | hway
      · exact hway
      · rw [hplain] at hway
        cases hway
    -- Only a step down can lead to where nothing stands.
    have hparent : d.isFolderAt (stepTo p piece).dropLast = true := by
      rcases stepTo_cases p piece with he | he | ⟨name, he⟩
      · rw [he, hp] at hplain
        cases hplain
      · rw [he, h.isFolderAt_of_folder hp (List.dropLast_prefix p)] at hplain
        cases hplain
      · rw [he, List.dropLast_concat]
        exact hp
    refine ⟨⟨h.put hne hparent (.inl rfl), rfl, fun r => ?_⟩, rfl, ?_⟩
    · by_cases he : r = stepTo p piece
      · subst he
        exact .inr ⟨habove, hnone, itemAt?_put d _ .folder hne⟩
      · exact .inl (itemAt?_put_of_ne d .folder he)
    · exact isFolderAt_iff.mpr (itemAt?_put d _ .folder hne)

theorem openAll_opened {pieces : List (List Char)} (h : d.Sound) (hp : d.isFolderAt p = true)
    (hway : ∀ r ∈ pieces.scanl stepTo p, r <+: target ∨ d.isFolderAt r = true)
    (hmake : pieces.foldlM (fun s piece => open? piece s) (d, p) = some (d', q)) :
    Opened target d d' ∧ q = pieces.foldl stepTo p ∧ d'.isFolderAt q = true := by
  induction pieces generalizing d p with
  | nil =>
    cases hmake
    exact ⟨.refl h, rfl, hp⟩
  | cons piece pieces ih =>
    rw [List.foldlM_cons, Option.bind_eq_bind, Option.bind_eq_some_iff] at hmake
    obtain ⟨⟨d₁, p₁⟩, hopen, hrest⟩ := hmake
    simp only [List.scanl_cons, List.mem_cons, forall_eq_or_imp] at hway
    obtain ⟨hopened, rfl, hp₁⟩ := open?_opened h hp (hway.2 _ (mem_scanl_self _ pieces)) hopen
    obtain ⟨hopened', hq, hfolder⟩ :=
      ih hopened.sound hp₁ (fun r hr => (hway.2 r hr).imp id hopened.isFolderAt) hrest
    exact ⟨hopened.trans hopened', hq, hfolder⟩

theorem Sound.makeFolders? (h : d.Sound) (hstraight : d.Straight folder)
    (hmake : d.makeFolders? folder = some d') :
    Opened (d.place folder) d d' ∧ d'.isFolderAt (d.place folder) = true := by
  obtain ⟨⟨d₁, p⟩, hfold, rfl⟩ := Option.map_eq_some_iff.mp hmake
  obtain ⟨hopened, hp, hfolder⟩ := openAll_opened h (h.start folder) hstraight hfold
  exact ⟨hopened, hp ▸ hfolder⟩

end ApiPages.Disk
