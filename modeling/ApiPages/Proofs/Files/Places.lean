import ApiPages.Files.Disk
import ApiPages.Proofs.Text.Cutting

/-!
The place that a path names, whatever stands on the disk, and the files that stand on a disk after
each change of it. Main statements: a change only adds files at the place it names, and a name put
behind a folder leads to the place of that name in the folder.
-/
namespace ApiPages

namespace Path

def lead (folder : String) : String :=
  match folder.toList.getLast? with
  | none => ""
  | some '/' => folder
  | some _ => folder ++ "/"

theorem isAbsolute_of_not_mem {name : String} (h : '/' ∉ name.toList) :
    isAbsolute name = false := by
  rw [isAbsolute]
  cases hcons : name.toList with
  | nil => rfl
  | cons c cs =>
    rw [hcons] at h
    have hc : c ≠ '/' := fun he => h (he ▸ List.mem_cons_self)
    simpa using hc

theorem join_eq_lead {name : String} (h : '/' ∉ name.toList) (folder : String) :
    join folder name = lead folder ++ name := by
  rw [join, isAbsolute_of_not_mem h, if_neg Bool.false_ne_true, lead]
  cases folder.toList.getLast? with
  | none => exact String.empty_append.symm
  | some c =>
    by_cases hc : c = '/'
    · subst hc
      rfl
    · simp only [String.append_assoc]

theorem lead_cases (folder : String) :
    (folder = "" ∧ lead folder = "") ∨ ∃ cs, (lead folder).toList = cs ++ ['/'] ∧
      (folder.toList = cs ∧ cs ≠ [] ∨ folder.toList = cs ++ ['/']) := by
  rw [lead]
  split
  · next hnone =>
    have hnil := List.getLast?_eq_none_iff.mp hnone
    exact .inl ⟨String.toList_eq_nil_iff.mp hnil, rfl⟩
  · next hslash =>
    obtain ⟨cs, hcs⟩ := List.getLast?_eq_some_iff.mp hslash
    exact .inr ⟨cs, hcs, .inr hcs⟩
  · next c hc hlast =>
    refine .inr ⟨folder.toList, by simp, .inl ⟨rfl, ?_⟩⟩
    intro hnil
    rw [hnil] at hlast
    cases hlast

def Leads (cs : List Char) : Prop := cs = [] ∨ ∃ front, cs = front ++ ['/']

theorem leads_lead (folder : String) : Leads (lead folder).toList := by
  rcases lead_cases folder with ⟨-, hnil⟩ | ⟨cs, hcs, -⟩
  · exact .inl (by rw [hnil]; rfl)
  · exact .inr ⟨cs, hcs⟩

theorem Leads.tail {c : Char} {cs : List Char} (h : Leads (c :: cs)) : Leads cs := by
  rcases h with h | ⟨front, h⟩
  · cases h
  · cases front with
    | nil => exact .inl (List.cons.inj h).2
    | cons d front => exact .inr ⟨front, (List.cons.inj h).2⟩

theorem split_of_leads {cs name : List Char} (hcs : Leads cs) (hname : '/' ∉ name) :
    ∃ pieces, Text.split '/' (cs ++ name) = pieces ++ [name] ∧
      ∀ piece, Text.join ['/'] (pieces ++ [piece]) = cs ++ piece := by
  rcases hcs with rfl | ⟨front, rfl⟩
  · refine ⟨[], Text.split_of_not_mem hname, fun piece => ?_⟩
    simp [Text.join, List.intercalate]
  · refine ⟨Text.split '/' front, ?_, fun piece => ?_⟩
    · rw [List.append_assoc, List.singleton_append, Text.split_append_cons,
        Text.split_of_not_mem hname]
    · rw [Text.join_concat (Text.split_ne_nil _ _), Text.join_split, List.append_assoc,
        List.singleton_append]

theorem cut_eq (path : String) : ∃ head body, path.toList = head ++ body ∧
    (head = [] ∨ (∃ c, head = [c]) ∧ (path.toList = ['.'] ∨ '/' ∈ path.toList)) ∧
    cut path = (head,
      ((Text.split '/' body).reverse.dropWhile fun p => p == [] || p == ['.']).reverse) := by
  simp only [cut]
  split
  · next rest he => exact ⟨_, _, he, .inr ⟨⟨_, rfl⟩, .inr (by simp [he])⟩, rfl⟩
  · next he => exact ⟨_, _, he, .inr ⟨⟨_, rfl⟩, .inl he⟩, rfl⟩
  · next rest he => exact ⟨_, _, he, .inr ⟨⟨_, rfl⟩, .inr (by simp [he])⟩, rfl⟩
  · exact ⟨_, _, rfl, .inl rfl, rfl⟩

def IsName (name : List Char) : Prop := '/' ∉ name ∧ name ∉ [[], ['.'], ['.', '.']]

theorem cut_of_leads {path : String} {cs name : List Char} (hcs : Leads cs) (hname : IsName name)
    (hpath : path.toList = cs ++ name) : ∃ head body pieces, cs = head ++ body ∧
      cut path = (head, pieces ++ [name]) ∧
      ∀ piece, Text.join ['/'] (pieces ++ [piece]) = body ++ piece := by
  obtain ⟨head, rest, happend, hhead, hcut⟩ := cut_eq path
  obtain ⟨hslash, hcounts⟩ := hname
  simp only [List.mem_cons, List.not_mem_nil, or_false, not_or] at hcounts
  obtain ⟨body, hbody, rfl, rfl⟩ :
      ∃ body, Leads body ∧ cs = head ++ body ∧ rest = body ++ name := by
    rcases hhead with rfl | ⟨⟨c, rfl⟩, hrest⟩
    · exact ⟨cs, hcs, rfl, happend.symm.trans hpath⟩
    · cases cs with
      | nil =>
        rw [List.nil_append] at hpath
        rcases hrest with hdot | hmem
        · exact absurd (hpath.symm.trans hdot) hcounts.2.1
        · exact absurd (hpath ▸ hmem) hslash
      | cons d cs =>
        obtain ⟨rfl, hrest⟩ := List.cons.inj (happend.symm.trans hpath)
        exact ⟨cs, hcs.tail, rfl, hrest⟩
  obtain ⟨pieces, hsplit, hjoin⟩ := split_of_leads hbody hslash
  refine ⟨head, body, pieces, rfl, ?_, hjoin⟩
  rw [hcut, hsplit, List.reverse_append, List.reverse_singleton, List.singleton_append,
    List.dropWhile_cons_of_neg (by simp [hcounts]), List.reverse_cons, List.reverse_reverse]

theorem withExtension_of_leads {path : String} (extension : String) {cs name : List Char}
    (hcs : Leads cs) (hname : IsName name) (hpath : path.toList = cs ++ name) :
    (withExtension path extension).toList =
      cs ++ ((splitName (String.ofList name)).1 ++ "." ++ extension).toList := by
  obtain ⟨head, body, pieces, rfl, hcut, hjoin⟩ := cut_of_leads hcs hname hpath
  have hup : name ≠ ['.', '.'] := by
    rintro rfl
    exact hname.2 (by decide)
  have hfile : fileName? path = some (String.ofList name) := by
    rw [fileName?, hcut, List.getLast?_concat]
    exact if_neg hup
  rw [withExtension, hfile]
  simp only [hcut, List.dropLast_concat, glue, hjoin, String.toList_ofList, List.append_assoc]

theorem withExtension_join {folder name extension : String} (hname : IsName name.toList)
    (hnew : '/' ∉ ((splitName name).1 ++ "." ++ extension).toList) :
    withExtension (join folder name) extension =
      join folder ((splitName name).1 ++ "." ++ extension) := by
  have hpath : (join folder name).toList = (lead folder).toList ++ name.toList := by
    rw [join_eq_lead hname.1, String.toList_append]
  have hchars := withExtension_of_leads extension (leads_lead folder) hname hpath
  rw [String.ofList_toList, ← String.toList_append, ← join_eq_lead hnew] at hchars
  exact String.toList_inj.mp hchars

end Path

namespace Disk

def place (d : Disk) (path : String) : Route :=
  (Text.split '/' path.toList).foldl stepTo (d.start path)

theorem place_congr {d d' : Disk} (h : d'.here = d.here) (path : String) :
    d'.place path = d.place path := by
  rw [place, place, start, start, h]

theorem foldlM_enter? {d : Disk} {pieces : List (List Char)} {p q : Route}
    (h : pieces.foldlM d.enter? p = some q) :
    q = pieces.foldl stepTo p ∧ (pieces ≠ [] → (d.itemAt? q).isSome = true) := by
  induction pieces generalizing p with
  | nil => exact ⟨(Option.some.inj h).symm, fun hne => absurd rfl hne⟩
  | cons piece pieces ih =>
    rw [List.foldlM_cons, Option.bind_eq_bind, Option.bind_eq_some_iff] at h
    obtain ⟨r, henter, hrest⟩ := h
    rw [enter?, Option.ite_none_right_eq_some] at henter
    obtain ⟨⟨-, hsome⟩, hr⟩ := henter
    cases hr
    obtain ⟨hq, hitem⟩ := ih hrest
    refine ⟨hq, fun _ => ?_⟩
    cases pieces with
    | nil => exact hq ▸ hsome
    | cons next pieces => exact hitem (List.cons_ne_nil _ _)

theorem find?_eq {d : Disk} {path : String} {p : Route} (h : d.find? path = some p) :
    p = d.place path ∧ (d.itemAt? p).isSome = true := by
  rw [find?, Option.ite_none_left_eq_some] at h
  obtain ⟨hp, hitem⟩ := foldlM_enter? h.2
  exact ⟨hp, hitem (Text.split_ne_nil _ _)⟩

theorem readText?_eq {d : Disk} {path text : String} (h : d.readText? path = some text) :
    d.itemAt? (d.place path) = some (.file (some text)) := by
  have hitem : d.item? path = some (.file (some text)) := by
    simp only [readText?] at h
    split at h
    · next content he => rw [he, h]
    · contradiction
  obtain ⟨p, hfind, hp⟩ := Option.bind_eq_some_iff.mp hitem
  rw [← (find?_eq hfind).1, hp]

theorem slot?_eq {d : Disk} {path : String} {p : Route} (h : d.slot? path = some p) :
    p = d.place path ∧ p ≠ [] := by
  have hsplit := List.dropLast_concat_getLast (Text.split_ne_nil '/' path.toList)
  simp only [slot?, Option.ite_none_left_eq_some, Option.bind_eq_some_iff,
    Option.ite_none_right_eq_some] at h
  obtain ⟨-, folder, hfolder, ⟨-, hfile⟩, hp⟩ := h
  have hlast : (Text.split '/' path.toList).getLastD [] =
      (Text.split '/' path.toList).getLast (Text.split_ne_nil '/' path.toList) := by
    rw [List.getLastD_eq_getLast?, List.getLast?_eq_some_getLast (Text.split_ne_nil _ _),
      Option.getD_some]
  rw [hlast, (foldlM_enter? hfolder).1] at hp hfile
  have hplace : p = d.place path := by
    rw [place, ← hsplit, List.foldl_append, List.foldl_cons, List.foldl_nil]
    exact (Option.some.inj hp).symm
  refine ⟨hplace, fun hnil => hfile ?_⟩
  rw [Option.some.inj hp, hnil]
  rfl

theorem lookup_filter (keep : Route → Bool) {items : List (Route × Item)} {q : Route} {i : Item}
    (h : (items.filter fun item => keep item.1).lookup q = some i) : items.lookup q = some i := by
  have hq : keep q = true := by
    obtain ⟨before, after, hsplit, -⟩ := List.lookup_eq_some_iff.mp h
    have hmem : (q, i) ∈ items.filter fun item => keep item.1 := by
      rw [hsplit]
      exact List.mem_append_right _ List.mem_cons_self
    exact (List.mem_filter.mp hmem).2
  induction items with
  | nil => exact h
  | cons item items ih =>
    by_cases he : item.1 = q
    · rw [List.filter_cons_of_pos (by rw [he, hq])] at h
      obtain ⟨r, j⟩ := item
      cases he
      rw [List.lookup_cons_self] at h ⊢
      exact h
    · have hb : (q == item.1) = false := by simpa using Ne.symm he
      rw [List.lookup_cons, hb]
      by_cases hkeep : keep item.1 = true
      · rw [List.filter_cons_of_pos (by exact hkeep), List.lookup_cons, hb] at h
        exact ih h
      · rw [List.filter_cons_of_neg (by exact hkeep)] at h
        exact ih h

def HasFile (d : Disk) (p : Route) (content : Option String) : Prop :=
  d.itemAt? p = some (.file content)

variable {d d' : Disk} {p q : Route} {content : Option String}

theorem HasFile.ne_nil (h : d.HasFile p content) : p ≠ [] := by
  rintro rfl
  have hroot : some Item.folder = some (.file content) := h
  cases hroot

theorem HasFile.of_cutOff (h : (d.cutOff q).HasFile p content) : d.HasFile p content := by
  have hp := h.ne_nil
  simp only [HasFile, itemAt?, if_neg hp] at h ⊢
  exact lookup_filter (fun r => !q.isPrefixOf r) h

theorem HasFile.of_put {i : Item} (hq : q ≠ []) (h : (d.put q i).HasFile p content) :
    d.HasFile p content ∨ p = q ∧ i = .file content := by
  by_cases hp : p = q
  · subst hp
    rw [HasFile, itemAt?_put d p i hq] at h
    exact .inr ⟨rfl, Option.some.inj h⟩
  · rw [HasFile, itemAt?_put_of_ne d i hp] at h
    exact .inl h

def Spares (p : Route) (change : Disk → Disk) : Prop :=
  ∀ (d : Disk) (q : Route) (content : Option String), q = p ∨ (∃ name, q = p ++ [name]) →
    (change d).HasFile q content → d.HasFile q content

theorem spares_put {p r : Route} {i : Item} (hr : r ≠ []) (hne : r ≠ p) (hparent : r.dropLast ≠ p) :
    Spares p fun d => d.put r i := by
  intro d q content hq hfile
  rcases hfile.of_put hr with hfile | ⟨rfl, -⟩
  · exact hfile
  · rcases hq with rfl | ⟨name, rfl⟩
    · exact absurd rfl hne
    · exact absurd List.dropLast_concat hparent

theorem open?_files {piece : List Char} {s t : Disk × Route} (h : open? piece s = some t) :
    t.1.here = s.1.here ∧ ∀ p content, t.1.HasFile p content → s.1.HasFile p content := by
  obtain ⟨d, folder⟩ := s
  simp only [open?] at h
  split at h
  · cases h
    exact ⟨rfl, fun _ _ hfile => hfile⟩
  · contradiction
  · next hnone =>
    cases h
    refine ⟨rfl, fun p content hfile => ?_⟩
    have hplace : stepTo folder piece ≠ [] := by
      intro hnil
      rw [hnil] at hnone
      cases hnone
    rcases hfile.of_put hplace with hfile | ⟨-, hi⟩
    · exact hfile
    · cases hi

theorem makeFolders?_files {path : String} (h : d.makeFolders? path = some d') :
    d'.here = d.here ∧ ∀ p content, d'.HasFile p content → d.HasFile p content := by
  have hrun {pieces : List (List Char)} {s t : Disk × Route}
      (h : pieces.foldlM (fun s piece => open? piece s) s = some t) :
      t.1.here = s.1.here ∧ ∀ p content, t.1.HasFile p content → s.1.HasFile p content := by
    induction pieces generalizing s with
    | nil =>
      cases h
      exact ⟨rfl, fun _ _ hfile => hfile⟩
    | cons piece pieces ih =>
      rw [List.foldlM_cons, Option.bind_eq_bind, Option.bind_eq_some_iff] at h
      obtain ⟨r, hopen, hrest⟩ := h
      obtain ⟨hhere, hfiles⟩ := open?_files hopen
      obtain ⟨hhere', hfiles'⟩ := ih hrest
      exact ⟨hhere'.trans hhere, fun p content hfile => hfiles p content (hfiles' p content hfile)⟩
  obtain ⟨t, ht, rfl⟩ := Option.map_eq_some_iff.mp h
  exact hrun ht

theorem write?_files {path : String} {i : Item} (h : d.write? path i = some d') :
    d'.here = d.here ∧ d'.itemAt? (d.place path) = some i ∧
      ∀ p content, d'.HasFile p content →
        d.HasFile p content ∨ p = d.place path ∧ i = .file content := by
  obtain ⟨p, hslot, rfl⟩ := Option.map_eq_some_iff.mp h
  obtain ⟨rfl, hp⟩ := slot?_eq hslot
  exact ⟨rfl, itemAt?_put d _ i hp, fun _ _ hfile => hfile.of_put hp⟩

theorem move?_files {source target : String} (h : d.move? source target = some d') :
    d'.here = d.here ∧ ∀ p content, d'.HasFile p content →
      d.HasFile p content ∨ p = d.place target ∧ d.HasFile (d.place source) content := by
  simp only [move?, Option.bind_eq_bind, Option.bind_eq_some_iff, Option.pure_def,
    Option.some.injEq] at h
  obtain ⟨p, hfind, i, hi, q, hslot, rfl⟩ := h
  obtain ⟨rfl, -⟩ := find?_eq hfind
  obtain ⟨rfl, hq⟩ := slot?_eq hslot
  refine ⟨rfl, fun p content hfile => ?_⟩
  rcases hfile.of_put hq with hfile | ⟨hp, rfl⟩
  · exact .inl hfile.of_cutOff
  · exact .inr ⟨hp, hi⟩

theorem stepTo_name {name : String} (hname : Path.IsName name.toList) (p : Route) :
    stepTo p name.toList = p ++ [name] := by
  have hcounts := hname.2
  simp only [List.mem_cons, List.not_mem_nil, or_false, not_or] at hcounts
  rw [stepTo, if_neg (not_or.mpr ⟨hcounts.1, hcounts.2.1⟩), if_neg hcounts.2.2,
    String.ofList_toList]

theorem split_join (d : Disk) {name : String} (hslash : '/' ∉ name.toList) (folder : String) :
    ∃ pieces, Text.split '/' (Path.join folder name).toList = pieces ++ [name.toList] ∧
      d.start (Path.join folder name) = d.start folder ∧
      (Text.split '/' folder.toList = pieces ∨ Text.split '/' folder.toList = pieces ++ [[]]) := by
  rw [Path.join_eq_lead hslash]
  rcases Path.lead_cases folder with ⟨rfl, hlead⟩ | ⟨cs, hlead, hfolder⟩
  · refine ⟨[], ?_, ?_, .inr rfl⟩
    · rw [hlead, String.empty_append, Text.split_of_not_mem hslash]
      rfl
    · rw [hlead, String.empty_append, start, Path.isAbsolute_of_not_mem hslash]
      rfl
  · have hchars : (Path.lead folder ++ name).toList = cs ++ '/' :: name.toList := by
      rw [String.toList_append, hlead, List.append_assoc, List.singleton_append]
    refine ⟨Text.split '/' cs, ?_, ?_, ?_⟩
    · rw [hchars, Text.split_append_cons, Text.split_of_not_mem hslash]
    · have hhead : (Path.lead folder ++ name).toList.head? = folder.toList.head? := by
        rw [hchars]
        rcases hfolder with ⟨hfolder, hcs⟩ | hfolder
        · obtain ⟨c, more, rfl⟩ := List.exists_cons_of_ne_nil hcs
          rw [hfolder]
          rfl
        · rw [hfolder]
          cases cs <;> rfl
      rw [start, start, Path.isAbsolute, Path.isAbsolute, hhead]
    · rcases hfolder with ⟨hfolder, -⟩ | hfolder
      · exact .inl (by rw [hfolder])
      · exact .inr (by rw [hfolder, Text.split_append_cons]; rfl)

theorem place_join (d : Disk) {name : String} (hname : Path.IsName name.toList) (folder : String) :
    d.place (Path.join folder name) = d.place folder ++ [name] := by
  obtain ⟨pieces, hpieces, hstart, hfolder⟩ := d.split_join hname.1 folder
  have hplace : d.place folder = pieces.foldl stepTo (d.start folder) := by
    rw [place]
    rcases hfolder with hfolder | hfolder
    · rw [hfolder]
    · rw [hfolder, List.foldl_append]
      rfl
  rw [place, hpieces, hstart, List.foldl_append, ← hplace]
  exact stepTo_name hname _

end Disk

end ApiPages
