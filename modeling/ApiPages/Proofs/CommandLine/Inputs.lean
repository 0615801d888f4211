import ApiPages.CommandLine.Run
import ApiPages.Proofs.Transparency

/-!
What a page is made of. Options may name entries, a source text, files and a configuration at once;
the first of them decides and the others do not count. A command line lies over a file of options
field by field, so an input that it does not name stays as the file has it. Main statement: the one
input that a command line names decides unless the file names one that comes before it.
-/
namespace ApiPages

inductive Supply where
  | data | source | files | configure
  deriving DecidableEq, Repr

namespace Supply

/-- The order in which inputs are looked for. -/
def all : List Supply := [data, source, files, configure]

def rank : Supply → Nat
  | data => 0
  | source => 1
  | files => 2
  | configure => 3

theorem find?_all_eq_some_iff {p : Supply → Bool} {k : Supply} :
    all.find? p = some k ↔ p k = true ∧ ∀ k', p k' = true → k.rank ≤ k'.rank := by
  have hforall (q : Supply → Prop) : (∀ k, q k) ↔ q data ∧ q source ∧ q files ∧ q configure :=
    ⟨fun h => ⟨h _, h _, h _, h _⟩, fun ⟨hdata, hsource, hfiles, hconfigure⟩ k => by
      cases k <;> assumption⟩
  rw [hforall]
  cases k <;> cases hdata : p data <;> cases hsource : p source <;> cases hfiles : p files <;>
    cases hconfigure : p configure <;> simp [all, rank, hdata, hsource, hfiles, hconfigure]

end Supply

namespace Options

def names (o : Options) : Supply → Bool
  | .data => o.data.isSome
  | .source => o.source.isSome
  | .files => !o.files.isEmpty
  | .configure => o.configure.isSome

def only (o : Options) (k : Option Supply) : Options :=
  { o with
    data := if k = some .data then o.data else none
    source := if k = some .source then o.source else none
    files := if k = some .files then o.files else []
    configure := if k = some .configure then o.configure else none }

def withoutInput (o : Options) : Options := o.only none

def decided (o : Options) : Options := o.only (Supply.all.find? o.names)

variable {base own : Options} {k : Supply}

theorem names_merge (base own : Options) (k : Supply) :
    (base.merge own).names k = (own.names k || base.names k) := by
  cases k with
  | data | source | configure =>
    simp only [names, merge, Option.orElse_eq_orElse, Option.orElse_eq_or, Option.isSome_or]
  | files => cases hfiles : own.files <;> simp [names, merge, unlessEmpty, hfiles]

theorem names_withoutInput (o : Options) (k : Supply) : o.withoutInput.names k = false := by
  cases k <;> rfl

theorem only_merge_of_names (h : own.names k = true) :
    (base.merge own).only (some k) = (base.withoutInput.merge own).only (some k) := by
  cases k with
  | files =>
    rw [names, Bool.not_eq_true'] at h
    simp [only, withoutInput, merge, unlessEmpty, h]
  | data | source | configure =>
    obtain ⟨value, hvalue⟩ := Option.isSome_iff_exists.mp h
    simp [only, withoutInput, merge, hvalue]

theorem only_merge_of_not_names (h : own.names k = false) :
    (base.merge own).only (some k) = (base.merge own.withoutInput).only (some k) := by
  cases k with
  | files =>
    rw [names, Bool.not_eq_false'] at h
    simp [only, withoutInput, merge, unlessEmpty, h]
  | data | source | configure =>
    have hnone := Option.isSome_eq_false_iff.mp h
    rw [Option.isNone_iff_eq_none] at hnone
    simp [only, withoutInput, merge, hnone]

section Given

variable (hgiven : ∀ k', own.names k' = true ↔ k' = k)
include hgiven

theorem decided_merge_of_first (hfirst : ∀ k', base.names k' = true → k.rank ≤ k'.rank) :
    (base.merge own).decided = (base.withoutInput.merge own).decided := by
  have hown : own.names k = true := (hgiven k).mpr rfl
  have hfind (base : Options) (h : ∀ k', base.names k' = true → k.rank ≤ k'.rank) :
      Supply.all.find? (base.merge own).names = some k := by
    refine Supply.find?_all_eq_some_iff.mpr ⟨by rw [names_merge, hown, Bool.true_or], ?_⟩
    intro k' hk'
    rw [names_merge, Bool.or_eq_true] at hk'
    rcases hk' with hk' | hk'
    · exact ((hgiven k').mp hk') ▸ le_rfl
    · exact h k' hk'
  have hbare : ∀ k', base.withoutInput.names k' = true → k.rank ≤ k'.rank := by
    intro k' hk'
    rw [names_withoutInput] at hk'
    cases hk'
  rw [decided, decided, hfind base hfirst, hfind _ hbare, only_merge_of_names hown]

theorem decided_merge_of_earlier (hearlier : ∃ k', base.names k' = true ∧ k'.rank < k.rank) :
    (base.merge own).decided = (base.merge own.withoutInput).decided := by
  obtain ⟨k', hk', hrank⟩ := hearlier
  have hsome : (Supply.all.find? base.names).isSome = true :=
    List.find?_isSome.mpr ⟨k', by cases k' <;> decide, hk'⟩
  obtain ⟨first, hfirst⟩ := Option.isSome_iff_exists.mp hsome
  obtain ⟨hnamed, hleast⟩ := Supply.find?_all_eq_some_iff.mp hfirst
  have hlt : first.rank < k.rank := (hleast k' hk').trans_lt hrank
  have hown : own.names first = false := by
    rw [Bool.eq_false_iff]
    intro htrue
    rw [(hgiven first).mp htrue] at hlt
    exact lt_irrefl _ hlt
  have hfind (upper : Options) (h : ∀ k', upper.names k' = true → k' = k) :
      Supply.all.find? (base.merge upper).names = some first := by
    refine Supply.find?_all_eq_some_iff.mpr ⟨by rw [names_merge, hnamed, Bool.or_true], ?_⟩
    intro k'' hk''
    rw [names_merge, Bool.or_eq_true] at hk''
    rcases hk'' with hk'' | hk''
    · exact (h k'' hk'') ▸ hlt.le
    · exact hleast k'' hk''
  have hbare : ∀ k', own.withoutInput.names k' = true → k' = k := by
    intro k'' hk''
    rw [names_withoutInput] at hk''
    cases hk''
  rw [decided, decided, hfind own fun k'' hk'' => (hgiven k'').mp hk'', hfind _ hbare,
    only_merge_of_not_names hown]

end Given

theorem data_decided (o : Options) : o.decided.data = o.data := by
  cases hdata : o.data <;> simp [decided, only, Supply.all, names, hdata]

end Options

theorem ExtractOptions.inputs_decided {o : Options} (h : o.data = none) (d : Disk) (base : String) :
    (ofOptions o.decided).inputs d base = (ofOptions o).inputs d base := by
  cases hsource : o.source with
  | some text =>
    have hfind : Supply.all.find? o.names = some .source := by
      simp [Supply.all, Options.names, h, hsource]
    simp [inputs, ofOptions, Options.decided, Options.only, hfind, hsource]
  | none =>
    cases hfiles : o.files with
    | cons pattern patterns =>
      have hfind : Supply.all.find? o.names = some .files := by
        simp [Supply.all, Options.names, h, hsource, hfiles]
      simp [inputs, paths, ofOptions, Options.decided, Options.only, hfind, hsource, hfiles]
    | nil =>
      cases hconfigure : o.configure <;>
        simp [inputs, paths, ofOptions, Options.decided, Options.only, Supply.all, Options.names, h,
          hsource, hfiles, hconfigure]

theorem Service.page_decided (s : Service) (w : World) (o : Options) :
    (s.bare.page w o.decided).1 = (s.bare.page w o).1 := by
  have hrender : RenderOptions.ofOptions o.decided = RenderOptions.ofOptions o := rfl
  rw [page_bare, page_bare, Options.data_decided, hrender]
  cases hdata : o.data with
  | some entries => rfl
  | none =>
    have hfound : s.found w.disk o.decided = s.found w.disk o := by
      rw [found, found, ExtractOptions.inputs_decided hdata]
      rfl
    rw [hfound]
    rfl

namespace CommandLine

variable {s : Service} {w : World} {d : Disk} {i : Invocation} {base own : Options}

def Invocation.names (i : Invocation) : Supply → Bool
  | .data => i.data.isSome
  | k => i.options.names k

theorem names_ownOptions (h : ownOptions d i = .ok own) (k : Supply) : own.names k = i.names k := by
  rw [ownOptions] at h
  cases htemplate : i.template.mapM (readNamed d "template") with
  | error f => rw [htemplate] at h; cases h
  | ok template =>
    cases hdata : i.data.mapM (readEntries d) with
    | error f => rw [htemplate, hdata] at h; cases h
    | ok data =>
      rw [htemplate, hdata] at h
      cases h
      cases k with
      | source | files | configure => rfl
      | data =>
        cases hpath : i.data with
        | none =>
          rw [hpath] at hdata
          cases hdata
          simp [Options.names, Invocation.names, hpath]
        | some path =>
          rw [hpath, Option.mapM_some] at hdata
          cases hread : readEntries d path with
          | error f => rw [hread] at hdata; cases hdata
          | ok entries =>
            rw [hread] at hdata
            cases hdata
            simp [Options.names, Invocation.names, hpath]

def rendered (s : Service) (w : World) (i : Invocation) : Except Failure String := do
  let options ← resolve w.disk s.base i
  (s.bare.page w options).1

def renderedWith (base : Options) (edit : Options → Options) (s : Service) (w : World)
    (i : Invocation) : Except Failure String := do
  let own ← ownOptions w.disk i
  (s.bare.page w (base.merge (edit own))).1

theorem rendered_eq_renderedWith {base' : Options} {edit : Options → Options}
    (hfile : fileOptions w.disk s.base i.config = .ok base)
    (h : ∀ own, ownOptions w.disk i = .ok own →
      (base.merge own).decided = (base'.merge (edit own)).decided) :
    rendered s w i = renderedWith base' edit s w i := by
  rw [rendered, renderedWith, resolve, hfile]
  cases hown : ownOptions w.disk i with
  | error f => rfl
  | ok own =>
    show (s.bare.page w (base.merge own)).1 = (s.bare.page w (base'.merge (edit own))).1
    rw [← Service.page_decided, h own hown, Service.page_decided]

/-- The one input that a command line names decides as if the file of options named none, unless the
file names one that comes before it; then that one decides as if the command line named none. -/
theorem named_input_decides {k : Supply} (hfile : fileOptions w.disk s.base i.config = .ok base)
    (hgiven : ∀ k', i.names k' = true ↔ k' = k) :
    ((∀ k', base.names k' = true → k.rank ≤ k'.rank) →
        rendered s w i = renderedWith base.withoutInput id s w i) ∧
      ((∃ k', base.names k' = true ∧ k'.rank < k.rank) →
        rendered s w i = renderedWith base Options.withoutInput s w i) := by
  have hnames {own : Options} (hown : ownOptions w.disk i = .ok own) :
      ∀ k', own.names k' = true ↔ k' = k := by
    intro k'
    rw [names_ownOptions hown, hgiven]
  constructor
  · intro hfirst
    exact rendered_eq_renderedWith hfile fun own hown =>
      Options.decided_merge_of_first (hnames hown) hfirst
  · intro hearlier
    exact rendered_eq_renderedWith hfile fun own hown =>
      Options.decided_merge_of_earlier (hnames hown) hearlier

def longnames : String := "\x7b% for e in data %\x7d\x7b\x7b e.longname \x7d\x7d;\x7b% endfor %\x7d"

def settings (input : String) : Disk :=
  { items := [([".jsdoc2md.json"],
      .file (some ("\x7b" ++ input ++ ",\"template\":\"" ++ longnames ++ "\"\x7d")))] }

def entrySettings : Disk := settings "\"data\":[\x7b\"longname\":\"a\"\x7d]"

def entryOptions : Options := { data := some [{ longname := "a" }], template := some longnames }

def patternSettings : Disk := settings "\"files\":[\"*.js\"]"

def patternOptions : Options := { files := ["*.js"], template := some longnames }

def documentsSource : Invocation :=
  { options := { source := some "/** B. */\nfunction b () \x7b\x7d" } }

theorem names_documentsSource (k : Supply) : documentsSource.names k = true ↔ k = .source := by
  cases k <;> decide

theorem named_input_decides_documentsSource :
    fileOptions patternSettings "" documentsSource.config = .ok patternOptions ∧
      fileOptions entrySettings "" documentsSource.config = .ok entryOptions ∧
      rendered {} { disk := patternSettings } documentsSource =
        renderedWith patternOptions.withoutInput id {} { disk := patternSettings } documentsSource ∧
      rendered {} { disk := entrySettings } documentsSource =
        renderedWith entryOptions Options.withoutInput {} { disk := entrySettings }
          documentsSource := by
  have hpatterns : fileOptions patternSettings "" documentsSource.config = .ok patternOptions := by
    decide +kernel
  have hentries : fileOptions entrySettings "" documentsSource.config = .ok entryOptions := by
    decide +kernel
  refine ⟨hpatterns, hentries, ?_, ?_⟩
  · refine (named_input_decides (s := {}) (w := { disk := patternSettings }) hpatterns
      names_documentsSource).1 fun k hk => ?_
    cases k with
    | data | source => cases hk
    | files | configure => decide
  · exact (named_input_decides (s := {}) (w := { disk := entrySettings }) hentries
      names_documentsSource).2 ⟨.data, by decide, by decide⟩

theorem named_source_ignored :
    (∀ k, documentsSource.names k = true ↔ k = .source) ∧
      fileOptions entrySettings "" documentsSource.config = .ok entryOptions ∧
      rendered {} { disk := entrySettings } documentsSource = .ok "a;\n" ∧
      renderedWith entryOptions.withoutInput id {} { disk := entrySettings } documentsSource =
        .ok "b;\n" :=
  ⟨names_documentsSource, by decide +kernel, by decide +kernel, by decide +kernel⟩

end CommandLine

end ApiPages
