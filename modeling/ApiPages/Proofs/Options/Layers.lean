import ApiPages.Options.Basic

/-!
Options in layers. `stacked` says field by field what a list of layers amounts to: a list or a value
is that of the last layer that sets it, and a switch is on if some layer turns it on. A stack on top
of a stack is the two of them merged; the laws of `merge` are read off from that. Main statement:
merging is associative, the options that set nothing change nothing, and any number of layers merged
from the bottom up amount to their stack.
-/
namespace ApiPages.Options

/-- The last of the values that counts as set, or the unset one if none does. -/
def lastSet (isSet : α → Bool) (unset : α) (values : List α) : α :=
  (values.reverse.find? isSet).getD unset

def lastItems (field : Options → List α) (layers : List Options) : List α :=
  lastSet (fun items => !items.isEmpty) [] (layers.map field)

def lastValue (field : Options → Option α) (layers : List Options) : Option α :=
  lastSet Option.isSome none (layers.map field)

def stacked (layers : List Options) : Options where
  files := lastItems (·.files) layers
  source := lastValue (·.source) layers
  data := lastValue (·.data) layers
  template := lastValue (·.template) layers
  headingDepth := lastValue (·.headingDepth) layers
  exampleLang := lastValue (·.exampleLang) layers
  plugins := lastItems (·.plugins) layers
  helpers := lastItems (·.helpers) layers
  partials := lastItems (·.partials) layers
  nameFormat := lastValue (·.nameFormat) layers
  noGfm := layers.any (·.noGfm)
  separators := layers.any (·.separators)
  moduleIndex := lastValue (·.moduleIndex) layers
  globalIndex := lastValue (·.globalIndex) layers
  memberIndex := lastValue (·.memberIndex) layers
  paramList := lastValue (·.paramList) layers
  propertyList := lastValue (·.propertyList) layers
  noCache := layers.any (·.noCache)
  configure := lastValue (·.configure) layers
  html := layers.any (·.html)
  showPrivate := layers.any (·.showPrivate)

theorem lastSet_append {isSet : α → Bool} {unset : α} (h : isSet unset = false) (xs ys : List α) :
    lastSet isSet unset (xs ++ ys) =
      if isSet (lastSet isSet unset ys) then lastSet isSet unset ys
      else lastSet isSet unset xs := by
  rcases Option.eq_none_or_eq_some (ys.reverse.find? isSet) with hnone | ⟨y, hy⟩
  · simp [lastSet, List.find?_append, hnone, h]
  · simp [lastSet, List.find?_append, hy, List.find?_some hy]

theorem lastItems_append (field : Options → List α) (xs ys : List Options) :
    lastItems field (xs ++ ys) = unlessEmpty (lastItems field xs) (lastItems field ys) := by
  rw [lastItems, List.map_append, lastSet_append rfl, ← lastItems, ← lastItems, unlessEmpty]
  cases lastItems field ys <;> rfl

theorem lastValue_append (field : Options → Option α) (xs ys : List Options) :
    lastValue field (xs ++ ys) = (lastValue field ys <|> lastValue field xs) := by
  rw [lastValue, List.map_append, lastSet_append rfl, ← lastValue, ← lastValue]
  cases lastValue field ys <;> rfl

theorem stacked_append (xs ys : List Options) :
    stacked (xs ++ ys) = (stacked xs).merge (stacked ys) := by
  -- the one place that goes through the fields; every law of `merge` below comes from here
  simp only [stacked, merge, lastItems_append, lastValue_append, List.any_append]

theorem lastItems_singleton (field : Options → List α) (o : Options) :
    lastItems field [o] = field o := by
  cases hitems : field o <;> simp [lastItems, lastSet, hitems]

theorem lastValue_singleton (field : Options → Option α) (o : Options) :
    lastValue field [o] = field o := by
  cases hvalue : field o <;> simp [lastValue, lastSet, hvalue]

theorem stacked_singleton (o : Options) : stacked [o] = o := by
  simp only [stacked, lastItems_singleton, lastValue_singleton, List.any_cons, List.any_nil,
    Bool.or_false]

theorem merge_eq_stacked (a b : Options) : a.merge b = stacked [a, b] := by
  have happend := stacked_append [a] [b]
  rw [stacked_singleton, stacked_singleton] at happend
  exact happend.symm

theorem merge_assoc (a b c : Options) : (a.merge b).merge c = a.merge (b.merge c) := by
  calc (a.merge b).merge c
    _ = (stacked [a, b]).merge (stacked [c]) := by rw [merge_eq_stacked a b, stacked_singleton]
    _ = stacked ([a] ++ [b, c]) := (stacked_append [a, b] [c]).symm
    _ = (stacked [a]).merge (stacked [b, c]) := stacked_append [a] [b, c]
    _ = a.merge (b.merge c) := by rw [merge_eq_stacked b c, stacked_singleton]

theorem default_merge (o : Options) : merge {} o = o := by
  calc merge {} o
    _ = (stacked []).merge (stacked [o]) := by rw [stacked_singleton]; rfl
    _ = stacked ([] ++ [o]) := (stacked_append [] [o]).symm
    _ = o := stacked_singleton o

theorem merge_default (o : Options) : o.merge {} = o := by
  calc o.merge {}
    _ = (stacked [o]).merge (stacked []) := by rw [stacked_singleton]; rfl
    _ = stacked ([o] ++ []) := (stacked_append [o] []).symm
    _ = o := stacked_singleton o

theorem foldl_merge (under layers : List Options) :
    layers.foldl merge (stacked under) = stacked (under ++ layers) := by
  induction layers generalizing under with
  | nil => rw [List.foldl_nil, List.append_nil]
  | cons o layers ih =>
    have hstep : (stacked under).merge o = stacked (under ++ [o]) := by
      rw [stacked_append, stacked_singleton]
    rw [List.foldl_cons, hstep, ih, List.append_assoc, List.singleton_append]

/-- Layers merge in any grouping, one that sets nothing changes nothing, and of layers merged from
the bottom up each field is as their stack has it. -/
theorem merged_layers :
    (∀ a b c : Options, (a.merge b).merge c = a.merge (b.merge c)) ∧
      (∀ o : Options, merge {} o = o ∧ o.merge {} = o) ∧
      ∀ (bottom : Options) (layers : List Options),
        layers.foldl merge bottom = stacked (bottom :: layers) := by
  refine ⟨merge_assoc, fun o => ⟨default_merge o, merge_default o⟩, ?_⟩
  intro bottom layers
  have hfold := foldl_merge [bottom] layers
  rwa [stacked_singleton] at hfold

example :
    [{ files := ["b.js"], exampleLang := some "ts" }, { html := true }].foldl merge
        { files := ["a.js"], separators := true, headingDepth := some 4 } =
      { files := ["b.js"], separators := true, headingDepth := some 4, exampleLang := some "ts",
        html := true } := by
  decide

end ApiPages.Options
