import Mathlib
import Stencil.Proofs.Grammar.Definitions
import Stencil.Template

/-!
# The definition store

What the trees of a template are after any parses, in terms of what was defined. Within one source a
name is given content once, else the source is refused; over several sources the last content of a
name counts. In both cases an empty definition only counts where there is no content, and the names
stand in the order in which they were first defined. A parse that fails changes nothing
(`definitionStore`).
-/

set_option autoImplicit false
set_option relaxedAutoImplicit false

namespace Stencil

open Syntax

/-- A source that a template is to parse, with the delimiters and the functions set for it. -/
structure ParseStep where
  delimiters : Delimiters
  functions : FunctionTable
  source : String

/-- The trees that a step gives a template of a name, if it succeeds. -/
def ParseStep.given? (step : ParseStep) (name : String) : Option TreeSet :=
  (Syntax.parse name step.delimiters step.functions.has step.source).toOption

/-- The template after a step. A step that fails leaves it as it is. -/
def Template.attempt (template : Template) (step : ParseStep) : Template :=
  match { template with delimiters := step.delimiters, functions := step.functions }.parse
    step.source with
  | .ok after => after
  | .error _ => template

/-- Of sets in their order, the tree of the latest one that gives a name a tree with content, or
else of the latest one that gives it a tree. -/
def latestTree? (given : List TreeSet) (name : String) : Option Tree :=
  (given.reverse.findSome? fun set ↦ (set.find? name).filter (!·.isEmpty)).or
    (given.reverse.findSome? (·.find? name))

/-! ### Steps -/

@[simp]
theorem Template.attempt_name (template : Template) (step : ParseStep) :
    (template.attempt step).name = template.name := by
  unfold attempt Template.parse
  cases Syntax.parse template.name step.delimiters step.functions.has step.source <;> rfl

/-- The name of a template is the same after several steps. -/
theorem Template.foldl_attempt_name (template : Template) (steps : List ParseStep) :
    (steps.foldl attempt template).name = template.name := by
  induction steps generalizing template with
  | nil => rfl
  | cons step rest ih => rw [List.foldl_cons, ih, attempt_name]

/-- A step merges the trees that it gives. -/
theorem Template.attempt_trees (template : Template) (step : ParseStep) :
    (template.attempt step).trees =
      ((step.given? template.name).toList.flatMap TreeSet.trees).foldl TreeSet.merge
        template.trees := by
  unfold attempt Template.parse ParseStep.given?
  cases Syntax.parse template.name step.delimiters step.functions.has step.source with
  | error => rfl
  | ok set => simp [Except.toOption, bind, Except.bind, pure, Except.pure]

/-- A step that gives no trees changes nothing. -/
theorem Template.attempt_eq_self {template : Template} {step : ParseStep}
    (hfails : step.given? template.name = none) : template.attempt step = template := by
  unfold ParseStep.given? at hfails
  unfold attempt Template.parse
  cases hparse : Syntax.parse template.name step.delimiters step.functions.has step.source with
  | error => rfl
  | ok set => simp [hparse, Except.toOption] at hfails

/-- Several steps merge the trees that they give in their order. -/
theorem Template.foldl_attempt_trees (template : Template) (steps : List ParseStep) :
    (steps.foldl attempt template).trees =
      ((steps.filterMap (·.given? template.name)).flatMap TreeSet.trees).foldl TreeSet.merge
        template.trees := by
  induction steps generalizing template with
  | nil => rfl
  | cons step rest ih =>
    rw [List.foldl_cons, ih, attempt_name, attempt_trees, ← List.foldl_append]
    cases hgiven : step.given? template.name with
    | none => simp [hgiven]
    | some set => simp [hgiven]

/-! ### The latest tree -/

/-- In a set of distinct names, the trees of a name are the one that it stands for. -/
theorem Syntax.TreeSet.filter_name {set : TreeSet} (hset : set.names.Nodup) (name : String) :
    set.trees.filter (·.name = name) = (set.find? name).toList := by
  obtain ⟨trees⟩ := set
  change (trees.map Tree.name).Nodup at hset
  change trees.filter (·.name = name) = (trees.find? (·.name = name)).toList
  induction trees with
  | nil => rfl
  | cons tree rest ih =>
    rw [List.map_cons, List.nodup_cons] at hset
    by_cases hname : tree.name = name
    · have hrest : rest.filter (·.name = name) = [] := by
        rw [List.filter_eq_nil_iff]
        intro other hother hsame
        refine hset.1 (List.mem_map.mpr ⟨other, hother, ?_⟩)
        rw [hname]
        simpa using hsame
      simp [hname, hrest]
    · rw [List.filter_cons_of_neg (by simpa using hname),
        List.find?_cons_of_neg (by simpa using hname), ih hset.2]

/-- The last tree of a kind among those of several sets that hold at most one of it each. -/
theorem getLast?_filter_flatMap {given : List TreeSet} {kind : Tree → Bool}
    {found : TreeSet → Option Tree}
    (hfound : ∀ set ∈ given, set.trees.filter kind = (found set).toList) :
    ((given.flatMap TreeSet.trees).filter kind).getLast? = given.reverse.findSome? found := by
  rw [List.filter_flatMap, List.getLast?_flatMap, ← List.head?_filterMap, ← List.head?_filterMap]
  refine congrArg List.head? (List.filterMap_congr fun set hset ↦ ?_)
  rw [hfound set (List.mem_reverse.mp hset)]
  cases found set <;> rfl

/-- The last definition among those of several sets of distinct names is the latest tree. -/
theorem lastDefinition?_flatMap {given : List TreeSet} (hgiven : ∀ set ∈ given, set.names.Nodup)
    (name : String) :
    lastDefinition? (given.flatMap TreeSet.trees) name = latestTree? given name := by
  have hnamed : ∀ set ∈ given, set.trees.filter (·.name = name) = (set.find? name).toList :=
    fun set hset ↦ TreeSet.filter_name (hgiven set hset) name
  have hfilled : ∀ set ∈ given, set.trees.filter (·.fills name) =
      ((set.find? name).filter (!·.isEmpty)).toList := by
    intro set hset
    have hboth : set.trees.filter (·.fills name) =
        (set.trees.filter (·.name = name)).filter (!·.isEmpty) := by
      rw [List.filter_filter]
      exact List.filter_congr fun tree _ ↦ Bool.and_comm _ _
    rw [hboth, hnamed set hset]
    cases set.find? name with
    | none => rfl
    | some tree => cases hempty : tree.isEmpty <;> simp [Option.filter, hempty]
  rw [lastDefinition?, getLast?_filter_flatMap hfilled, getLast?_filter_flatMap hnamed]
  rfl

/-- The trees that a step gives have distinct names. -/
theorem ParseStep.nodup_names {step : ParseStep} {name : String} {set : TreeSet}
    (hgiven : step.given? name = some set) : set.names.Nodup := by
  unfold given? at hgiven
  cases hparse : Syntax.parse name step.delimiters step.functions.has step.source with
  | error => simp [hparse, Except.toOption] at hgiven
  | ok found =>
    obtain rfl : found = set := by simpa [hparse, Except.toOption] using hgiven
    exact nodup_names_of_parse hparse

/-! ### The store -/

/-- What a template's names stand for after several steps, and the names. -/
theorem Template.foldl_attempt {template : Template} (hnames : template.trees.names.Nodup)
    (steps : List ParseStep) :
    let given := template.trees :: steps.filterMap (·.given? template.name)
    let after := steps.foldl attempt template
    (∀ name, after.trees.find? name = latestTree? given name) ∧
      after.trees.names = (given.flatMap TreeSet.names).eraseDups := by
  intro given after
  have hafter : after.trees = (given.flatMap TreeSet.trees).foldl TreeSet.merge {} := by
    rw [List.flatMap_cons, List.foldl_append, TreeSet.foldl_merge_eq hnames]
    exact template.foldl_attempt_trees steps
  have hgiven : ∀ set ∈ given, set.names.Nodup := by
    intro set hset
    rcases List.mem_cons.mp hset with rfl | hset
    · exact hnames
    · obtain ⟨step, -, hstep⟩ := List.mem_filterMap.mp hset
      exact step.nodup_names hstep
  constructor
  · intro name
    rw [hafter, TreeSet.find?_foldl_merge, lastDefinition?_flatMap hgiven]
  · rw [hafter, TreeSet.names_foldl_merge, List.map_flatMap]
    rfl

/-- What is defined under which names.

In a source that is accepted no name is given content twice; its trees are, for each name, the one
definition with content or else the last definition, in the order of the first definitions; and a
source that the grammar admits apart from that is refused exactly if a name is given content twice.

After any steps, a name of a template stands for the tree of the latest successful step that gives
it a tree with content, or else of the latest one that gives it a tree, the template's trees at the
start counting as a first step; the names are in the order in which they were first given; and a
step that fails leaves the template as it is. -/
theorem definitionStore :
    (∀ (name : String) (delimiters : Delimiters) (isFunction : String → Bool) (source : String),
      (∀ set, Syntax.parse name delimiters isFunction source = .ok set →
        ∃ definitions, GathersSource name delimiters isFunction source definitions ∧
          (∀ other, definitions.countP (·.fills other) ≤ 1) ∧
          (∀ other, set.find? other = lastDefinition? definitions other) ∧
          set.names = (definitions.map Tree.name).eraseDups) ∧
      ∀ definitions, GathersSource name delimiters isFunction source definitions →
        ((∃ error, Syntax.parse name delimiters isFunction source = .error error) ↔
          ∃ other, 2 ≤ definitions.countP (·.fills other))) ∧
    ∀ (template : Template) (steps : List ParseStep), template.trees.names.Nodup →
      let given := template.trees :: steps.filterMap (·.given? template.name)
      let after := steps.foldl Template.attempt template
      (∀ name, after.trees.find? name = latestTree? given name) ∧
        after.trees.names = (given.flatMap TreeSet.names).eraseDups ∧
        ∀ step : ParseStep, step.given? template.name = none → after.attempt step = after := by
  refine ⟨fun name delimiters isFunction source ↦ ⟨?_, ?_⟩, ?_⟩
  · intro set hparse
    obtain ⟨definitions, hgathers, hadmits⟩ := exists_gathers_of_parse hparse
    have hset := (parse_of_gathers hgathers).1 hadmits
    obtain rfl : set = definitions.foldl TreeSet.merge {} := by
      rw [hparse] at hset
      exact Except.ok.inj hset
    have hcount := TreeSet.admits_iff.mp hadmits
    refine ⟨definitions, hgathers, fun other ↦ ?_, ?_, ?_⟩
    · simpa [TreeSet.hasContent, TreeSet.find?] using hcount other
    · exact TreeSet.find?_foldl_merge definitions
    · exact TreeSet.names_foldl_merge definitions
  · intro definitions hgathers
    obtain ⟨haccepted, hrefused⟩ := parse_of_gathers hgathers
    have hadmits : TreeSet.Admits {} definitions ↔
        ¬ ∃ other, 2 ≤ definitions.countP (·.fills other) := by
      rw [TreeSet.admits_iff, not_exists]
      refine forall_congr' fun other ↦ ?_
      change 0 + _ ≤ 1 ↔ _
      omega
    by_cases hagain : TreeSet.Admits {} definitions
    · refine iff_of_false ?_ (hadmits.mp hagain)
      rintro ⟨error, herror⟩
      rw [haccepted hagain] at herror
      cases herror
    · obtain ⟨s, other, hparse⟩ := hrefused hagain
      exact iff_of_true ⟨_, hparse⟩ (not_not.mp fun hnone ↦ hagain (hadmits.mpr hnone))
  · intro template steps hnames given after
    obtain ⟨hfound, hordered⟩ := Template.foldl_attempt hnames steps
    refine ⟨hfound, hordered, fun step hfails ↦ Template.attempt_eq_self ?_⟩
    rw [Template.foldl_attempt_name]
    exact hfails

/-- The step that parses a source between brackets, with no functions. -/
def bracketedStep (source : String) : ParseStep := ⟨Delimiters.brackets, {}, source⟩

/-- The trees of a source that gives a name content and then an empty definition. -/
def greetingTrees : TreeSet :=
  ⟨[⟨"hi", "page", ⟨⟨13, 1⟩, [.text ⟨13, 1⟩ "Hi"]⟩⟩, ⟨"page", "page", ⟨⟨0, 1⟩, []⟩⟩]⟩

/-- The trees of a source that gives the name an empty definition and has content itself. -/
def emptiedTrees : TreeSet :=
  ⟨[⟨"hi", "page", ⟨⟨13, 1⟩, []⟩⟩, ⟨"page", "page", ⟨⟨0, 1⟩, [.text ⟨18, 1⟩ "!"]⟩⟩]⟩

/-- The first source fills no name twice. After both, with a source that is refused in between, the
name has the content from the first, and that of the template itself stands behind it. -/
theorem definitionStore_greeting :
    (∃ definitions, GathersSource "page" Delimiters.brackets ({} : FunctionTable).has
        "[define \"hi\"]Hi[end][define \"hi\"] [end]" definitions ∧
      ¬ ∃ other, 2 ≤ definitions.countP (·.fills other)) ∧
    let after := [bracketedStep "[define \"hi\"]Hi[end][define \"hi\"] [end]",
      bracketedStep "[end]", bracketedStep "[define \"hi\"][end]!"].foldl Template.attempt { name := "page" }
    after.trees.find? "hi" = some ⟨"hi", "page", ⟨⟨13, 1⟩, [.text ⟨13, 1⟩ "Hi"]⟩⟩ ∧
      after.trees.names = ["hi", "page"] ∧ after.attempt (bracketedStep "[end]") = after := by
  have hparse : Syntax.parse "page" Delimiters.brackets ({} : FunctionTable).has
      "[define \"hi\"]Hi[end][define \"hi\"] [end]" = .ok greetingTrees := by
    cbv
  have hrefused : (bracketedStep "[end]").given? "page" = none := by cbv
  have hgiven : [bracketedStep "[define \"hi\"]Hi[end][define \"hi\"] [end]", bracketedStep "[end]",
      bracketedStep "[define \"hi\"][end]!"].filterMap (·.given? "page") =
      [greetingTrees, emptiedTrees] := by
    cbv
  constructor
  · obtain ⟨definitions, hgathers, -⟩ := (definitionStore.1 _ _ _ _).1 _ hparse
    refine ⟨definitions, hgathers, fun htwice ↦ ?_⟩
    obtain ⟨error, herror⟩ := ((definitionStore.1 _ _ _ _).2 _ hgathers).mpr htwice
    rw [hparse] at herror
    cases herror
  · intro after
    obtain ⟨hfound, hnames, hkept⟩ := definitionStore.2 { name := "page" } _ List.nodup_nil
    rw [hgiven] at hfound hnames
    exact ⟨(hfound "hi").trans rfl, hnames.trans rfl, hkept _ hrefused⟩

end Stencil
