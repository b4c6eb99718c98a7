import Mathlib
import Stencil.Proofs.Execution.Concatenation
import Stencil.Proofs.Grammar.Concatenation
import Stencil.Template

/-!
# Templates one after the other

Two sources of which the first ends with the right delimiter of an action mean one after the other
what they mean alone: the items are those of the first and then those of the second, the nodes are
those of the first and then those of the second, and a template of both writes what the first writes
and then what the second writes (`concatenates`).

The three layers are put together here. `lex_append` is about the items, `parse_append` about the
nodes, and `exists_runNodes_append` about the executions. Two things can keep the sources from
meaning the same together: a comment that starts where they meet, and a source that invokes the
template which it is parsed into, for this is the one with both (`not_concatenates`).
-/

set_option autoImplicit false
set_option relaxedAutoImplicit false

namespace Stencil

open Syntax

namespace Template

/-! ### Templates with one tree -/

/-- The template with one tree, which has the template's own name. -/
def holding (template : Template) (root : Body) : Template :=
  { template with trees := ⟨[⟨template.name, template.name, root⟩]⟩ }

/-- The frame in which that tree runs. -/
def frameOf (template : Template) (root : Body) : Exec.Frame :=
  ⟨⟨template.name, template.name, root⟩, template.functions, template.missingKey⟩

/-- That a template is rendered on data without invoking one: its own tree can be run although every
invocation is refused. -/
def InvokesNothing (template : Template) (data : Value) : Prop :=
  ∃ tree flow after, template.trees.find? template.name = some tree ∧
    (Exec.runBody (template.program.frame tree) .refuse data tree.root).run (.start data) =
      (.ok flow, after)

section Holding

variable {template parsed : Template} {source : String} {root : Body}

theorem root_eq_of_holding_eq {other : Body}
    (hsame : template.holding root = template.holding other) : root = other := by
  have htrees : [(⟨template.name, template.name, root⟩ : Tree)] =
      [⟨template.name, template.name, other⟩] :=
    congrArg (fun holding : Template ↦ holding.trees.trees) hsame
  exact congrArg Tree.root (List.singleton_inj.mp htrees)

theorem find?_holding :
    (template.holding root).trees.find? (template.holding root).name =
      some ⟨template.name, template.name, root⟩ := by
  simp [holding, TreeSet.find?]

/-- A template accepts the sources that its parser accepts. -/
theorem exists_set_of_parse (hparse : template.parse source = .ok parsed) :
    ∃ set, Syntax.parse template.name template.delimiters template.functions.has source =
      .ok set := by
  obtain ⟨set, hset, _⟩ := Parse.bind_eq_ok.mp hparse
  exact ⟨set, hset⟩

/-- A template without trees has the tree of its first source alone. -/
theorem parse_eq_holding (hfresh : template.trees = {})
    (hparse : Syntax.parse template.name template.delimiters template.functions.has source =
      .ok ⟨[⟨template.name, template.name, root⟩]⟩) :
    template.parse source = .ok (template.holding root) := by
  have hmerge : [⟨template.name, template.name, root⟩].foldl TreeSet.merge template.trees =
      ⟨[⟨template.name, template.name, root⟩]⟩ := by
    rw [hfresh, List.foldl_cons, List.foldl_nil, TreeSet.merge_new List.not_mem_nil]
    rfl
  refine Parse.bind_eq_ok.mpr ⟨_, hparse, ?_⟩
  rw [hmerge]
  rfl

/-- What a run without invocations writes, the template writes when it is rendered. -/
theorem render_of_run {data : Value} {tree : Tree} {flow : Exec.Flow} {after : Exec.State}
    (hfind : template.program.trees.find? template.name = some tree)
    (hrun : (Exec.runBody (template.program.frame tree) .refuse data tree.root).run (.start data) =
      (.ok flow, after)) :
    template.render data = .ok after.sink.output := by
  have hbounds := Exec.runBody_bounds _ (Exec.invoker template.program maxInvocations) data
    tree.root _ _ _ hrun
  have hexecute : template.execute data none none = ⟨after.sink.output, none⟩ := by
    change Exec.execute template.program template.name template.name none data = _
    unfold Exec.State.start at hbounds
    rw [Exec.execute_eq hfind, hbounds]
  unfold render
  rw [hexecute]

/-- A template that invokes nothing is rendered by a run without invocations. -/
theorem InvokesNothing.exists_run {data : Value} {text : String}
    (hnothing : (template.holding root).InvokesNothing data)
    (hrender : (template.holding root).render data = .ok text) :
    ∃ flow after, (Exec.runBody (template.frameOf root) .refuse data root).run (.start data) =
        (.ok flow, after) ∧
      after.sink.output = text := by
  obtain ⟨tree, flow, after, hfind, hrun⟩ := hnothing
  rw [render_of_run hfind hrun] at hrender
  rw [find?_holding] at hfind
  cases hfind
  exact ⟨flow, after, hrun, Except.ok.inj hrender⟩

end Holding

end Template

/-! ### Concatenation -/

/-- Two sources mean one after the other what they mean alone. The items are those of the first
without its end and then those of the second behind it. If both sources are accepted alone and
define nothing, they are accepted one after the other, and the nodes are those of the first and then
those of the second behind it. If on some data both are rendered alone and invoke no template there,
and the first neither declares nor assigns the dollar sign, then both are rendered together, and
what they write is what the first writes and then what the second writes.
Assumes: no blank and no dash stands in the delimiters, the first source ends with the right
delimiter of an action, without a trim marker, and no comment starts where the two sources meet. -/
theorem concatenates {delimiters : Delimiters} {first second : String}
    (hcompact : delimiters.Compact) (hends : EndsAction delimiters first)
    (hcomment : ¬ StartsComment delimiters first second) :
    lex delimiters (first ++ second) =
        (lex delimiters first).dropLast ++ (lex delimiters second).map (Item.behind first) ∧
      ∀ template firstParsed secondParsed : Template, template.delimiters = delimiters →
        template.trees = {} → template.parse first = .ok firstParsed →
        template.parse second = .ok secondParsed → DefinesNothing delimiters first →
        DefinesNothing delimiters second →
        ∃ root other both, firstParsed = template.holding root ∧
          secondParsed = template.holding other ∧
          both = template.holding ⟨root.position,
            root.nodes ++ Node.mapPositions (Position.behind first) other.nodes⟩ ∧
          template.parse (first ++ second) = .ok both ∧
          ∀ data text otherText, firstParsed.render data = .ok text →
            secondParsed.render data = .ok otherText → firstParsed.InvokesNothing data →
            secondParsed.InvokesNothing data → "$" ∉ root.targetNames →
            both.render data = .ok (text ++ otherText) := by
  refine ⟨lex_append hcompact hends hcomment, ?_⟩
  rintro template firstParsed secondParsed rfl hfresh hfirst hsecond hfirstSingle hsecondSingle
  obtain ⟨firstSet, hfirstSet⟩ := Template.exists_set_of_parse hfirst
  obtain ⟨secondSet, hsecondSet⟩ := Template.exists_set_of_parse hsecond
  obtain ⟨root, other, rfl, rfl, hbothSet⟩ := parse_append hcompact hends hcomment hfirstSet
    hsecondSet hfirstSingle hsecondSingle
  obtain rfl := Except.ok.inj (hfirst.symm.trans (Template.parse_eq_holding hfresh hfirstSet))
  obtain rfl := Except.ok.inj (hsecond.symm.trans (Template.parse_eq_holding hfresh hsecondSet))
  refine ⟨root, other, _, rfl, rfl, rfl, Template.parse_eq_holding hfresh hbothSet, ?_⟩
  intro data text otherText hrender hotherRender hnothing hotherNothing hdollar
  obtain ⟨flow, after, hrun, rfl⟩ := hnothing.exists_run hrender
  obtain ⟨otherFlow, afterOther, hotherRun, rfl⟩ := hotherNothing.exists_run hotherRender
  have hformed := isFormed_of_parse hfirstSet (List.mem_singleton_self _)
  obtain ⟨start, nodes⟩ := root
  obtain ⟨otherStart, others⟩ := other
  obtain ⟨final, hfinal, houtput⟩ := Exec.exists_runNodes_append
    (template.frameOf ⟨start, nodes ++ Node.mapPositions (Position.behind first) others⟩)
    (template.frameOf ⟨start, nodes⟩) (template.frameOf ⟨otherStart, others⟩) ⟨rfl, rfl⟩ ⟨rfl, rfl⟩
    (Position.behind first) hformed hdollar hrun hotherRun
  rw [← houtput]
  exact Template.render_of_run Template.find?_holding hfinal

/-- A template between brackets, without trees. -/
def emptyPage : Template := { name := "page", delimiters := Delimiters.brackets }

/-- The tree of a source that gives a variable the data and writes it. -/
def dearRoot : Body :=
  ⟨⟨0, 1⟩, [.action ⟨1, 1⟩ ⟨⟨1, 1⟩, false, [⟨⟨1, 1⟩, ["$x"]⟩], [⟨⟨7, 1⟩, [.dot ⟨7, 1⟩]⟩]⟩,
    .text ⟨9, 1⟩ "Dear ",
    .action ⟨15, 1⟩ ⟨⟨15, 1⟩, false, [], [⟨⟨15, 1⟩, [.var ⟨⟨15, 1⟩, ["$x"]⟩]⟩]⟩]⟩

/-- The tree of a source that writes the data through the dollar sign. -/
def dollarRoot : Body :=
  ⟨⟨0, 1⟩, [.text ⟨0, 1⟩ ", ",
    .action ⟨3, 1⟩ ⟨⟨3, 1⟩, false, [], [⟨⟨3, 1⟩, [.var ⟨⟨3, 1⟩, ["$"]⟩]⟩]⟩, .text ⟨5, 1⟩ "!"]⟩

/-- The first source declares a variable that stands above the dollar sign when the second one runs.
-/
theorem concatenates_dear :
    Delimiters.brackets.Compact ∧ EndsAction Delimiters.brackets "[$x := .]Dear [$x]" ∧
      ¬ StartsComment Delimiters.brackets "[$x := .]Dear [$x]" ", [$]!" ∧
      ∃ both, emptyPage.parse ("[$x := .]Dear [$x]" ++ ", [$]!") = .ok both ∧
        both.render (.string "Ann") = .ok ("Dear Ann" ++ ", Ann!") := by
  have hcompact : Delimiters.brackets.Compact := by decide
  have hlex : lex Delimiters.brackets "[$x := .]Dear [$x]" =
      [⟨.leftDelim, ⟨0, 1⟩, "["⟩, ⟨.variable, ⟨1, 1⟩, "$x"⟩, ⟨.space, ⟨3, 1⟩, " "⟩,
        ⟨.declare, ⟨4, 1⟩, ":="⟩, ⟨.space, ⟨6, 1⟩, " "⟩, ⟨.keyword .dot, ⟨7, 1⟩, "."⟩,
        ⟨.rightDelim, ⟨8, 1⟩, "]"⟩, ⟨.text, ⟨9, 1⟩, "Dear "⟩, ⟨.leftDelim, ⟨14, 1⟩, "["⟩,
        ⟨.variable, ⟨15, 1⟩, "$x"⟩] ++ [⟨.rightDelim, ⟨17, 1⟩, "]"⟩, ⟨.eof, ⟨18, 1⟩, ""⟩] := by
    cbv
  have hends : EndsAction Delimiters.brackets "[$x := .]Dear [$x]" := by
    refine ⟨⟨_, _, _, hlex, rfl, rfl, rfl⟩, ?_⟩
    intro blank hmarked
    cbv at hmarked
    cases hmarked
  have hcomment : ¬ StartsComment Delimiters.brackets "[$x := .]Dear [$x]" ", [$]!" := fun hstarts ↦
    absurd hstarts.1 (by decide)
  have hfirst : emptyPage.parse "[$x := .]Dear [$x]" = .ok (emptyPage.holding dearRoot) :=
    Template.parse_eq_holding rfl (by cbv)
  have hsecond : emptyPage.parse ", [$]!" = .ok (emptyPage.holding dollarRoot) :=
    Template.parse_eq_holding rfl (by cbv)
  have hfirstSingle : DefinesNothing Delimiters.brackets "[$x := .]Dear [$x]" := by
    unfold DefinesNothing
    rw [hlex]
    decide
  have hsecondSingle : DefinesNothing Delimiters.brackets ", [$]!" := by
    have hlex : lex Delimiters.brackets ", [$]!" = [⟨.text, ⟨0, 1⟩, ", "⟩,
        ⟨.leftDelim, ⟨2, 1⟩, "["⟩, ⟨.variable, ⟨3, 1⟩, "$"⟩, ⟨.rightDelim, ⟨4, 1⟩, "]"⟩,
        ⟨.text, ⟨5, 1⟩, "!"⟩, ⟨.eof, ⟨6, 1⟩, ""⟩] := by
      cbv
    unfold DefinesNothing
    rw [hlex]
    decide
  refine ⟨hcompact, hends, hcomment, ?_⟩
  obtain ⟨root, other, both, hroot, hother, -, hboth, hrenders⟩ :=
    (concatenates hcompact hends hcomment).2 _ _ _ rfl rfl hfirst hsecond hfirstSingle
      hsecondSingle
  have hdollar : "$" ∉ root.targetNames := by
    rw [← Template.root_eq_of_holding_eq hroot]
    decide
  exact ⟨both, hboth, hrenders (.string "Ann") "Dear Ann" ", Ann!" rfl rfl
    ⟨_, _, _, rfl, rfl⟩ ⟨_, _, _, rfl, rfl⟩ hdollar⟩

/-- Delimiters of which the right one is a slash. -/
def slashed : Delimiters := Delimiters.ofStrings "[" "/"

/-- The tree of a source that invokes the template of its own name if the data is true. -/
def selfRoot : Body :=
  ⟨⟨0, 1⟩, [.branch .conditional ⟨4, 1⟩ ⟨⟨4, 1⟩, false, [], [⟨⟨4, 1⟩, [.dot ⟨4, 1⟩]⟩]⟩
    ⟨⟨6, 1⟩, [.template ⟨16, 1⟩ "page" none]⟩ none]⟩

/-- Two ways in which sources mean something else together. Behind an action that holds nothing and
whose right delimiter is a slash, an asterisk makes the action the start of a comment. And a source
that invokes the template of its own name invokes, together with another source, both. -/
theorem not_concatenates :
    (slashed.Compact ∧ EndsAction slashed "[/" ∧
      lex slashed ("[/" ++ "*x") ≠
        (lex slashed "[/").dropLast ++ (lex slashed "*x").map (Item.behind "[/")) ∧
    EndsAction Delimiters.brackets "[if .][template \"page\"][end]" ∧
      DefinesNothing Delimiters.brackets "[if .][template \"page\"][end]" ∧
      DefinesNothing Delimiters.brackets "x" ∧
      emptyPage.parse "[if .][template \"page\"][end]" = .ok (emptyPage.holding selfRoot) ∧
      emptyPage.parse "x" = .ok (emptyPage.holding ⟨⟨0, 1⟩, [.text ⟨0, 1⟩ "x"]⟩) ∧
      emptyPage.parse ("[if .][template \"page\"][end]" ++ "x") =
        .ok (emptyPage.holding ⟨⟨0, 1⟩, selfRoot.nodes ++ [.text ⟨28, 1⟩ "x"]⟩) ∧
      "$" ∉ selfRoot.targetNames ∧
      (emptyPage.holding selfRoot).render (.bool true) = .ok "" ∧
      (emptyPage.holding ⟨⟨0, 1⟩, [.text ⟨0, 1⟩ "x"]⟩).render (.bool true) = .ok "x" ∧
      (emptyPage.holding ⟨⟨0, 1⟩, selfRoot.nodes ++ [.text ⟨28, 1⟩ "x"]⟩).render (.bool true) =
        .ok "xx" := by
  have hslash : lex slashed "[/" =
      [⟨.leftDelim, ⟨0, 1⟩, "["⟩] ++ [⟨.rightDelim, ⟨1, 1⟩, "/"⟩, ⟨.eof, ⟨2, 1⟩, ""⟩] := by
    cbv
  have hself : lex Delimiters.brackets "[if .][template \"page\"][end]" =
      [⟨.leftDelim, ⟨0, 1⟩, "["⟩, ⟨.keyword .ifWord, ⟨1, 1⟩, "if"⟩, ⟨.space, ⟨3, 1⟩, " "⟩,
        ⟨.keyword .dot, ⟨4, 1⟩, "."⟩, ⟨.rightDelim, ⟨5, 1⟩, "]"⟩, ⟨.leftDelim, ⟨6, 1⟩, "["⟩,
        ⟨.keyword .templateWord, ⟨7, 1⟩, "template"⟩, ⟨.space, ⟨15, 1⟩, " "⟩,
        ⟨.string, ⟨16, 1⟩, "\"page\""⟩, ⟨.rightDelim, ⟨22, 1⟩, "]"⟩,
        ⟨.leftDelim, ⟨23, 1⟩, "["⟩, ⟨.keyword .endWord, ⟨24, 1⟩, "end"⟩] ++
          [⟨.rightDelim, ⟨27, 1⟩, "]"⟩, ⟨.eof, ⟨28, 1⟩, ""⟩] := by
    cbv
  have htext : lex Delimiters.brackets "x" = [⟨.text, ⟨0, 1⟩, "x"⟩, ⟨.eof, ⟨1, 1⟩, ""⟩] := by
    cbv
  refine ⟨⟨by decide, ⟨⟨_, _, _, hslash, rfl, rfl, rfl⟩, ?_⟩, ?_⟩,
    ⟨⟨_, _, _, hself, rfl, rfl, rfl⟩, ?_⟩, ?_, ?_, ?_, ?_, ?_, by decide, rfl, rfl, rfl⟩
  · intro blank hmarked
    cbv at hmarked
    cases hmarked
  · intro hsame
    cbv at hsame
    cases hsame
  · intro blank hmarked
    cbv at hmarked
    cases hmarked
  · unfold DefinesNothing
    rw [hself]
    decide
  · unfold DefinesNothing
    rw [htext]
    decide
  · exact Template.parse_eq_holding rfl (by cbv)
  · exact Template.parse_eq_holding rfl (by cbv)
  · exact Template.parse_eq_holding rfl (by cbv)

end Stencil
