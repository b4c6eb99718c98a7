import Mathlib
import Stencil.Bracketed
import Stencil.Proofs.Execution.Plain
import Stencil.Proofs.Grammar.Offsets
import Stencil.Proofs.Grammar.Trees

/-!
# Templates do not depend on their delimiters

A source that is written anew with other delimiters means what it meant before: it has the same
items, it is accepted or refused as before, it has the same trees up to offsets, and executing it
writes the same output and ends with the same error (`redelimit_agrees`). A bracketed template is
what a template between braces is (`compile_eq_parse`).

The three layers are put together here. `lex_redelimit` is about the items, `parse_alike` about the
trees of sources whose items are the same, and `execute_plain` about the executions of trees that
are the same up to offsets.
-/

set_option autoImplicit false
set_option relaxedAutoImplicit false

namespace Stencil

open Syntax

/-- That two parses agree: both are refused, or both give templates whose executions have the same
outcome, which is the output and the error, on any data, from any entry and into any sink. -/
def Template.Agree (first second : Except ParseError Template) : Prop :=
  match first, second with
  | .ok template, .ok other =>
    ∀ data entry limit, template.execute data entry limit = other.execute data entry limit
  | .error _, .error _ => True
  | _, _ => False

/-- Templates that differ in their delimiters and in offsets alone have the same outcomes. -/
theorem Template.execute_eq_of_plain {template other : Template}
    (hname : template.name = other.name) (hfunctions : template.functions = other.functions)
    (hmissing : template.missingKey = other.missingKey)
    (htrees : template.trees.plain = other.trees.plain) (data : Value) (entry : Option String)
    (limit : Option Nat) :
    template.execute data entry limit = other.execute data entry limit := by
  have hprogram : template.program.plain = other.program.plain := by
    simp only [Template.program, Exec.Program.plain, hfunctions, hmissing, htrees]
  rw [Template.execute, Template.execute, ← Exec.execute_plain, hprogram, Exec.execute_plain, hname]

/-- Sources whose items are the same but for offsets and delimiters make a template go on alike. -/
theorem Template.agree_parse {old new : Delimiters} {source other : String}
    (hitems : (lex old source).map Item.plain = (lex new other).map Item.plain)
    (template : Template) :
    Template.Agree ({ template with delimiters := old }.parse source)
      ({ template with delimiters := new }.parse other) := by
  have hparse := parse_alike hitems template.name template.functions.has
  cases hold : Syntax.parse template.name old template.functions.has source with
  | error error =>
    cases hnew : Syntax.parse template.name new template.functions.has other with
    | error => simp only [Template.parse, hold, hnew, bind, Except.bind, Template.Agree]
    | ok => simp [hold, hnew, Except.toOption] at hparse
  | ok set =>
    cases hnew : Syntax.parse template.name new template.functions.has other with
    | error => simp [hold, hnew, Except.toOption] at hparse
    | ok set' =>
      have hset : set'.plain = set.plain := by simpa [hold, hnew, Except.toOption] using hparse
      have htrees : (set.trees.foldl TreeSet.merge template.trees).plain =
          (set'.trees.foldl TreeSet.merge template.trees).plain := by
        rw [← TreeSet.foldl_merge_plain, ← TreeSet.foldl_merge_plain,
          show set.trees.map Tree.plain = set'.trees.map Tree.plain from
            (congrArg TreeSet.trees hset).symm]
      simp only [Template.parse, hold, hnew, bind, Except.bind, pure, Except.pure, Template.Agree]
      exact Template.execute_eq_of_plain rfl rfl rfl htrees

/-- A bracketed template is an empty template with brackets as its delimiters and the same
functions, which parses the source. -/
theorem Bracketed.compile_eq_parse (bracketed : Bracketed) (name source : String) :
    bracketed.compile name source =
      Template.parse ⟨name, Delimiters.brackets, bracketed.functions, .default, {}⟩ source := by
  cases hparse : Syntax.parse name Delimiters.brackets bracketed.functions.has source with
  | error error =>
    simp only [Bracketed.compile, Bracketed.trees, Template.parse, hparse, bind, Except.bind]
  | ok set =>
    have hmerge : set.trees.foldl TreeSet.merge {} = set :=
      TreeSet.foldl_merge_eq (nodup_names_of_parse hparse)
    simp only [Bracketed.compile, Bracketed.trees, Template.parse, hparse, bind, Except.bind,
      hmerge]

/-- A source means the same with other delimiters: its items have the same kinds, lines and texts,
delimiters aside; it is accepted exactly if it was, with the same trees in the same order up to
offsets; and a template that parses it has the same outcome on all data. In particular a bracketed
source compiles to what its form between braces is parsed to.
Assumes: both pairs of delimiters are made of punctuation, the source is read to its end, and no
character of either pair stands in its texts, comments and actions. -/
theorem redelimit_agrees {old new : Delimiters} {source : String}
    (hsource : Redelimits old new source) :
    (lex new (redelimit old new source)).map Item.plain = (lex old source).map Item.plain ∧
      (∀ name isFunction,
        (parse name new isFunction (redelimit old new source)).toOption.map TreeSet.plain =
          (parse name old isFunction source).toOption.map TreeSet.plain) ∧
      (∀ template : Template,
        Template.Agree ({ template with delimiters := old }.parse source)
          ({ template with delimiters := new }.parse (redelimit old new source))) ∧
      (old = Delimiters.brackets → new = Delimiters.braces →
        ∀ (bracketed : Bracketed) (name : String),
          Template.Agree (bracketed.compile name source)
            (Template.parse { name := name, functions := bracketed.functions }
              (redelimit old new source))) := by
  have hitems := lex_redelimit hsource
  refine ⟨hitems, fun name isFunction ↦ parse_alike hitems.symm name isFunction,
    fun template ↦ Template.agree_parse hitems.symm template, ?_⟩
  rintro rfl rfl bracketed name
  rw [bracketed.compile_eq_parse]
  exact Template.agree_parse hitems.symm { name := name, functions := bracketed.functions }

/-- A comment, a text and a field between brackets, and what they are between braces. -/
theorem agree_greeting :
    redelimit Delimiters.brackets Delimiters.braces "[/* of */]Hi [- .Name]!" =
        "\x7b\x7b/* of */\x7d\x7dHi \x7b\x7b- .Name\x7d\x7d!" ∧
      Redelimits Delimiters.brackets Delimiters.braces "[/* of */]Hi [- .Name]!" ∧
      ∀ (bracketed : Bracketed) (name : String),
        Template.Agree (bracketed.compile name "[/* of */]Hi [- .Name]!")
          (Template.parse { name := name, functions := bracketed.functions }
            "\x7b\x7b/* of */\x7d\x7dHi \x7b\x7b- .Name\x7d\x7d!") := by
  have hform : redelimit Delimiters.brackets Delimiters.braces "[/* of */]Hi [- .Name]!" =
      "\x7b\x7b/* of */\x7d\x7dHi \x7b\x7b- .Name\x7d\x7d!" := by
    cbv
  have hlex : lex Delimiters.brackets "[/* of */]Hi [- .Name]!" =
      [⟨.comment, ⟨1, 1⟩, "/* of */"⟩, ⟨.text, ⟨10, 1⟩, "Hi"⟩, ⟨.leftDelim, ⟨13, 1⟩, "["⟩,
        ⟨.field, ⟨16, 1⟩, ".Name"⟩, ⟨.rightDelim, ⟨21, 1⟩, "]"⟩, ⟨.text, ⟨22, 1⟩, "!"⟩,
        ⟨.eof, ⟨23, 1⟩, ""⟩] := by
    cbv
  have hsource : Redelimits Delimiters.brackets Delimiters.braces "[/* of */]Hi [- .Name]!" := by
    refine ⟨by decide, by decide, by rw [hlex]; rfl, ?_⟩
    rw [hlex]
    decide
  refine ⟨hform, hsource, fun bracketed name ↦ ?_⟩
  rw [← hform]
  exact (redelimit_agrees hsource).2.2.2 rfl rfl bracketed name

end Stencil
