import Stencil.Proofs.CommandLine.Requests
import Stencil.Proofs.Outline.Places
import Stencil.Proofs.Outline.Printing

/-!
# The commands agree

Whether a template is fine does not depend on the command. Checking several templates reports of
each what outlining it alone reports (`ChecksEach`). A template that is fine has a source, the file
at the path or the one of that name in the directory of templates (`Resolves`), and that source has
an outline. So rendering it gets as far as its data and its execution (`RendersSource`), and what is
printed of it in any form is read as that outline by every reader that allows its brackets
(`PrintsOutline`).

An empty name is no directory of templates. A command line for which it is set is malformed, and
then nothing is reported of any template. And a reader with the usual limit refuses what is printed
of a template with many parentheses, though the template is fine (`commands_disagree`).
-/

set_option autoImplicit false
set_option relaxedAutoImplicit false

namespace Stencil.CommandLine

/-! ### Sources -/

/-- That a template, given by its path or name, has this source. -/
inductive Resolves (files : Files) (directory template : String) : Source → Prop
  | path {text : String} (hfile : files template = .file text) :
      Resolves files directory template ⟨stem template, text⟩
  | name {text : String} {fault : PathFault} (hnone : files template = .none fault)
      (hfile : files (namedPath directory template) = .file text) :
      Resolves files directory template ⟨template, text⟩

theorem readFile_eq_ok_iff {files : Files} {path text : String} :
    readFile files path = .ok text ↔ files path = .file text := by
  unfold readFile Files.text
  cases files path <;> simp [Except.mapError]

/-- A template is read if it has a source. -/
theorem load_eq_ok_iff {files : Files} {directory template : String} {source : Source} :
    load files directory template = .ok source ↔ Resolves files directory template source := by
  have hmap {read : Except Failure String} {build : String → Source} :
      read.map build = .ok source ↔ ∃ text, read = .ok text ∧ build text = source := by
    cases read <;> simp [Except.map]
  rw [load]
  constructor
  · intro hload
    cases hentry : files template with
    | none fault =>
      rw [if_neg (by simp [Files.isFile, hentry]), hmap] at hload
      obtain ⟨text, hread, rfl⟩ := hload
      exact .name hentry (readFile_eq_ok_iff.mp hread)
    | file text | unreadable reason =>
      rw [if_pos (by simp [Files.isFile, hentry]), hmap] at hload
      obtain ⟨text, hread, rfl⟩ := hload
      exact .path (readFile_eq_ok_iff.mp hread)
  · rintro (@⟨text, hfile⟩ | @⟨text, fault, hnone, hfile⟩)
    · rw [if_pos (by simp [Files.isFile, hfile]), hmap]
      exact ⟨text, readFile_eq_ok_iff.mpr hfile, rfl⟩
    · rw [if_neg (by simp [Files.isFile, hnone]), hmap]
      exact ⟨text, readFile_eq_ok_iff.mpr hfile, rfl⟩

/-- A template has an outline if it has a source that has one. -/
theorem outlineOf_eq_ok_iff {files : Files} {directory template : String} {tree : Outline.Tree} :
    outlineOf files directory template = .ok tree ↔
      ∃ source, Resolves files directory template source ∧
        ({} : Bracketed).outline source.name source.text = .ok tree := by
  rw [outlineOf]
  cases hload : load files directory template with
  | error failure =>
    simp [← load_eq_ok_iff, hload, bind, Except.bind]
  | ok source =>
    simp only [← load_eq_ok_iff, hload, bind, Except.bind, Except.ok.injEq, exists_eq_left']
    cases ({} : Bracketed).outline source.name source.text <;> simp [Except.mapError]

/-- A source that has an outline is compiled. -/
theorem exists_compile_of_outline {bracketed : Bracketed} {name text : String}
    {tree : Outline.Tree} (houtline : bracketed.outline name text = .ok tree) :
    ∃ compiled, bracketed.compile name text = .ok compiled := by
  unfold Bracketed.outline Bracketed.outlineWith at houtline
  unfold Bracketed.compile
  cases hparse : bracketed.trees name text with
  | error error =>
    rw [hparse] at houtline
    cases houtline
  | ok set => exact ⟨_, rfl⟩

/-! ### Checking -/

section Checking

variable (line : List String → Report)

/-- Whether outlining a template alone succeeds. -/
def parses (template : String) : Bool := (line ["parse", template]).status = 0

/-- The line that counts the templates that failed, if any did. -/
def tally (failures total : Nat) : String :=
  if failures = 0 then ""
  else "\nerror: " ++ toString failures ++ " of " ++ toString total ++ " template(s) failed\n"

/-- That checking templates reports of each what outlining it alone reports: in their order, those
that succeed on the first channel and the errors of those that fail on the second, which ends with
their number. -/
structure ChecksEach (templates : List String) : Prop where
  output_eq : (line ("check" :: templates)).output =
    String.join ((templates.filter (parses line)).map fun template ↦ "✓ " ++ template ++ "\n")
  errors_eq : (line ("check" :: templates)).errors =
    String.join ((templates.filter (!parses line ·)).map fun template ↦
      template ++ ": " ++ (line ["parse", template]).errors) ++
        tally (templates.filter (!parses line ·)).length templates.length
  status_eq : (line ("check" :: templates)).status =
    if templates.all (parses line) then 0 else 1

end Checking

/-- The lines about templates that succeed, and about those that fail. -/
theorem passed_checkLine (files : Files) (directory : String) (templates : List String) :
    passed (templates.map (checkLine files directory)) =
        (templates.filter fun template ↦ (outlineOf files directory template).isOk).map
          (fun template ↦ "✓ " ++ template ++ "\n") ∧
      failed (templates.map (checkLine files directory)) =
        (templates.filter fun template ↦ !(outlineOf files directory template).isOk).map
          fun template ↦
            template ++ ": " ++ (runOutline files directory template false false).errors := by
  induction templates with
  | nil => exact ⟨rfl, rfl⟩
  | cons template rest ih =>
    obtain ⟨hpassed, hfailed⟩ := ih
    unfold passed failed at *
    rw [List.map_cons, List.filterMap_cons, List.filterMap_cons, hpassed, hfailed, checkLine,
      List.filter_cons, List.filter_cons]
    cases houtline : outlineOf files directory template with
    | ok tree => exact ⟨rfl, rfl⟩
    | error failure =>
      refine ⟨rfl, ?_⟩
      simp only [Except.isOk, Except.toBool, Bool.not_false, if_true, List.map_cons, runOutline,
        houtline, Failure.report, String.append_assoc]
      rfl

/-- The report on checking templates, by the lines about each. -/
theorem runCheck_eq (files : Files) (directory : String) (templates : List String) :
    runCheck files directory templates =
      let lines := templates.map (checkLine files directory)
      ⟨if failed lines = [] then 0 else 1, String.join (passed lines),
        String.join (failed lines) ++ tally (failed lines).length templates.length⟩ := by
  dsimp only
  rw [runCheck]
  cases failed (templates.map (checkLine files directory)) with
  | nil => rfl
  | cons first others => simp [tally, String.append_assoc]

/-- Checking templates reports what outlining reports, if these are the reports of the program. -/
theorem checksEach_of_run {line : List String → Report} {files : Files} {directory : String}
    {templates : List String}
    (hcheck : line ("check" :: templates) = runCheck files directory templates)
    (hparse : ∀ template ∈ templates,
      line ["parse", template] = runOutline files directory template false false) :
    ChecksEach line templates := by
  have hparses : ∀ template ∈ templates,
      parses line template = (outlineOf files directory template).isOk := by
    intro template hmem
    rw [parses, hparse template hmem, runOutline]
    cases outlineOf files directory template <;> rfl
  obtain ⟨hpassed, hfailed⟩ := passed_checkLine files directory templates
  have hlines : failed (templates.map (checkLine files directory)) =
      (templates.filter (!parses line ·)).map fun template ↦
        template ++ ": " ++ (line ["parse", template]).errors := by
    rw [hfailed, List.filter_congr fun template hmem ↦ congrArg not (hparses template hmem).symm]
    refine List.map_congr_left fun template hmem ↦ ?_
    rw [hparse template (List.mem_of_mem_filter hmem)]
  rw [List.filter_congr fun template hmem ↦ (hparses template hmem).symm] at hpassed
  have hall : failed (templates.map (checkLine files directory)) = [] ↔
      templates.all (parses line) = true := by
    rw [hlines, List.map_eq_nil_iff, List.filter_eq_nil_iff, List.all_eq_true]
    simp
  constructor
  · simp only [hcheck, runCheck_eq, hpassed]
  · simp only [hcheck, runCheck_eq, hlines, List.length_map]
  · simp only [hcheck, runCheck_eq, hall]

/-! ### Rendering -/

/-- The report on an execution. -/
def executed (outcome : Exec.Outcome) : Report :=
  match outcome.error with
  | none => ⟨0, outcome.output, ""⟩
  | some error => execReport error outcome.output

/-- That rendering a template reads its source and compiles it: the render fails on its data, or its
report is that of the execution. -/
def RendersSource (files : Files) (source : Source) (data : Option String)
    (missingKey : MissingKey) (report : Report) : Prop :=
  ∃ compiled, ({} : Bracketed).compile source.name source.text = .ok compiled ∧
    match readData files data with
    | .error failure => report = failure.report ""
    | .ok value =>
      report = executed ({ compiled with missingKey := missingKey }.execute value none none)

/-- A template with a source that is compiled is rendered from it. -/
theorem rendersSource_runRender {files : Files} {directory template : String} {source : Source}
    (hresolves : Resolves files directory template source) {compiled : Template}
    (hcompile : ({} : Bracketed).compile source.name source.text = .ok compiled)
    (data : Option String) (missingKey : MissingKey) :
    RendersSource files source data missingKey
      (runRender files directory template data missingKey) := by
  refine ⟨compiled, hcompile, ?_⟩
  have hload := load_eq_ok_iff.mpr hresolves
  cases hdata : readData files data with
  | error failure => simp [runRender, prepare, hload, hdata, bind, Except.bind]
  | ok value =>
    have hprepare : prepare files directory template data = .ok (compiled, value) := by
      simp [prepare, hload, hdata, hcompile, bind, Except.bind, Except.mapError, pure, Except.pure]
    rw [runRender, hprepare]
    rfl

/-! ### Printing -/

/-- That a report prints an outline, which is read back by every reader that allows so many open
brackets as it has. -/
structure PrintsOutline (tree : Outline.Tree) (isWrapped : Bool) (report : Report) : Prop where
  status_eq : report.status = 0
  errors_eq : report.errors = ""
  decodes : ∃ value, Json.ReadsWithin report.output (tree.printedNesting isWrapped) value ∧
    (Outline.unwrap? isWrapped value).bind Outline.Tree.ofValue? = some tree

/-! ### Command lines -/

/-- A command line that asks for the outline of a template in one of four forms gets it. -/
theorem run_outline {general store : Option String} (hgeneral : general ≠ some "")
    (hstore : store ≠ some "") {template : String} (hplain : template.startsWith "-" = false)
    (files : Files) (isWrapped isCompact : Bool) :
    run files store (directoryArguments general ++
        "parse" :: template :: formSwitches isWrapped isCompact) =
      runOutline files (directoryOf general store) template isWrapped isCompact :=
  run_of_command hgeneral hstore (asks_outline hplain isWrapped isCompact) files

/-- The three commands agree on every template, whatever files there are and wherever templates are
looked up by name, as long as that directory has a name. Checking templates reports of each, in
order, what outlining it alone reports, and fails if that fails for one of them. A template that is
reported to be fine has a source with an outline. Any command line that asks to render it reads the
source and compiles it. What is printed of it in each of the four forms is JSON that is read as the
outline, by a reader without a limit on open brackets and by every other one whose limit it keeps;
where it has more brackets inside each other than a reader allows, it is refused for that. Assumes
for the last part: the source is no longer than a text in memory can be. -/
theorem commands_agree (files : Files) {general store : Option String}
    (hgeneral : general ≠ some "") (hstore : store ≠ some "") {templates : List String}
    (hne : templates ≠ []) (hplain : ∀ template ∈ templates, template.startsWith "-" = false) :
    let line (command : List String) := run files store (directoryArguments general ++ command)
    ChecksEach line templates ∧
    ∀ template ∈ templates, parses line template = true →
      ∃ source tree, Resolves files (directoryOf general store) template source ∧
        ({} : Bracketed).outline source.name source.text = .ok tree ∧
        (∀ arguments data missingKey,
          request? store arguments =
            some (directoryOf general store, .render template data missingKey) →
          RendersSource files source data missingKey (run files store arguments)) ∧
        (source.text.utf8ByteSize < Number.Word.signedLimit → ∀ isWrapped isCompact,
          PrintsOutline tree isWrapped
            (line ("parse" :: template :: formSwitches isWrapped isCompact))) := by
  intro line
  have hparse (template : String) (hmem : template ∈ templates) (isWrapped isCompact : Bool) :
      line ("parse" :: template :: formSwitches isWrapped isCompact) =
        runOutline files (directoryOf general store) template isWrapped isCompact :=
    run_outline hgeneral hstore (hplain template hmem) files isWrapped isCompact
  refine ⟨checksEach_of_run (run_of_command hgeneral hstore (asks_check hne hplain) files)
    fun template hmem ↦ hparse template hmem false false, fun template hmem hparses ↦ ?_⟩
  -- A report of success is that of a source with an outline.
  obtain ⟨tree, houtline⟩ : ∃ tree, outlineOf files (directoryOf general store) template =
      .ok tree := by
    rw [parses, show line ["parse", template] = _ from hparse template hmem false false,
      runOutline] at hparses
    cases houtline : outlineOf files (directoryOf general store) template with
    | ok tree => exact ⟨tree, rfl⟩
    | error failure =>
      rw [houtline] at hparses
      cases hparses
  obtain ⟨source, hresolves, htree⟩ := outlineOf_eq_ok_iff.mp houtline
  refine ⟨source, tree, hresolves, htree, fun arguments data missingKey hrequest ↦ ?_,
    fun hsize isWrapped isCompact ↦ ?_⟩
  · obtain ⟨compiled, hcompile⟩ := exists_compile_of_outline htree
    rw [run, hrequest]
    exact rendersSource_runRender hresolves hcompile data missingKey
  · rw [hparse template hmem, runOutline, houtline]
    exact ⟨rfl, rfl, Outline.exists_readsWithin_printed (Outline.placed_outline htree hsize)
      isWrapped isCompact⟩

/-- A directory with a template, a template in the directory of templates, and data. -/
def sharedFiles : Files :=
  Files.ofList [("mail.txt", "Hi [.Name]"), ("shared/foot.tpl", "[if .X]"), ("d.json", "\x7b")]

/-- The first template is fine, the second is found by its name and is not, and there is no third.
-/
theorem commands_agree_shared :
    ((none : Option String) ≠ some "" ∧ (some "shared" : Option String) ≠ some "" ∧
      ["mail.txt", "foot", "none"] ≠ [] ∧
      ∀ template ∈ ["mail.txt", "foot", "none"], template.startsWith "-" = false) ∧
    ChecksEach (fun command ↦ run sharedFiles (some "shared") (directoryArguments none ++ command))
      ["mail.txt", "foot", "none"] ∧
    ∃ source tree, Resolves sharedFiles "shared" "mail.txt" source ∧
      ({} : Bracketed).outline source.name source.text = .ok tree ∧
      RendersSource sharedFiles source (some "d.json") .default
        (run sharedFiles (some "shared") ["render", "mail.txt", "-d", "d.json"]) ∧
      ∀ isWrapped isCompact, PrintsOutline tree isWrapped
        (run sharedFiles (some "shared") ("parse" :: "mail.txt" ::
          formSwitches isWrapped isCompact)) := by
  have hplain : ∀ template ∈ ["mail.txt", "foot", "none"],
      template.startsWith "-" = false := by decide +kernel
  obtain ⟨hchecks, hagree⟩ := @commands_agree sharedFiles none (some "shared") nofun (by decide) _
    (List.cons_ne_nil _ _) hplain
  have hstatus : (run sharedFiles (some "shared") ["parse", "mail.txt"]).status = 0 := by
    decide +kernel
  have hrequest : request? (some "shared") ["render", "mail.txt", "-d", "d.json"] =
      some ("shared", .render "mail.txt" (some "d.json") .default) := by decide +kernel
  have hload : load sharedFiles "shared" "mail.txt" = .ok ⟨"mail", "Hi [.Name]"⟩ := by
    cbv
  obtain ⟨source, tree, hresolves, houtline, hrender, hprint⟩ :=
    hagree "mail.txt" List.mem_cons_self (decide_eq_true hstatus)
  obtain rfl := Except.ok.inj (hload.symm.trans (load_eq_ok_iff.mpr hresolves))
  exact ⟨⟨nofun, by decide, List.cons_ne_nil _ _, hplain⟩, hchecks, _, tree, hresolves,
    houtline, hrender _ _ _ hrequest, hprint (by decide)⟩

/-- A dot in thirty parentheses. -/
def deepText : String := "[((((((((((((((((((((((((((((((.))))))))))))))))))))))))))))))]"

/-- Its outline has 128 brackets inside each other. -/
theorem exists_outline_deepText :
    ∃ tree, ({} : Bracketed).outline "deep" deepText = .ok tree ∧
      tree.printedNesting false = 128 := by
  have hnesting : (({} : Bracketed).outline "deep" deepText).toOption.map
      (·.printedNesting false) = some 128 := by
    decide +kernel
  cases houtline : ({} : Bracketed).outline "deep" deepText with
  | error error =>
    rw [houtline] at hnesting
    cases hnesting
  | ok tree =>
    rw [houtline] at hnesting
    exact ⟨tree, rfl, Option.some.inj hnesting⟩

/-- A directory with that template. -/
def deepFiles : Files := Files.ofList [("deep.txt", deepText)]

/-- Commands do not agree in two cases. A directory of templates that is empty makes every command
line malformed, so that checking a template reports nothing about it and counts no failures. And an
outline with too many brackets inside each other is printed all the same, in every form, but what is
printed is refused by a reader with the usual limit. -/
theorem commands_disagree :
    (run sharedFiles (some "") ["check", "none"] = malformed ∧
      ¬ ChecksEach (run sharedFiles (some "")) ["none"]) ∧
    (run deepFiles none ["check", "deep.txt"]).status = 0 ∧
      ∀ isWrapped isCompact,
        let report := run deepFiles none ("parse" :: "deep.txt" :: formSwitches isWrapped isCompact)
        report.status = 0 ∧
          ∃ place, Json.read (some Json.nestingLimit) report.output = .error ⟨.tooDeep, place⟩ := by
  have hnone : (none : Option String) ≠ some "" := (Option.some_ne_none "").symm
  have hrun : run sharedFiles (some "") ["check", "none"] = malformed := by decide +kernel
  refine ⟨⟨hrun, fun hchecks ↦ ?_⟩, by decide +kernel, fun isWrapped isCompact ↦ ?_⟩
  · have hstatus := hchecks.status_eq
    rw [hrun] at hstatus
    split at hstatus <;> cases hstatus
  · obtain ⟨tree, houtline, hdeep⟩ := exists_outline_deepText
    have hload : load deepFiles defaultDirectory "deep.txt" = .ok ⟨"deep", deepText⟩ := by
      cbv
    have hfound : outlineOf deepFiles defaultDirectory "deep.txt" = .ok tree :=
      outlineOf_eq_ok_iff.mpr ⟨_, load_eq_ok_iff.mp hload, houtline⟩
    have hreport : run deepFiles none ("parse" :: "deep.txt" ::
        formSwitches isWrapped isCompact) = ⟨0, printed tree isWrapped isCompact, ""⟩ := by
      refine (@run_outline none none hnone hnone "deep.txt" (by decide +kernel) deepFiles isWrapped
        isCompact).trans ?_
      rw [runOutline, show directoryOf none none = defaultDirectory from rfl, hfound]
    have hplaced := Outline.placed_outline houtline (by decide)
    have hbeyond : Json.nestingLimit < tree.printedNesting false := by
      rw [hdeep]
      decide
    rw [hreport]
    exact ⟨rfl, Outline.read_printed_of_lt hplaced hbeyond isWrapped isCompact⟩

end Stencil.CommandLine
