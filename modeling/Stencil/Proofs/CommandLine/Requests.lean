import Mathlib.Tactic.Common
import Stencil.CommandLine.Run

/-!
# Command lines that are read

A command line may set the directory of templates and then gives a command with its arguments. Where
the command's arguments make a request, so does the whole line, and the directory is the first that
is set: on the command line, for all command lines, or by default (`request?_of_command`).

Words that do not start with a dash are read as they stand (`scan_words`). So any number of
templates can be checked, and a template can be outlined in four forms.
-/

set_option autoImplicit false
set_option relaxedAutoImplicit false

namespace Stencil.CommandLine

/-! ### The directory of templates -/

/-- The arguments before a command that set the directory of templates, if one is set there. -/
def directoryArguments (general : Option String) : List String :=
  (general.map fun directory ↦ "--template-dir=" ++ directory).toList

/-- The directory of templates: the one set on the command line, the one set for all command lines,
or the default. -/
def directoryOf (general store : Option String) : String :=
  general.getD (store.getD defaultDirectory)

/-- A setting of the directory is a switch with its value attached. -/
theorem findSwitch_directory (directory : String) :
    findSwitch generalSwitches ("--template-dir=" ++ directory).toList =
      some (directorySwitch, some directory) := by
  have hname : "--template-dir=".toList =
      ['-', '-', 't', 'e', 'm', 'p', 'l', 'a', 't', 'e', '-', 'd', 'i', 'r', '='] := by rfl
  rw [String.toList_append, hname]
  simp only [List.cons_append, List.nil_append, findSwitch]
  simp [generalSwitches, directorySwitch, String.ofList_toList]

/-- A setting of the directory is longer than its name. -/
theorem directory_ne (directory : String) {other : String} (hother : other.length < 15) :
    "--template-dir=" ++ directory ≠ other := by
  rintro rfl
  rw [String.length_append] at hother
  have hname : "--template-dir=".length = 15 := by rfl
  omega

/-- The arguments before a command are read up to the command. -/
theorem scan_directoryArguments {general : Option String} (hgeneral : general ≠ some "")
    {word : String} (hword : word.startsWith "-" = false) (rest : List String) :
    scan generalSwitches true (directoryArguments general ++ word :: rest) =
      some ((general.map fun directory ↦ Argument.setting directorySwitch.name directory).toList,
        word :: rest) := by
  have hcommand : scan generalSwitches true (word :: rest) = some ([], word :: rest) := by
    have hdashes : word ≠ "--" := by
      rintro rfl
      revert hword
      decide +kernel
    rw [scan, if_neg hdashes, if_neg (by simp [isSwitch, hword]), if_pos rfl]
  cases general with
  | none => exact hcommand
  | some directory =>
    have hswitch : isSwitch ("--template-dir=" ++ directory) = true := by
      have hdash : "--template-dir=" ++ directory ≠ "-" :=
        directory_ne directory (by decide +kernel)
      simp [isSwitch, hdash]
    have hadmits : admitsPath directory = true := by
      simpa [admitsPath] using hgeneral
    change scan generalSwitches true (("--template-dir=" ++ directory) :: word :: rest) = _
    rw [scan, if_neg (directory_ne directory (by decide +kernel)), if_pos hswitch,
      findSwitch_directory]
    simp only [directorySwitch, hadmits, if_true, hcommand]
    rfl

/-! ### Requests -/

/-- The arguments of a command are read as a request, without a directory among them. -/
def Command.Asks (command : Command) (rest : List String) (request : Request) : Prop :=
  ∃ own given, scan command.switches false rest = some (own, []) ∧
    Given.ofArguments? own = some given ∧ given.setting? directorySwitch.name = none ∧
    command.request? given = some request

/-- What the arguments of a command ask is what the command line asks. -/
theorem request?_of_command {general store : Option String} (hgeneral : general ≠ some "")
    (hstore : store ≠ some "") {command : Command} {rest : List String} {request : Request}
    (hasks : command.Asks rest request) :
    request? store (directoryArguments general ++ command.word :: rest) =
      some (directoryOf general store, request) := by
  obtain ⟨own, given, hscan, hgiven, hdirectory, hrequest⟩ := hasks
  have hword : command.word.startsWith "-" = false ∧ command.word ≠ helpWord ∧
      Command.ofWord? command.word = some command := by
    cases command <;> decide +kernel
  obtain ⟨hdash, hhelp, hcommand⟩ := hword
  have hinvocation : Invocation.ofArguments? (directoryArguments general ++ command.word :: rest) =
      some ⟨general, none, request⟩ := by
    rw [Invocation.ofArguments?, scan_directoryArguments hgeneral hdash]
    have hbefore : ∃ outer, Given.ofArguments? (general.map fun directory ↦
        Argument.setting directorySwitch.name directory).toList = some outer ∧
          outer.words = [] ∧ outer.marks = [] ∧ outer.setting? directorySwitch.name = general := by
      cases general with
      | none => exact ⟨{}, rfl, rfl, rfl, rfl⟩
      | some directory => exact ⟨_, rfl, rfl, rfl, rfl⟩
    obtain ⟨outer, houter, hwords, hmarks, hsetting⟩ := hbefore
    simp only [bind, Option.bind_some, houter, Given.has, hmarks, hwords, hsetting, hhelp, hcommand,
      hscan, hgiven, hdirectory, hrequest, pure, List.contains_nil, Bool.false_eq_true, if_false]
  rw [request?, hinvocation]
  simp [bind, Invocation.directory?, directoryOf, hstore]

/-- What a command line asks is done. -/
theorem run_of_command {general store : Option String} (hgeneral : general ≠ some "")
    (hstore : store ≠ some "") {command : Command} {rest : List String} {request : Request}
    (hasks : command.Asks rest request) (files : Files) :
    run files store (directoryArguments general ++ command.word :: rest) =
      request.run files (directoryOf general store) := by
  rw [run, request?_of_command hgeneral hstore hasks]

/-! ### Words -/

/-- A word is read before what follows it. -/
theorem scan_word (switches : List Switch) {word : String} (hword : word.startsWith "-" = false)
    (rest : List String) :
    scan switches false (word :: rest) = (scan switches false rest).map (prepend (.word word)) := by
  have hdashes : word ≠ "--" := by
    rintro rfl
    revert hword
    decide +kernel
  rw [scan, if_neg hdashes, if_neg (by simp [isSwitch, hword]), if_neg (by simp)]

theorem scan_words (switches : List Switch) {words : List String}
    (hwords : ∀ word ∈ words, word.startsWith "-" = false) :
    scan switches false words = some (words.map .word, []) := by
  induction words with
  | nil => rfl
  | cons word rest ih =>
    obtain ⟨hword, hrest⟩ := List.forall_mem_cons.mp hwords
    rw [scan_word switches hword, ih hrest]
    rfl

theorem ofArguments?_words (words : List String) :
    Given.ofArguments? (words.map .word) = some { words := words } := by
  have hfold (given : Given) : (words.map Argument.word).foldlM Given.add given =
      some { given with words := given.words ++ words } := by
    induction words generalizing given with
    | nil => simp
    | cons word rest ih =>
      rw [List.map_cons, List.foldlM_cons]
      simp only [Given.add, bind, Option.bind_some, ih, List.append_assoc, List.singleton_append]
  exact hfold {}

/-- Any number of templates can be checked, but not none. -/
theorem asks_check {templates : List String} (hne : templates ≠ [])
    (hplain : ∀ template ∈ templates, template.startsWith "-" = false) :
    Command.check.Asks templates (.check templates) := by
  refine ⟨_, _, scan_words _ hplain, ofArguments?_words templates, rfl, ?_⟩
  obtain ⟨first, rest, rfl⟩ := List.exists_cons_of_ne_nil hne
  rfl

/-- The switches that choose the form of an outline. -/
def formSwitches (isWrapped isCompact : Bool) : List String :=
  (if isWrapped then ["--envelope"] else []) ++ if isCompact then ["--compact"] else []

/-- A template can be outlined in four forms. -/
theorem asks_outline {template : String} (hplain : template.startsWith "-" = false)
    (isWrapped isCompact : Bool) :
    Command.parse.Asks (template :: formSwitches isWrapped isCompact)
      (.outline template isWrapped isCompact) := by
  have hswitches : scan Command.parse.switches false (formSwitches isWrapped isCompact) =
      some ((if isWrapped then [Argument.mark "envelope"] else []) ++
        if isCompact then [Argument.mark "compact"] else [], []) := by
    cases isWrapped <;> cases isCompact <;> decide +kernel
  have hscan := scan_word Command.parse.switches hplain (formSwitches isWrapped isCompact)
  rw [hswitches] at hscan
  cases isWrapped <;> cases isCompact <;> exact ⟨_, _, hscan, rfl, rfl, rfl⟩

end Stencil.CommandLine
