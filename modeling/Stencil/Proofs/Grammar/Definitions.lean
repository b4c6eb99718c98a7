import Mathlib.Data.List.Induction
import Stencil.Proofs.Grammar.Trees

/-!
# The definitions of a source

A source defines templates: by its definitions, by its blocks and, last of all, by what stands
outside of them, which is a definition of the source's own name. `Gathers` is the grammar without
the rule that a name has one definition with content: it collects the definitions in the order in
which they end. A source whose definitions are gathered is accepted if no name is filled twice, and
is refused for a redefinition otherwise (`parse_of_gathers`); and the definitions of every source
that is accepted are gathered (`exists_gathers_of_parse`).

Of the trees in a set nothing is left but this: each name stands for the last definition with
content, or for the last one at all, and the names are in the order of their first definitions
(`TreeSet.find?_foldl_merge`, `TreeSet.names_foldl_merge`).
-/

set_option autoImplicit false
set_option relaxedAutoImplicit false

namespace Stencil.Syntax

/-! ### Several definitions -/

/-- What a name stands for after several definitions: the last one of it that has content, or else
the last one. -/
def lastDefinition? (definitions : List Tree) (name : String) : Option Tree :=
  (definitions.filter (·.fills name)).getLast?.or (definitions.filter (·.name = name)).getLast?

/-- What a name stands for after one more definition. -/
theorem lastDefinition?_append (before : List Tree) (tree : Tree) (name : String) :
    lastDefinition? (before ++ [tree]) name =
      if tree.name = name then
        if tree.isEmpty then (before.filter (·.fills name)).getLast?.or (some tree) else some tree
      else lastDefinition? before name := by
  by_cases hname : tree.name = name
  · cases hempty : tree.isEmpty <;> simp [lastDefinition?, Tree.fills, hname, hempty]
  · simp [lastDefinition?, Tree.fills, hname]

/-- The distinct elements of a list that one is added to. -/
theorem eraseDups_concat (names : List String) (name : String) :
    (names ++ [name]).eraseDups =
      if name ∈ names then names.eraseDups else names.eraseDups ++ [name] := by
  rw [List.eraseDups_append]
  by_cases hname : name ∈ names
  · rw [if_pos hname, List.removeAll, List.filter_cons_of_neg (by simpa using hname)]
    simp
  · rw [if_neg hname, List.removeAll, List.filter_cons_of_pos (by simpa using hname),
      List.filter_nil, List.eraseDups_cons, List.filter_nil, List.eraseDups_nil]

namespace TreeSet

/-- That definitions can follow each other after those of a set: none of them has content if its
name has some already. -/
def Admits (set : TreeSet) : List Tree → Prop
  | [] => True
  | tree :: others =>
    (set.hasContent tree.name && !tree.isEmpty) = false ∧ (set.merge tree).Admits others

theorem admits_append {set : TreeSet} {first others : List Tree} :
    set.Admits (first ++ others) ↔ set.Admits first ∧ (first.foldl merge set).Admits others := by
  induction first generalizing set with
  | nil => simp [Admits]
  | cons tree rest ih => rw [List.cons_append, Admits, Admits, ih, List.foldl_cons, and_assoc]

/-- Definitions can follow each other exactly if no name is given content twice. -/
theorem admits_iff {set : TreeSet} {definitions : List Tree} :
    set.Admits definitions ↔
      ∀ name, (set.hasContent name).toNat + definitions.countP (·.fills name) ≤ 1 := by
  induction definitions generalizing set with
  | nil => simp [Admits, Bool.toNat_le]
  | cons tree others ih =>
    rw [Admits, ih]
    simp only [hasContent_merge, List.countP_cons]
    constructor
    · rintro ⟨hfirst, hothers⟩ name
      have hname := hothers name
      by_cases hfills : tree.fills name
      · have hcontent : set.hasContent name = false := by
          simp only [Tree.fills, Bool.and_eq_true, decide_eq_true_eq] at hfills
          obtain ⟨rfl, hfull⟩ := hfills
          simpa [hfull] using hfirst
        simp only [hfills, hcontent, Bool.or_true, Bool.toNat_true, Bool.toNat_false,
          if_true] at hname ⊢
        omega
      · simpa [hfills] using hname
    · intro hnames
      constructor
      · have hname := hnames tree.name
        by_contra hboth
        simp only [Bool.not_eq_false, Bool.and_eq_true] at hboth
        have hfills : tree.fills tree.name := by simpa [Tree.fills] using hboth.2
        simp only [hfills, hboth.1, Bool.toNat_true, if_true] at hname
        omega
      · intro name
        have hname := hnames name
        by_cases hfills : tree.fills name
        · simp only [hfills, Bool.or_true, Bool.toNat_true, if_true] at hname ⊢
          omega
        · simpa [hfills] using hname

/-- A name has content after several definitions if it had or one of them gives it some. -/
theorem hasContent_foldl_merge (set : TreeSet) (definitions : List Tree) (name : String) :
    (definitions.foldl merge set).hasContent name =
      (set.hasContent name || definitions.any (·.fills name)) := by
  induction definitions generalizing set with
  | nil => simp
  | cons tree others ih =>
    rw [List.foldl_cons, ih, hasContent_merge, List.any_cons, Bool.or_assoc]

/-- What a name stands for after several definitions. -/
theorem find?_foldl_merge (definitions : List Tree) (name : String) :
    (definitions.foldl merge {}).find? name = lastDefinition? definitions name := by
  induction definitions using List.reverseRecOn with
  | nil => rfl
  | append_singleton before tree ih =>
    have hcontent : (before.foldl merge {}).hasContent name = before.any (·.fills name) :=
      hasContent_foldl_merge {} before name
    rw [List.foldl_append, List.foldl_cons, List.foldl_nil, find?_merge, hcontent, ih,
      lastDefinition?_append]
    by_cases hname : tree.name = name
    · cases hempty : tree.isEmpty with
      | false => simp [hname]
      | true =>
        cases hkept : (before.filter (·.fills name)).getLast? with
        | none =>
          have hany : before.any (·.fills name) = false := by
            simpa [List.filter_eq_nil_iff] using hkept
          simp [hname, hany]
        | some kept =>
          have hany : before.any (·.fills name) = true :=
            List.any_eq_true.mpr ⟨kept, List.mem_filter.mp (List.mem_of_getLast? hkept)⟩
          simp [hany, hkept, lastDefinition?]
    · simp [hname]

/-- The names after several definitions are in the order of the first definition of each. -/
theorem names_foldl_merge (definitions : List Tree) :
    (definitions.foldl merge {}).names = (definitions.map Tree.name).eraseDups := by
  induction definitions using List.reverseRecOn with
  | nil => rfl
  | append_singleton before tree ih =>
    rw [List.foldl_append, List.foldl_cons, List.foldl_nil, names_merge, ih, List.map_append,
      List.map_cons, List.map_nil, eraseDups_concat]
    simp only [List.mem_eraseDups]

end TreeSet

namespace Parse

/-! ### Gathering definitions -/

/-- Whether an action that starts with this item has a body. -/
def opensBody (kind : ItemKind) : Bool :=
  [ItemKind.keyword .blockWord, .keyword .ifWord, .keyword .rangeWord, .keyword .withWord].contains
    kind

/-- That a passage is read between two states by the grammar in which a name may be defined again,
with the definitions in it in the order in which they end. What has no body is read as by the
parser. -/
inductive Gathers (setting : Setting) : Passage → State → List Tree → State → Prop
  | body {s after : State} {definitions : List Tree} {found : List Node} {ending : Ending}
    (hdepth : s.depth < maxDepth)
    (hfound : Gathers setting (.statements found ending) s.enter definitions after) :
    Gathers setting (.body ⟨s.skipSpaces.peek.position, found⟩ ending) s definitions after.leave
  | statementsEnd {s after : State} {definitions : List Tree} {ending : Ending}
    (hpeek : s.skipSpaces.peek.kind ≠ .eof)
    (hending : Gathers setting (.statement (.ending ending)) s definitions after) :
    Gathers setting (.statements [] ending) s definitions after
  | statementsMore {s afterFirst after : State} {definitions further : List Tree} {first : Node}
    {others : List Node} {ending : Ending} (hpeek : s.skipSpaces.peek.kind ≠ .eof)
    (hfirst : Gathers setting (.statement (.node first)) s definitions afterFirst)
    (hothers : Gathers setting (.statements others ending) afterFirst further after) :
    Gathers setting (.statements (first :: others) ending) s (definitions ++ further) after
  | plain {s after : State} {found : Statement} (hplain : s.skipSpaces.peek.kind ≠ .leftDelim)
    (hfound : DerivesPassage setting (.statement found) s after) :
    Gathers setting (.statement found) s [] after
  | delimited {s afterItem after : State} {definitions : List Tree} {item : Item}
    {found : Statement} (hread : s.Reads item afterItem) (hkind : item.kind = .leftDelim)
    (hfound : Gathers setting (.action found) (afterItem.enterAction item.position.line)
      definitions after) :
    Gathers setting (.statement found) s definitions after.leaveAction
  | simple {s after : State} {found : Statement}
    (hsimple : opensBody s.skipSpaces.peek.kind = false)
    (hfound : DerivesPassage setting (.action found) s after) :
    Gathers setting (.action found) s [] after
  | blockAction {s afterItem after : State} {definitions : List Tree} {found : Node} {item : Item}
    (hread : s.Reads item afterItem) (hkind : item.kind = .keyword .blockWord)
    (hfound : Gathers setting (.block found) afterItem definitions after) :
    Gathers setting (.action (.node found)) s definitions after
  | branchAction {s afterItem after : State} {definitions : List Tree} {item : Item}
    {kind : BranchKind} {found : Node} (hread : s.Reads item afterItem)
    (hkind : item.kind = .keyword (branchWord kind))
    (hfound : Gathers setting (.control kind found) afterItem definitions after) :
    Gathers setting (.action (.node found)) s definitions after
  | branchBody {kind : BranchKind} {s after : State} {definitions : List Tree} {found : Body}
    {ending : Ending}
    (hfound : Gathers setting (.body found ending) (s.enterBranch kind) definitions after) :
    Gathers setting (.branchBody kind found ending) s definitions (after.leaveBranch kind)
  | nestedBody {s after : State} {definitions : List Tree} {found : Body}
    (hfound : Gathers setting (.body found .finished) s.enterTemplate definitions after) :
    Gathers setting (.nestedBody found) s definitions (after.leaveTemplate s)
  | controlOnly {kind : BranchKind} {s afterHead after : State} {definitions : List Tree}
    {head : Pipeline} {first : Body}
    (hhead : DerivesPhrase setting (.pipeline (clauseOf kind) .rightDelim head) s afterHead)
    (hfirst : Gathers setting (.branchBody kind first .finished) afterHead definitions after) :
    Gathers setting (.control kind (.branch kind head.position head first none)) s definitions
      (after.keepVariables s.visible.length)
  | controlContinued {kind : BranchKind} {s afterHead afterFirst after : State}
    {definitions further : List Tree} {head : Pipeline} {first : Body} {position : Position}
    {word : Keyword} {inner : Node}
    (hhead : DerivesPhrase setting (.pipeline (clauseOf kind) .rightDelim head) s afterHead)
    (hfirst : Gathers setting (.branchBody kind first (.otherwise position)) afterHead definitions
      afterFirst)
    (hword : continuing? kind = some word) (hpeek : afterFirst.peek.kind = .keyword word)
    (hinner : Gathers setting (.control kind inner) afterFirst.advance further after) :
    Gathers setting
      (.control kind (.branch kind head.position head first (some ⟨position, [inner]⟩))) s
      (definitions ++ further) (after.keepVariables s.visible.length)
  | controlOtherwise {kind : BranchKind} {s afterHead afterFirst after : State}
    {definitions further : List Tree} {head : Pipeline} {first second : Body} {position : Position}
    (hhead : DerivesPhrase setting (.pipeline (clauseOf kind) .rightDelim head) s afterHead)
    (hfirst : Gathers setting (.branchBody kind first (.otherwise position)) afterHead definitions
      afterFirst)
    (hother : ∀ word, continuing? kind = some word → afterFirst.peek.kind ≠ .keyword word)
    (hsecond : Gathers setting (.body second .finished) afterFirst further after) :
    Gathers setting (.control kind (.branch kind head.position head first (some second))) s
      (definitions ++ further) (after.keepVariables s.visible.length)
  | block {s afterName afterHead after : State} {definitions : List Tree} {name : String}
    {position : Position} {argument : Pipeline} {root : Body}
    (hname : NamesTemplate s name position afterName)
    (hargument : DerivesPhrase setting (.pipeline .block .rightDelim argument) afterName afterHead)
    (hroot : Gathers setting (.nestedBody root) afterHead definitions after) :
    Gathers setting (.block (.template position name (some argument))) s
      (definitions ++ [⟨name, setting.template, root⟩])
      { after with trees := after.trees.merge ⟨name, setting.template, root⟩ }

/-- That a definition is read likewise, from its keyword's end on. -/
inductive GathersDefinition (setting : Setting) (s : State) : List Tree → State → Prop
  | definition {afterName afterHead after : State} {definitions : List Tree} {name : String}
    {position : Position} {root : Body} (hname : NamesTemplate s name position afterName)
    (hclose : afterName.ReadsKind .rightDelim afterHead)
    (hroot : Gathers setting (.nestedBody root) afterHead definitions after) :
    GathersDefinition setting s (definitions ++ [⟨name, setting.template, root⟩])
      { after with trees := after.trees.merge ⟨name, setting.template, root⟩ }

/-- That the statements and definitions of a source are read likewise up to its end. -/
inductive GathersRoot (setting : Setting) : List Node → State → List Tree → State → Prop
  | finished {s : State} (hpeek : s.peek.kind = .eof) : GathersRoot setting [] s [] s
  | definition {s afterWord afterFirst after : State} {definitions further : List Tree}
    {found : List Node} (hopens : OpensDefinition s afterWord)
    (hdefines : GathersDefinition setting afterWord definitions afterFirst)
    (hothers : GathersRoot setting found afterFirst further after) :
    GathersRoot setting found s (definitions ++ further) after
  | statement {s afterFirst after : State} {definitions further : List Tree} {first : Node}
    {others : List Node} (hpeek : s.peek.kind ≠ .eof)
    (hopens : ∀ afterWord, ¬ OpensDefinition s afterWord)
    (hfirst : Gathers setting (.statement (.node first)) s definitions afterFirst)
    (hothers : GathersRoot setting others afterFirst further after) :
    GathersRoot setting (first :: others) s (definitions ++ further) after

end Parse

/-- That these are the definitions of a source in their order, that of the source itself at the
end: the source is one of the grammar in which a name may be defined again. -/
inductive GathersSource (name : String) (delimiters : Delimiters) (isFunction : String → Bool)
    (source : String) : List Tree → Prop
  | source {nodes : List Node} {definitions : List Tree} {after : Parse.State}
    (hfound : Parse.GathersRoot ⟨name, isFunction⟩ nodes
      (Parse.State.initial (lex delimiters source)) definitions after) :
    GathersSource name delimiters isFunction source (definitions ++
      [⟨name, name, ⟨(Parse.State.initial (lex delimiters source)).peek.position, nodes⟩⟩])

namespace Parse

section Gathering

variable {setting : Setting} {s after : State} {definitions : List Tree}

/-- A definition is added exactly if it can follow those before it. -/
theorem define_eq_ok_iff {tree : Tree} {trees : TreeSet} :
    define setting s tree = .ok trees ↔ s.trees.Admits [tree] ∧ trees = s.trees.merge tree := by
  unfold define
  by_cases hagain : (s.trees.hasContent tree.name && !tree.isEmpty) = true
  · simp [TreeSet.Admits, hagain]
  · simp [TreeSet.Admits, hagain, eq_comm]

/-- What is no action adds no tree. -/
theorem DerivesPassage.trees_eq_of_plain {found : Statement}
    (hplain : s.skipSpaces.peek.kind ≠ .leftDelim)
    (hderives : DerivesPassage setting (.statement found) s after) : after.trees = s.trees := by
  cases hderives with
  | text hread => exact hread.trees_eq
  | comment hread => exact hread.trees_eq
  | delimited hread hkind => exact absurd (hread.peek_eq ▸ hkind) hplain

/-- An action without a body adds no tree. -/
theorem DerivesPassage.trees_eq_of_simple {found : Statement}
    (hsimple : opensBody s.skipSpaces.peek.kind = false)
    (hderives : DerivesPassage setting (.action found) s after) : after.trees = s.trees := by
  cases hderives with
  | blockAction hread hkind =>
    rw [hread.peek_eq, hkind] at hsimple
    cases hsimple
  | @branchAction _ _ _ _ kind _ hread hkind =>
    rw [hread.peek_eq, hkind] at hsimple
    cases kind <;> cases hsimple
  | breakAction hread _ hclose => exact hclose.trees_eq.trans hread.trees_eq
  | continueAction hread _ hclose => exact hclose.trees_eq.trans hread.trees_eq
  | elseWord hread => exact hread.trees_eq
  | elseAction hread _ hclose => exact hclose.trees_eq.trans hread.trees_eq
  | endAction hread _ hclose => exact hclose.trees_eq.trans hread.trees_eq
  | templateBare hread _ hname hclose =>
    exact hclose.trees_eq.trans (hname.trees_eq.trans hread.trees_eq)
  | templateWith hread _ hname _ _ hargument =>
    exact hargument.trees_eq.trans (hname.trees_eq.trans hread.trees_eq)
  | pipelineAction _ _ hfound => exact hfound.trees_eq

/-- The trees behind a passage are those before it with its definitions merged into them. -/
theorem Gathers.trees_eq {passage : Passage}
    (hgathers : Gathers setting passage s definitions after) :
    after.trees = definitions.foldl TreeSet.merge s.trees := by
  induction hgathers with
  | body _ _ ih => exact ih
  | statementsEnd _ _ ih => exact ih
  | statementsMore _ _ _ ihFirst ihOthers => rw [ihOthers, ihFirst, List.foldl_append]
  | plain hplain hfound => exact hfound.trees_eq_of_plain hplain
  | delimited hread _ _ ih =>
    rw [← hread.trees_eq]
    exact ih
  | simple hsimple hfound => exact hfound.trees_eq_of_simple hsimple
  | blockAction hread _ _ ih => rw [ih, hread.trees_eq]
  | branchAction hread _ _ ih => rw [ih, hread.trees_eq]
  | branchBody _ ih => exact ih
  | nestedBody _ ih => exact ih
  | controlOnly hhead _ ih =>
    rw [← hhead.trees_eq]
    exact ih
  | controlContinued hhead _ _ _ _ ihFirst ihInner =>
    refine ihInner.trans ?_
    rw [State.trees_advance, ihFirst, hhead.trees_eq, List.foldl_append]
  | controlOtherwise hhead _ _ _ ihFirst ihSecond =>
    refine ihSecond.trans ?_
    rw [ihFirst, hhead.trees_eq, List.foldl_append]
  | block hname hargument _ ih =>
    rw [List.foldl_append, List.foldl_cons, List.foldl_nil, ih, hargument.trees_eq,
      hname.trees_eq]

/-- What is gathered is derived if its definitions can follow those before it. -/
theorem Gathers.derives {passage : Passage} (hgathers : Gathers setting passage s definitions after)
    (hadmits : s.trees.Admits definitions) : DerivesPassage setting passage s after := by
  induction hgathers with
  | body hdepth _ ih => exact .body hdepth (ih hadmits)
  | statementsEnd hpeek _ ih => exact .statementsEnd hpeek (ih hadmits)
  | statementsMore hpeek hfirst _ ihFirst ihOthers =>
    rw [TreeSet.admits_append, ← hfirst.trees_eq] at hadmits
    exact .statementsMore hpeek (ihFirst hadmits.1) (ihOthers hadmits.2)
  | plain _ hfound => exact hfound
  | delimited hread hkind _ ih =>
    rw [← hread.trees_eq] at hadmits
    exact .delimited hread hkind (ih hadmits)
  | simple _ hfound => exact hfound
  | blockAction hread hkind _ ih =>
    rw [← hread.trees_eq] at hadmits
    exact .blockAction hread hkind (ih hadmits)
  | branchAction hread hkind _ ih =>
    rw [← hread.trees_eq] at hadmits
    exact .branchAction hread hkind (ih hadmits)
  | branchBody _ ih => exact .branchBody (ih hadmits)
  | nestedBody _ ih => exact .nestedBody (ih hadmits)
  | controlOnly hhead _ ih =>
    rw [← hhead.trees_eq] at hadmits
    exact .controlOnly hhead (ih hadmits)
  | controlContinued hhead hfirst hword hpeek _ ihFirst ihInner =>
    rw [← hhead.trees_eq, TreeSet.admits_append, ← hfirst.trees_eq] at hadmits
    rw [State.trees_advance] at ihInner
    exact .controlContinued hhead (ihFirst hadmits.1) hword hpeek (ihInner hadmits.2)
  | controlOtherwise hhead hfirst hother _ ihFirst ihSecond =>
    rw [← hhead.trees_eq, TreeSet.admits_append, ← hfirst.trees_eq] at hadmits
    exact .controlOtherwise hhead (ihFirst hadmits.1) hother (ihSecond hadmits.2)
  | block hname hargument hroot ih =>
    rw [← hname.trees_eq, ← hargument.trees_eq, TreeSet.admits_append, ← hroot.trees_eq] at hadmits
    exact .block hname hargument (ih hadmits.1) (define_eq_ok_iff.mpr ⟨hadmits.2, rfl⟩)

/-! ### Refusals -/

/-- That a step fails because a name is given content a second time. -/
def Redefines {α : Type} (setting : Setting) (result : Except ParseError α) : Prop :=
  ∃ (s : State) (name : String), result = s.fail setting (.redefined name)

/-- What follows a step that fails this way fails this way. -/
theorem Redefines.bind {α β : Type} {step : Except ParseError α} (hstep : Redefines setting step)
    (next : α → Except ParseError β) : Redefines setting (step >>= next) := by
  obtain ⟨s, name, rfl⟩ := hstep
  exact ⟨s, name, rfl⟩

/-- What follows a step that gives a result fails this way if it does so after the result. -/
theorem Redefines.behind {α β : Type} {step : Except ParseError α} {value : α}
    {next : α → Except ParseError β} (hstep : step = .ok value)
    (hnext : Redefines setting (next value)) : Redefines setting (step >>= next) := by
  rw [hstep]
  exact hnext

/-- What follows the next item fails this way if it does so after the item that is read. -/
theorem Redefines.behindItem {α : Type} {item : Item} {clause : Clause}
    {next : Reading Item s → Except ParseError α} (hread : s.Reads item after)
    (hnext : Redefines setting (next ⟨item, after, hread.shorter⟩)) :
    Redefines setting (nextItem setting s clause >>= next) :=
  .behind (nextItem_eq_ok_iff.mpr hread) hnext

/-- A definition that cannot follow those before it fails this way. -/
theorem redefines_define {tree : Tree} (hagain : ¬ s.trees.Admits [tree]) :
    Redefines setting (define setting s tree) := by
  have hboth : (s.trees.hasContent tree.name && !tree.isEmpty) = true := by
    simpa [TreeSet.Admits] using hagain
  exact ⟨s, tree.name, if_pos hboth⟩

/-- That the parser refuses a passage for a redefinition. -/
def Passage.Redefined (setting : Setting) (passage : Passage) (s : State) : Prop :=
  match passage with
  | body .. => Redefines setting (Parse.body setting s)
  | statements .. => Redefines setting (Parse.statements setting s)
  | statement _ => Redefines setting (Parse.statement setting s)
  | action _ => Redefines setting (Parse.action setting s)
  | branchBody kind .. => Redefines setting (Parse.branchBody setting kind s)
  | nestedBody _ => ∀ clause, Redefines setting (Parse.nestedBody setting clause s)
  | control kind _ => Redefines setting (Parse.control setting kind s)
  | block _ => Redefines setting (Parse.blockControl setting s)

/-- What is gathered is refused if its definitions cannot follow those before it. -/
theorem Gathers.redefined {passage : Passage}
    (hgathers : Gathers setting passage s definitions after)
    (hagain : ¬ s.trees.Admits definitions) : passage.Redefined setting s := by
  induction hgathers with
  | body hdepth _ ih =>
    change Redefines setting (Parse.body setting _)
    rw [Parse.body]
    have hroom : checkDepth setting _ = .ok () := checkDepth_eq_ok_iff.mpr hdepth
    exact .behind hroom ((ih hagain).bind _)
  | statementsEnd hpeek _ ih =>
    change Redefines setting (Parse.statements setting _)
    rw [Parse.statements, if_neg hpeek]
    exact (ih hagain).bind _
  | @statementsMore s _ _ definitions _ _ _ _ hpeek hfirst _ ihFirst ihOthers =>
    change Redefines setting (Parse.statements setting _)
    rw [Parse.statements, if_neg hpeek]
    by_cases hadmits : s.trees.Admits definitions
    · obtain ⟨_, hparses⟩ := (hfirst.derives hadmits).parses
      refine .behind hparses ((ihOthers fun hothers ↦ hagain ?_).bind _)
      exact TreeSet.admits_append.mpr ⟨hadmits, hfirst.trees_eq ▸ hothers⟩
    · exact (ihFirst hadmits).bind _
  | plain => exact absurd trivial hagain
  | delimited hread hkind _ ih =>
    change Redefines setting (Parse.statement setting _)
    rw [Parse.statement]
    refine .behindItem hread ?_
    simp only [hkind]
    exact (ih (hread.trees_eq ▸ hagain)).bind _
  | simple => exact absurd trivial hagain
  | blockAction hread hkind _ ih =>
    change Redefines setting (Parse.action setting _)
    rw [Parse.action]
    refine .behindItem hread ?_
    simp only [hkind]
    exact (ih (hread.trees_eq ▸ hagain)).bind _
  | @branchAction _ _ _ _ _ kind _ hread hkind _ ih =>
    change Redefines setting (Parse.action setting _)
    rw [Parse.action]
    refine .behindItem hread ?_
    have hcontrol := ih (hread.trees_eq ▸ hagain)
    cases kind <;> simp only [branchWord] at hkind <;> simp only [hkind] <;>
      exact hcontrol.bind _
  | branchBody _ ih =>
    change Redefines setting (Parse.branchBody setting _ _)
    rw [Parse.branchBody]
    exact (ih hagain).bind _
  | nestedBody _ ih =>
    intro clause
    rw [Parse.nestedBody]
    exact (ih hagain).bind _
  | controlOnly hhead _ ih =>
    change Redefines setting (Parse.control setting _ _)
    obtain ⟨_, hparses⟩ := hhead.parses
    rw [Parse.control]
    exact .behind hparses ((ih (hhead.trees_eq ▸ hagain)).bind _)
  | @controlContinued _ s afterHead _ _ definitions _ _ _ _ _ _ hhead hfirst hword hpeek _ ihFirst
      ihInner =>
    change Redefines setting (Parse.control setting _ _)
    obtain ⟨_, hparses⟩ := hhead.parses
    rw [Parse.control]
    refine .behind hparses ?_
    by_cases hadmits : afterHead.trees.Admits definitions
    · obtain ⟨_, hbody⟩ := (hfirst.derives hadmits).parses
      refine .behind hbody ?_
      dsimp only
      rw [if_pos (by simp [hword, hpeek])]
      refine (ihInner fun hothers ↦ hagain ?_).bind _
      rw [State.trees_advance, hfirst.trees_eq] at hothers
      exact hhead.trees_eq ▸ TreeSet.admits_append.mpr ⟨hadmits, hothers⟩
    · exact (ihFirst hadmits).bind _
  | @controlOtherwise kind s afterHead afterFirst _ definitions _ _ _ _ _ hhead hfirst hother _
      ihFirst ihSecond =>
    change Redefines setting (Parse.control setting _ _)
    obtain ⟨_, hparses⟩ := hhead.parses
    rw [Parse.control]
    refine .behind hparses ?_
    by_cases hadmits : afterHead.trees.Admits definitions
    · obtain ⟨_, hbody⟩ := (hfirst.derives hadmits).parses
      refine .behind hbody ?_
      have hends : ¬ (continuing? kind).any (fun word ↦ afterFirst.peek.kind = .keyword word) := by
        intro hany
        rw [Option.any_eq_true] at hany
        obtain ⟨word, hword, hpeek⟩ := hany
        exact hother word hword (by simpa using hpeek)
      dsimp only
      rw [if_neg hends]
      refine (ihSecond fun hothers ↦ hagain ?_).bind _
      rw [hfirst.trees_eq] at hothers
      exact hhead.trees_eq ▸ TreeSet.admits_append.mpr ⟨hadmits, hothers⟩
    · exact (ihFirst hadmits).bind _
  | @block s _ afterHead _ definitions name _ _ root hname hargument hroot ih =>
    change Redefines setting (Parse.blockControl setting _)
    obtain ⟨_, hparses⟩ := hargument.parses
    rw [Parse.blockControl]
    refine .behind (hname.parses .block) (.behind hparses ?_)
    by_cases hadmits : afterHead.trees.Admits definitions
    · obtain ⟨_, hbody⟩ := (hroot.derives hadmits).parses .block
      refine .behind hbody ((redefines_define fun hlast ↦ hagain ?_).bind _)
      rw [hroot.trees_eq] at hlast
      exact hname.trees_eq ▸ hargument.trees_eq ▸ TreeSet.admits_append.mpr ⟨hadmits, hlast⟩
    · exact (ih hadmits .block).bind _

/-! ### What is accepted -/

/-- What starts no control structure starts no body. -/
theorem opensBody_of_startsControl {kind : ItemKind} (hkind : startsControl kind = false) :
    opensBody kind = false := by
  cases kind with
  | keyword word => cases word <;> first | rfl | cases hkind
  | _ => rfl

/-- The definitions in a passage that is derived can be gathered, and follow those before it. -/
theorem DerivesPassage.gathers {passage : Passage}
    (hderives : DerivesPassage setting passage s after) :
    ∃ definitions, Gathers setting passage s definitions after ∧ s.trees.Admits definitions := by
  have hsimple {s after afterItem : State} {item : Item} {found : Statement}
      (hread : s.Reads item afterItem) (hkind : opensBody item.kind = false)
      (hfound : DerivesPassage setting (.action found) s after) :
      ∃ definitions, Gathers setting (.action found) s definitions after ∧
        s.trees.Admits definitions :=
    ⟨[], .simple (hread.peek_eq.symm ▸ hkind) hfound, trivial⟩
  induction hderives with
  | body hdepth _ ih =>
    obtain ⟨definitions, hfound, hadmits⟩ := ih
    exact ⟨definitions, .body hdepth hfound, hadmits⟩
  | statementsEnd hpeek _ ih =>
    obtain ⟨definitions, hfound, hadmits⟩ := ih
    exact ⟨definitions, .statementsEnd hpeek hfound, hadmits⟩
  | statementsMore hpeek _ _ ihFirst ihOthers =>
    obtain ⟨definitions, hfirst, hadmits⟩ := ihFirst
    obtain ⟨further, hothers, hfollow⟩ := ihOthers
    rw [hfirst.trees_eq] at hfollow
    exact ⟨definitions ++ further, .statementsMore hpeek hfirst hothers,
      TreeSet.admits_append.mpr ⟨hadmits, hfollow⟩⟩
  | text hread hkind =>
    refine ⟨[], .plain ?_ (.text hread hkind), trivial⟩
    rw [hread.peek_eq, hkind]
    exact nofun
  | comment hread hkind =>
    refine ⟨[], .plain ?_ (.comment hread hkind), trivial⟩
    rw [hread.peek_eq, hkind]
    exact nofun
  | delimited hread hkind _ ih =>
    obtain ⟨definitions, hfound, hadmits⟩ := ih
    exact ⟨definitions, .delimited hread hkind hfound, hread.trees_eq ▸ hadmits⟩
  | blockAction hread hkind _ ih =>
    obtain ⟨definitions, hfound, hadmits⟩ := ih
    exact ⟨definitions, .blockAction hread hkind hfound, hread.trees_eq ▸ hadmits⟩
  | breakAction hread hkind hclose hloop =>
    exact hsimple hread (hkind ▸ rfl) (.breakAction hread hkind hclose hloop)
  | continueAction hread hkind hclose hloop =>
    exact hsimple hread (hkind ▸ rfl) (.continueAction hread hkind hclose hloop)
  | elseWord hread hkind hcontinues =>
    exact hsimple hread (hkind ▸ rfl) (.elseWord hread hkind hcontinues)
  | elseAction hread hkind hclose hcloser =>
    exact hsimple hread (hkind ▸ rfl) (.elseAction hread hkind hclose hcloser)
  | endAction hread hkind hclose =>
    exact hsimple hread (hkind ▸ rfl) (.endAction hread hkind hclose)
  | branchAction hread hkind _ ih =>
    obtain ⟨definitions, hfound, hadmits⟩ := ih
    exact ⟨definitions, .branchAction hread hkind hfound, hread.trees_eq ▸ hadmits⟩
  | templateBare hread hkind hname hclose =>
    exact hsimple hread (hkind ▸ rfl) (.templateBare hread hkind hname hclose)
  | templateWith hread hkind hname hnext hopen hargument =>
    exact hsimple hread (hkind ▸ rfl) (.templateWith hread hkind hname hnext hopen hargument)
  | pipelineAction hread hkind hfound =>
    exact hsimple hread (opensBody_of_startsControl hkind) (.pipelineAction hread hkind hfound)
  | branchBody _ ih =>
    obtain ⟨definitions, hfound, hadmits⟩ := ih
    exact ⟨definitions, .branchBody hfound, hadmits⟩
  | nestedBody _ ih =>
    obtain ⟨definitions, hfound, hadmits⟩ := ih
    exact ⟨definitions, .nestedBody hfound, hadmits⟩
  | controlOnly hhead _ ih =>
    obtain ⟨definitions, hfirst, hadmits⟩ := ih
    exact ⟨definitions, .controlOnly hhead hfirst, hhead.trees_eq ▸ hadmits⟩
  | controlContinued hhead _ hword hpeek _ ihFirst ihInner =>
    obtain ⟨definitions, hfirst, hadmits⟩ := ihFirst
    obtain ⟨further, hinner, hfollow⟩ := ihInner
    rw [State.trees_advance, hfirst.trees_eq] at hfollow
    exact ⟨definitions ++ further, .controlContinued hhead hfirst hword hpeek hinner,
      hhead.trees_eq ▸ TreeSet.admits_append.mpr ⟨hadmits, hfollow⟩⟩
  | controlOtherwise hhead _ hother _ ihFirst ihSecond =>
    obtain ⟨definitions, hfirst, hadmits⟩ := ihFirst
    obtain ⟨further, hsecond, hfollow⟩ := ihSecond
    rw [hfirst.trees_eq] at hfollow
    exact ⟨definitions ++ further, .controlOtherwise hhead hfirst hother hsecond,
      hhead.trees_eq ▸ TreeSet.admits_append.mpr ⟨hadmits, hfollow⟩⟩
  | block hname hargument _ hdefine ih =>
    obtain ⟨definitions, hroot, hadmits⟩ := ih
    obtain ⟨hlast, rfl⟩ := define_eq_ok_iff.mp hdefine
    rw [hroot.trees_eq] at hlast
    exact ⟨_, .block hname hargument hroot,
      hname.trees_eq ▸ hargument.trees_eq ▸ TreeSet.admits_append.mpr ⟨hadmits, hlast⟩⟩

/-! ### Whole sources -/

/-- The trees behind a definition are those before it with its own and those in it merged. -/
theorem GathersDefinition.trees_eq (hgathers : GathersDefinition setting s definitions after) :
    after.trees = definitions.foldl TreeSet.merge s.trees := by
  cases hgathers with
  | definition hname hclose hroot =>
    rw [List.foldl_append, ← hname.trees_eq, ← hclose.trees_eq, ← hroot.trees_eq]
    rfl

/-- A definition that is gathered is derived if it can follow those before it. -/
theorem GathersDefinition.defines (hgathers : GathersDefinition setting s definitions after)
    (hadmits : s.trees.Admits definitions) : Defines setting s after := by
  cases hgathers with
  | definition hname hclose hroot =>
    rw [← hname.trees_eq, ← hclose.trees_eq, TreeSet.admits_append, ← hroot.trees_eq] at hadmits
    exact .definition hname hclose (hroot.derives hadmits.1)
      (define_eq_ok_iff.mpr ⟨hadmits.2, rfl⟩)

/-- A definition that is gathered is refused if it cannot follow those before it. -/
theorem GathersDefinition.redefined (hgathers : GathersDefinition setting s definitions after)
    (hagain : ¬ s.trees.Admits definitions) : Redefines setting (Parse.definition setting s) := by
  cases hgathers with
  | @definition _ afterHead after definitions _ _ _ hname hclose hroot =>
    rw [← hname.trees_eq, ← hclose.trees_eq, TreeSet.admits_append, ← hroot.trees_eq] at hagain
    obtain ⟨item, hcloser⟩ := hclose.parses .definition
    refine .behind (hname.parses .definition) (.behind hcloser ?_)
    by_cases hadmits : afterHead.trees.Admits definitions
    · obtain ⟨_, hbody⟩ := (hroot.derives hadmits).parses .definition
      exact .behind hbody ((redefines_define fun hlast ↦ hagain ⟨hadmits, hlast⟩).bind _)
    · exact (hroot.redefined hadmits .definition).bind _

/-- A definition that is derived can be gathered, and follows those before it. -/
theorem Defines.gathers (hdefines : Defines setting s after) :
    ∃ definitions, GathersDefinition setting s definitions after ∧
      s.trees.Admits definitions := by
  cases hdefines with
  | definition hname hclose hroot hdefine =>
    obtain ⟨definitions, hroot, hadmits⟩ := hroot.gathers
    obtain ⟨hlast, rfl⟩ := define_eq_ok_iff.mp hdefine
    rw [hroot.trees_eq] at hlast
    exact ⟨_, .definition hname hclose hroot,
      hname.trees_eq ▸ hclose.trees_eq ▸ TreeSet.admits_append.mpr ⟨hadmits, hlast⟩⟩

/-- The word of a definition adds no tree. -/
theorem OpensDefinition.trees_eq {afterWord : State} (hopens : OpensDefinition s afterWord) :
    afterWord.trees = s.trees := hopens.word.trees_eq.trans s.trees_advance

/-- The trees behind a source are those before it with its definitions merged into them. -/
theorem GathersRoot.trees_eq {found : List Node}
    (hgathers : GathersRoot setting found s definitions after) :
    after.trees = definitions.foldl TreeSet.merge s.trees := by
  induction hgathers with
  | finished => rfl
  | definition hopens hdefines _ ih =>
    rw [ih, hdefines.trees_eq, hopens.trees_eq, List.foldl_append]
  | statement _ _ hfirst _ ih => rw [ih, hfirst.trees_eq, List.foldl_append]

/-- What is gathered of a source is derived if its definitions can follow each other. -/
theorem GathersRoot.derives {found : List Node}
    (hgathers : GathersRoot setting found s definitions after)
    (hadmits : s.trees.Admits definitions) : DerivesRoot setting found s after := by
  induction hgathers with
  | finished hpeek => exact .finished hpeek
  | definition hopens hdefines _ ih =>
    rw [← hopens.trees_eq, TreeSet.admits_append, ← hdefines.trees_eq] at hadmits
    exact .definition hopens (hdefines.defines hadmits.1) (ih hadmits.2)
  | statement hpeek hopens hfirst _ ih =>
    rw [TreeSet.admits_append, ← hfirst.trees_eq] at hadmits
    exact .statement hpeek hopens (hfirst.derives hadmits.1) (ih hadmits.2)

/-- What is gathered of a source is refused if its definitions cannot follow each other. -/
theorem GathersRoot.redefined {found : List Node}
    (hgathers : GathersRoot setting found s definitions after)
    (hagain : ¬ s.trees.Admits definitions) : Redefines setting (root setting s) := by
  induction hgathers with
  | finished => exact absurd trivial hagain
  | @definition s afterWord _ _ definitions _ _ hopens hdefines _ ih =>
    rw [← hopens.trees_eq, TreeSet.admits_append, ← hdefines.trees_eq] at hagain
    rw [root_of_opensDefinition hopens]
    by_cases hadmits : afterWord.trees.Admits definitions
    · obtain ⟨_, hdefinition⟩ := (hdefines.defines hadmits).parses
      exact .behind hdefinition (ih fun hothers ↦ hagain ⟨hadmits, hothers⟩)
    · exact (hdefines.redefined hadmits).bind _
  | @statement s _ _ definitions _ _ _ hpeek hopens hfirst _ ih =>
    rw [TreeSet.admits_append, ← hfirst.trees_eq] at hagain
    rw [root_of_not_opensDefinition hpeek hopens]
    by_cases hadmits : s.trees.Admits definitions
    · obtain ⟨_, hstatement⟩ := (hfirst.derives hadmits).parses
      exact .behind hstatement ((ih fun hothers ↦ hagain ⟨hadmits, hothers⟩).bind _)
    · exact (hfirst.redefined hadmits).bind _

/-- What is derived of a source can be gathered, and its definitions follow each other. -/
theorem DerivesRoot.gathers {found : List Node} (hderives : DerivesRoot setting found s after) :
    ∃ definitions, GathersRoot setting found s definitions after ∧
      s.trees.Admits definitions := by
  induction hderives with
  | finished hpeek => exact ⟨[], .finished hpeek, trivial⟩
  | definition hopens hdefines _ ih =>
    obtain ⟨definitions, hfirst, hadmits⟩ := hdefines.gathers
    obtain ⟨further, hothers, hfollow⟩ := ih
    rw [hfirst.trees_eq] at hfollow
    exact ⟨definitions ++ further, .definition hopens hfirst hothers,
      hopens.trees_eq ▸ TreeSet.admits_append.mpr ⟨hadmits, hfollow⟩⟩
  | statement hpeek hopens hfirst _ ih =>
    obtain ⟨definitions, hfirst, hadmits⟩ := hfirst.gathers
    obtain ⟨further, hothers, hfollow⟩ := ih
    rw [hfirst.trees_eq] at hfollow
    exact ⟨definitions ++ further, .statement hpeek hopens hfirst hothers,
      TreeSet.admits_append.mpr ⟨hadmits, hfollow⟩⟩

end Gathering

end Parse

section Sources

variable {name source : String} {delimiters : Delimiters} {isFunction : String → Bool}
  {definitions : List Tree}

/-- A source whose definitions are gathered is accepted, with these definitions merged, exactly if
they can follow each other. It is refused for a redefinition otherwise. -/
theorem parse_of_gathers
    (hgathers : GathersSource name delimiters isFunction source definitions) :
    (TreeSet.Admits {} definitions →
      parse name delimiters isFunction source = .ok (definitions.foldl TreeSet.merge {})) ∧
    (¬ TreeSet.Admits {} definitions →
      Parse.Redefines ⟨name, isFunction⟩ (parse name delimiters isFunction source)) := by
  cases hgathers with
  | @source nodes definitions after hfound =>
    have hstart : (Parse.State.initial (lex delimiters source)).trees = {} := rfl
    rw [TreeSet.admits_append, List.foldl_append, ← hstart, ← hfound.trees_eq]
    constructor
    · rintro ⟨hadmits, hlast⟩
      exact parse_eq_ok_iff.mpr ⟨nodes, after, hfound.derives hadmits,
        Parse.define_eq_ok_iff.mpr ⟨hlast, rfl⟩⟩
    · intro hagain
      by_cases hadmits : TreeSet.Admits (Parse.State.initial (lex delimiters source)).trees
          definitions
      · exact .behind (hfound.derives hadmits).parses
          (Parse.redefines_define fun hlast ↦ hagain ⟨hadmits, hlast⟩)
      · exact (hfound.redefined hadmits).bind _

/-- The definitions of a source that is accepted can be gathered, and follow each other. -/
theorem exists_gathers_of_parse {set : TreeSet}
    (hparse : parse name delimiters isFunction source = .ok set) :
    ∃ definitions, GathersSource name delimiters isFunction source definitions ∧
      TreeSet.Admits {} definitions := by
  obtain ⟨nodes, after, hderives, hdefine⟩ := parse_eq_ok_iff.mp hparse
  obtain ⟨definitions, hfound, hadmits⟩ := hderives.gathers
  have hlast := (Parse.define_eq_ok_iff.mp hdefine).1
  rw [hfound.trees_eq] at hlast
  exact ⟨_, .source hfound, TreeSet.admits_append.mpr ⟨hadmits, hlast⟩⟩

end Sources

end Stencil.Syntax
