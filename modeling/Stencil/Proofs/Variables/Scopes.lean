import Stencil.Proofs.Execution.Coupling
import Stencil.Proofs.Grammar.Context
import Stencil.Proofs.Grammar.Scripts
import Stencil.Proofs.Grammar.Sentences
import Stencil.Proofs.Grammar.Soundness

/-!
# The scope of a parse

The scope of a parse is what it knows of its surroundings: the names that are visible, how many
loops it is in, and how deep it is. The parser changes it on its way through a construct and puts it
back at the end. A statement makes visible what its pipelines declare, in the order of the source,
and to the parser an assignment is a declaration; a control structure hides at its end what became
visible in it (`Statement.exports`, `DerivesPassage.visible_action`). A template that is defined is
read with a scope of its own, whatever is visible around it and however many loops are
(`Call.run_nestedBody`).

`restoresScope` says so of the parser's functions, from every state.
-/

set_option autoImplicit false
set_option relaxedAutoImplicit false

namespace Stencil.Syntax

open Parse

/-! ### Names that become visible -/

theorem Node.targetNames_takeFields (base : Node) (position : Position) (names : List String) :
    (takeFields base position names).targetNames = base.targetNames := by
  unfold takeFields
  split <;> rfl

namespace Parse

/-- The names that a part of a pipeline declares, in the order of the source. -/
def Phrase.targetNames : Phrase → List String
  | .pipeline _ _ found => found.targetNames
  | .commands _ found => Command.allTargetNames found
  | .command found => found.targetNames
  | .operands found => Node.allTargetNames found
  | .operand found => found.targetNames

/-- The names that a statement makes visible for what follows it: those that its pipelines declare,
unless it is a control structure, which hides them again. -/
def Statement.exports : Statement → List String
  | .node (.branch ..) | .ending _ => []
  | .node found => found.targetNames

section Parts

variable {setting : Setting} {s middle after : State}

/-- A single item declares nothing. -/
theorem IsTerm.targetNames_eq {visible : List String} {item : Item} {base : Node}
    (hterm : IsTerm setting visible item base) : base.targetNames = [] := by
  cases hterm <;> rfl

theorem Chained.targetNames_eq {base found : Node} (hchained : Chained base s found after) :
    found.targetNames = base.targetNames := by
  cases hchained with
  | alone => rfl
  | fields => exact Node.targetNames_takeFields ..

/-- Behind a part of a pipeline the names that it declares are visible too, the last one in
front. -/
theorem DerivesPhrase.visible_eq {phrase : Phrase}
    (hderives : DerivesPhrase setting phrase s after) :
    after.visible = phrase.targetNames.reverse ++ s.visible := by
  induction hderives with
  | @pipeline _ _ _ _ _ declared _ hdeclares _ _ _ ih =>
    rw [ih, hdeclares.visible_eq, declareAll_eq]
    simp [Phrase.targetNames, Pipeline.targetNames]
  | commandsEnd hread => exact hread.visible_eq
  | commandsMore _ _ _ _ _ ihFirst ihOthers =>
    rw [ihOthers, ihFirst]
    simp [Phrase.targetNames, Command.allTargetNames]
  | command _ _ ih => exact ih
  | operandsEnd _ hend => exact hend.visible_eq
  | @operandsMore s afterFirst _ _ _ _ _ _ ihFirst ihOthers =>
    rw [ihOthers, afterFirst.visible_advance, ihFirst]
    simp [Phrase.targetNames, Node.allTargetNames, State.skipSpaces]
  | @operandsLast s _ _ _ _ _ hend ih =>
    rw [hend.visible_eq, ih]
    simp [Phrase.targetNames, Node.allTargetNames, State.skipSpaces]
  | parenthesized hread _ _ _ hchained ih =>
    rw [hchained.visible_eq, ← hread.visible_eq, Phrase.targetNames, hchained.targetNames_eq]
    exact ih
  | term hread hterm hchained =>
    rw [hchained.visible_eq, hread.visible_eq]
    simp [Phrase.targetNames, hchained.targetNames_eq, hterm.targetNames_eq]

/-! ### Statements -/

theorem DerivesPassage.visible_nestedBody {root : Body}
    (hderives : DerivesPassage setting (.nestedBody root) s after) : after.visible = s.visible := by
  cases hderives
  rfl

/-- Behind an action the names that it exports are visible too, the last one in front. -/
theorem DerivesPassage.visible_action {found : Statement}
    (hderives : DerivesPassage setting (.action found) s after) :
    after.visible = found.exports.reverse ++ s.visible := by
  cases hderives with
  | blockAction hread _ hfound =>
    cases hfound with
    | block hname hargument hroot =>
      have hbehind := hroot.visible_nestedBody.trans hargument.visible_eq
      rwa [hname.visible_eq, hread.visible_eq] at hbehind
  | breakAction hread _ hclose | continueAction hread _ hclose | endAction hread _ hclose =>
    exact hclose.visible_eq.trans hread.visible_eq
  | elseWord hread => exact hread.visible_eq
  | elseAction hread _ hclose => exact hclose.visible_eq.trans hread.visible_eq
  | branchAction hread _ hfound =>
    have hbehind := hfound.visible_control.trans hread.visible_eq
    cases hfound <;> exact hbehind
  | templateBare hread _ hname hclose =>
    exact hclose.visible_eq.trans (hname.visible_eq.trans hread.visible_eq)
  | templateWith hread _ hname _ _ hargument =>
    have hbehind := hargument.visible_eq
    rwa [hname.visible_eq, hread.visible_eq] at hbehind
  | pipelineAction _ _ hfound => exact hfound.visible_eq

/-- An action that starts with the word of a control structure exports no names. -/
theorem DerivesPassage.exports_eq_nil {found : Statement} {kind : BranchKind}
    (hderives : DerivesPassage setting (.action found) s after)
    (hpeek : s.skipSpaces.peek.kind = .keyword (branchWord kind)) : found.exports = [] := by
  have hword {item : Item} {afterItem : State} (hread : s.Reads item afterItem) :
      item.kind = .keyword (branchWord kind) := hread.peek_eq ▸ hpeek
  cases hderives with
  | blockAction hread hkind | templateWith hread hkind =>
    rw [hword hread] at hkind
    cases kind <;> cases hkind
  | pipelineAction hread hkind =>
    rw [hword hread] at hkind
    cases kind <;> cases hkind
  | branchAction _ _ hfound => cases hfound <;> rfl
  | _ => rfl

/-- A definition leaves the variables as they are. -/
theorem Defines.visible_eq (hdefines : Defines setting s after) : after.visible = s.visible := by
  cases hdefines with
  | definition hname hclose hroot =>
    exact hroot.visible_nestedBody.trans (hclose.visible_eq.trans hname.visible_eq)

end Parts

/-! ### Bodies of templates -/

/-- That a template's body was read from a place behind a state, with a scope of its own, and that
the template was then added to those from before. -/
structure ReadsAlone (setting : Setting) (s start : State) (tree : Tree) (trees : TreeSet) :
    Prop where
  behind : start.rest <:+ s.rest
  visible_eq : start.visible = ["$"]
  loopDepth_eq : start.loopDepth = 0
  depth_eq : start.depth = s.depth
  reads : ∃ inside, body setting start = .ok inside ∧ inside.value = (tree.root, .finished) ∧
    define setting inside.state tree = .ok trees

section Bodies

variable {setting : Setting} {s head : State} {clause : Clause}

/-- What is left behind the name of a template is the end of what was left before it. -/
theorem NamesTemplate.suffix {name : String} {position : Position}
    (hname : NamesTemplate s name position head) : head.rest <:+ s.rest := by
  cases hname with
  | name hread => exact hread.passes.suffix

/-- Behind what is read in front of it, the body of a template is read with a scope of its own. -/
theorem readsAlone_of_nestedBody {root : Reading Body head} {name : String} {trees : TreeSet}
    (hbehind : head.rest <:+ s.rest) (hdepth : head.depth = s.depth)
    (hroot : nestedBody setting clause head = .ok root)
    (hdefine : define setting root.state ⟨name, setting.template, root.value⟩ = .ok trees) :
    ∃ start tree, ReadsAlone setting s start tree trees := by
  rw [nestedBody] at hroot
  obtain ⟨⟨⟨inner, ending⟩, after, hshorter⟩, hbody, hresult⟩ := bind_eq_ok.mp hroot
  cases ending with
  | otherwise position => exact absurd hresult fail_ne_ok
  | finished =>
    cases hresult
    exact ⟨head.enterTemplate, ⟨name, setting.template, inner⟩, hbehind, rfl, rfl, hdepth, _,
      hbody, rfl, hdefine⟩

/-- A definition reads its body with a scope of its own. -/
theorem readsAlone_of_definition {reading : Reading Unit s}
    (hparse : definition setting s = .ok reading) :
    ∃ start tree, ReadsAlone setting s start tree reading.state.trees := by
  obtain ⟨⟨⟨name, position⟩, afterName, h1⟩, hname, hparse⟩ := bind_eq_ok.mp hparse
  obtain ⟨⟨closer, afterHead, h2⟩, hcloser, hparse⟩ := bind_eq_ok.mp hparse
  obtain ⟨root, hroot, hparse⟩ := bind_eq_ok.mp hparse
  obtain ⟨trees, hdefine, hresult⟩ := bind_eq_ok.mp hparse
  have hname := namesTemplate_iff.mp hname
  have hclose := (expect_singleton_eq_ok_iff.mp hcloser).1
  cases hresult
  exact readsAlone_of_nestedBody (hclose.passes.suffix.trans hname.suffix)
    (hname.sameDepths.trans hclose.sameDepths).depth_eq hroot hdefine

/-- A block reads its body with a scope of its own. -/
theorem readsAlone_of_blockControl {reading : Reading Node s}
    (hparse : blockControl setting s = .ok reading) :
    ∃ start tree, ReadsAlone setting s start tree reading.state.trees := by
  rw [blockControl] at hparse
  obtain ⟨⟨⟨name, position⟩, afterName, h1⟩, hname, hparse⟩ := bind_eq_ok.mp hparse
  obtain ⟨⟨argument, afterHead, h2⟩, hargument, hparse⟩ := bind_eq_ok.mp hparse
  obtain ⟨root, hroot, hparse⟩ := bind_eq_ok.mp hparse
  obtain ⟨trees, hdefine, hresult⟩ := bind_eq_ok.mp hparse
  have hname := namesTemplate_iff.mp hname
  have hargument := derives_of_pipeline afterName hargument
  obtain ⟨_, _, hpasses, -⟩ := hargument.hasForm
  cases hresult
  exact readsAlone_of_nestedBody (hpasses.suffix.trans hname.suffix)
    (hname.sameDepths.trans hargument.sameDepths).depth_eq hroot hdefine

end Bodies

/-- The body of a template is read alike whatever is visible around it and however many loops are
around it: the same is read, or the same fault found, and both are as before behind it. -/
theorem Call.run_nestedBody (setting : Setting) (clause : Clause) (s : State)
    (visible : List String) (loops : Nat) :
    (Call.nestedBody clause).run setting { s with visible := visible, loopDepth := loops } =
      (fun found ↦ (found.1, { found.2 with visible := visible, loopDepth := loops })) <$>
        (Call.nestedBody clause).run setting s := by
  rw [Call.run_eq, Call.run_eq, Call.script, Call.script, Script.nestedBody, Script.nestedBody,
    Steps.eval_bind, Steps.eval_bind, map_bind]
  refine bind_congr fun found ↦ ?_
  obtain ⟨⟨inner, ending⟩, after⟩ := found
  cases ending <;> rfl

/-! ### The parser -/

/-- That the scope is as before. -/
structure State.SameScope (s after : State) : Prop extends s.SameDepths after where
  visible_eq : after.visible = s.visible

/-- What the parser makes of the scope of a state. -/
structure RestoresScope (setting : Setting) (s : State) : Prop where
  /-- Behind a control structure the scope is the one from behind its keyword, which is true too of
  one that goes on behind an else. -/
  control : ∀ {kind : BranchKind} {reading : Reading Node s},
    control setting kind s = .ok reading → s.SameScope reading.state
  /-- It is the one from before the keyword too. -/
  branch : ∀ {kind : BranchKind} {reading : Reading Statement s},
    s.skipSpaces.peek.kind = .keyword (branchWord kind) → action setting s = .ok reading →
    s.SameScope reading.state
  /-- Behind a definition the scope is the one from before it. -/
  definition : ∀ {opening : Reading Unit s} {reading : Reading Unit opening.state},
    definitionStart? s = some opening → definition setting opening.state = .ok reading →
    s.SameScope reading.state
  /-- An action leaves the depths as they are, and puts the names that its pipelines declare in
  front of those that are visible, the last one first; but a control structure puts none there. -/
  action : ∀ {reading : Reading Statement s}, action setting s = .ok reading →
    s.SameDepths reading.state ∧
      reading.state.visible = reading.value.exports.reverse ++ s.visible
  /-- The body of a definition is read with the dollar sign alone visible, in no loop. -/
  definitionBody : ∀ {reading : Reading Unit s}, Parse.definition setting s = .ok reading →
    ∃ start tree, ReadsAlone setting s start tree reading.state.trees
  /-- So is the body of a block. -/
  blockBody : ∀ {reading : Reading Node s}, blockControl setting s = .ok reading →
    ∃ start tree, ReadsAlone setting s start tree reading.state.trees
  /-- What is visible around the body of a definition or a block makes no difference to it, nor do
  the loops around it. -/
  alone : ∀ (clause : Clause) (visible : List String) (loops : Nat),
    (Call.nestedBody clause).run setting { s with visible := visible, loopDepth := loops } =
      (fun found ↦ (found.1, { found.2 with visible := visible, loopDepth := loops })) <$>
        (Call.nestedBody clause).run setting s

/-- From every state, on every row of items, the parser puts the scope back as it was, but for the
names that an action declares for what follows it; and it reads a template that is defined in
another one with a scope of its own. -/
theorem restoresScope (setting : Setting) (s : State) : RestoresScope setting s where
  control hparse :=
    have hcontrol := derives_of_control s hparse
    ⟨hcontrol.sameDepths, hcontrol.visible_control⟩
  branch hpeek hparse := by
    have haction := derives_of_action s hparse
    have hbehind := haction.visible_action
    rw [haction.exports_eq_nil hpeek] at hbehind
    exact ⟨haction.sameDepths, hbehind⟩
  definition hstart hparse :=
    have hopens := definitionStart?_eq_some_iff.mp hstart
    have hdefines := defines_of_definition hparse
    ⟨hopens.sameDepths hdefines,
      hdefines.visible_eq.trans (hopens.word.visible_eq.trans s.visible_advance)⟩
  action hparse :=
    have haction := derives_of_action s hparse
    ⟨haction.sameDepths, haction.visible_action⟩
  definitionBody := readsAlone_of_definition
  blockBody := readsAlone_of_blockControl
  alone clause := Call.run_nestedBody setting clause s

/-- A setting without functions. -/
def bareSetting : Setting := ⟨"page", fun _ ↦ false⟩

/-- The state at the start of a source. -/
def State.atStart (source : String) : State := State.initial (lex Delimiters.brackets source)

theorem exists_of_map_eq_ok {ε α β : Type} {result : Except ε α} {f : α → β} {value : β}
    (hmap : result.map f = .ok value) : ∃ found, result = .ok found ∧ f found = value := by
  cases result with
  | error => cases hmap
  | ok found => exact ⟨found, rfl, Except.ok.inj hmap⟩

/-- A variable is declared by an action, but not behind a conditional that declares it inside. A
definition and a block that declare it in their bodies begin with the dollar sign alone, and the
body of the definition would if other names were visible around it and it stood in two loops. -/
theorem restoresScope_declaring :
    (∃ reading, action bareSetting (State.atStart "[$x := .]").advance = .ok reading ∧
      reading.state.visible = ["$x", "$"]) ∧
    (∃ reading, action bareSetting (State.atStart "[if .][$x := .][end]").advance = .ok reading ∧
      reading.state.visible = ["$"]) ∧
    (∃ reading, control bareSetting .conditional
        (State.atStart "[if .][$x := .][end]").advance.advance = .ok reading ∧
      reading.state.visible = ["$"]) ∧
    (∃ opening reading, definitionStart? (State.atStart "[define \"d\"][$x := .][end]") =
        some opening ∧ definition bareSetting opening.state = .ok reading ∧
      reading.state.visible = ["$"] ∧
      ∃ start tree, ReadsAlone bareSetting opening.state start tree reading.state.trees) ∧
    (∃ reading, blockControl bareSetting
        (State.atStart "[block \"d\" .][$x := .][end]").advance.advance = .ok reading ∧
      ∃ start tree, ReadsAlone bareSetting
        (State.atStart "[block \"d\" .][$x := .][end]").advance.advance start tree
        reading.state.trees) ∧
    ∃ found, (Call.nestedBody .definition).run bareSetting (State.atStart "[$x := .][end]") =
        .ok found ∧
      (Call.nestedBody .definition).run bareSetting
          { State.atStart "[$x := .][end]" with visible := ["$y", "$"], loopDepth := 2 } =
        .ok (found.1, { found.2 with visible := ["$y", "$"], loopDepth := 2 }) := by
  refine ⟨?_, ?_, ?_, ?_, ?_, ?_⟩
  · obtain ⟨reading, hreading, hexports⟩ := exists_of_map_eq_ok
      (by cbv : (action bareSetting (State.atStart "[$x := .]").advance).map
        (·.value.exports) = .ok ["$x"])
    refine ⟨reading, hreading, ?_⟩
    rw [((restoresScope bareSetting _).action hreading).2, hexports]
    cbv
  · obtain ⟨reading, hreading, -⟩ := exists_of_map_eq_ok
      (by cbv : (action bareSetting (State.atStart "[if .][$x := .][end]").advance).map
        (fun _ ↦ ()) = .ok ())
    have hkeyword : (State.atStart "[if .][$x := .][end]").advance.skipSpaces.peek.kind =
        .keyword (branchWord .conditional) := by
      cbv
    have hscope := (restoresScope bareSetting _).branch hkeyword hreading
    exact ⟨reading, hreading, hscope.visible_eq.trans (by cbv)⟩
  · obtain ⟨reading, hreading, -⟩ := exists_of_map_eq_ok
      (by cbv : (control bareSetting .conditional
        (State.atStart "[if .][$x := .][end]").advance.advance).map (fun _ ↦ ()) = .ok ())
    have hscope := (restoresScope bareSetting _).control hreading
    exact ⟨reading, hreading, hscope.visible_eq.trans (by cbv)⟩
  · obtain ⟨opening, hopening, hbody⟩ := Option.map_eq_some_iff.mp
      (by cbv : (definitionStart? (State.atStart "[define \"d\"][$x := .][end]")).map
        (fun opening ↦ (definition bareSetting opening.state).map fun _ ↦ ()) = some (.ok ()))
    obtain ⟨reading, hreading, -⟩ := exists_of_map_eq_ok hbody
    have hscope := (restoresScope bareSetting _).definition hopening hreading
    exact ⟨opening, reading, hopening, hreading, hscope.visible_eq.trans (by cbv),
      (restoresScope bareSetting _).definitionBody hreading⟩
  · obtain ⟨reading, hreading, -⟩ := exists_of_map_eq_ok
      (by cbv : (blockControl bareSetting
        (State.atStart "[block \"d\" .][$x := .][end]").advance.advance).map (fun _ ↦ ()) = .ok ())
    exact ⟨reading, hreading, (restoresScope bareSetting _).blockBody hreading⟩
  · obtain ⟨found, hfound, -⟩ := exists_of_map_eq_ok
      (by cbv : ((Call.nestedBody .definition).run bareSetting
        (State.atStart "[$x := .][end]")).map (fun _ ↦ ()) = .ok ())
    refine ⟨found, hfound, ?_⟩
    rw [(restoresScope bareSetting _).alone, hfound]
    rfl

end Parse

end Stencil.Syntax
