import Stencil.Proofs.Grammar.Formed
import Stencil.Proofs.Variables.Mention

/-!
# What the parser sees of variables

The names that a `Sight` calls visible are those that the parser sees: it reads a part of a source
from a state with the visible names of a sight to one with those of the sight behind the part
(`Seen`). So whatever a tree of a source mentions, the parser saw there (`isVisible_of_parse`).
-/

set_option autoImplicit false
set_option relaxedAutoImplicit false

namespace Stencil.Syntax

/-! ### Nodes with fields -/

/-- That the parser sees the variable that is mentioned. -/
def Mention.IsVisible (mention : Mention) : Prop :=
  ∃ name ∈ mention.sight.visible, mention.reference.name? = some name

section Fields

variable (functions : FunctionTable)

theorem Node.sightAfter_takeFields (base : Node) (position : Position) (names : List String)
    (sight : Sight) :
    (Parse.takeFields base position names).sightAfter functions sight =
      base.sightAfter functions sight := by
  unfold Parse.takeFields
  split <;> rfl

/-- A variable is seen by its name, so one that is seen is seen with fields taken of it. -/
theorem Node.isVisible_takeFields {base : Node} {sight : Sight}
    (hbase : ∀ mention ∈ base.mentions functions sight, mention.IsVisible) (position : Position)
    (names : List String) :
    ∀ mention ∈ (Parse.takeFields base position names).mentions functions sight,
      mention.IsVisible := by
  unfold Parse.takeFields
  split
  next reference =>
    obtain ⟨name, hvisible, hname⟩ := hbase ⟨reference, sight⟩ List.mem_cons_self
    have hhead : reference.path.head? = some name := hname
    refine List.forall_mem_singleton.mpr ⟨name, hvisible, ?_⟩
    simp [Variable.name?, hhead]
  next => exact hbase

/-- Behind a command the names of all its operands are visible. -/
theorem Command.visible_sightAfter (sight : Sight) (position : Position) (operands : List Node) :
    (Command.sightAfter functions sight ⟨position, operands⟩).visible =
      (Node.sightAfterAll functions sight operands).visible := by
  cases operands with
  | nil => rfl
  | cons first rest =>
    rw [Command.sightAfter, Node.sightAfterAll]
    split <;> rfl

theorem Sight.visible_bind (sight : Sight) (isAssign : Bool) (targets : List Variable) :
    (sight.bind isAssign targets).visible = sight.visible := by
  cases isAssign <;> rfl

end Fields

namespace Parse

/-! ### Parts of a source -/

/-- That a part of a source is read from where the names of a sight are visible to where those of
the sight behind it are, and that it mentions visible names only. -/
def Seen (s after : State) (sightAfter : Sight → Sight) (mentions : Sight → List Mention) : Prop :=
  ∀ sight : Sight, sight.visible = s.visible →
    (sightAfter sight).visible = after.visible ∧
      ∀ mention ∈ mentions sight, mention.IsVisible

section Seen

variable {s middle after : State} {sightAfter next : Sight → Sight}
  {mentions others : Sight → List Mention}

theorem Seen.append (hfirst : Seen s middle sightAfter mentions)
    (hsecond : Seen middle after next others) :
    Seen s after (fun sight ↦ next (sightAfter sight))
      (fun sight ↦ mentions sight ++ others (sightAfter sight)) := by
  intro sight hsight
  obtain ⟨hmiddle, hmentions⟩ := hfirst sight hsight
  obtain ⟨hafter, hothers⟩ := hsecond (sightAfter sight) hmiddle
  refine ⟨hafter, fun mention hmention ↦ ?_⟩
  rcases List.mem_append.mp hmention with hmem | hmem
  · exact hmentions mention hmem
  · exact hothers mention hmem

/-- What mentions nothing and leaves the names as they were is seen. -/
theorem seen_of_visible_eq (hvisible : after.visible = s.visible) :
    Seen s after id fun _ ↦ [] :=
  fun _ hsight ↦ ⟨hsight.trans hvisible.symm, fun _ hnone ↦ absurd hnone List.not_mem_nil⟩

/-- What is seen from a state is seen from every state with the same names visible. -/
theorem Seen.of_visible_eq (hseen : Seen middle after sightAfter mentions)
    (hvisible : middle.visible = s.visible) : Seen s after sightAfter mentions :=
  fun sight hsight ↦ hseen sight (hsight.trans hvisible.symm)

/-- What is seen up to a state is seen up to every state with the same names visible. -/
theorem Seen.to_visible_eq (hseen : Seen s middle sightAfter mentions)
    (hvisible : after.visible = middle.visible) : Seen s after sightAfter mentions :=
  fun sight hsight ↦ ⟨(hseen sight hsight).1.trans hvisible.symm, (hseen sight hsight).2⟩

end Seen

/-! ### Pipelines -/

section Phrases

variable (functions : FunctionTable)

/-- What is seen behind a part of a pipeline. -/
def Phrase.sightAfter (sight : Sight) : Phrase → Sight
  | .pipeline _ _ found => found.sightAfter functions sight
  | .commands _ found => Command.sightAfterAll functions sight found
  | .command found => found.sightAfter functions sight
  | .operands found => Node.sightAfterAll functions sight found
  | .operand found => found.sightAfter functions sight

/-- The mentions in a part of a pipeline. -/
def Phrase.mentions (sight : Sight) : Phrase → List Mention
  | .pipeline _ _ found => found.mentions functions sight
  | .commands _ found => Command.allMentions functions sight found
  | .command found => found.mentions functions sight
  | .operands found => Node.allMentions functions sight found
  | .operand found => found.mentions functions sight

end Phrases

section Parts

variable {setting : Setting} {s after : State} (functions : FunctionTable)

/-- A term mentions the variable that it is, if it is one. -/
theorem IsTerm.seen {item : Item} {base : Node} (hterm : IsTerm setting s.visible item base) :
    Seen s s (base.sightAfter functions ·) (base.mentions functions ·) := by
  intro sight hsight
  cases hterm with
  | variableName _ hvisible =>
    exact ⟨hsight, List.forall_mem_singleton.mpr ⟨_, hsight ▸ hvisible, rfl⟩⟩
  | _ => exact seen_of_visible_eq rfl sight hsight

/-- Fields taken of something are seen as it is. -/
theorem Chained.seen {base found : Node} (hchained : Chained base s found after) {start : State}
    (hseen : Seen start s (base.sightAfter functions ·) (base.mentions functions ·)) :
    Seen start after (found.sightAfter functions ·) (found.mentions functions ·) := by
  cases hchained with
  | alone => exact hseen
  | fields =>
    intro sight hsight
    obtain ⟨hafter, hmentions⟩ := hseen sight hsight
    refine ⟨?_, Node.isVisible_takeFields functions hmentions _ _⟩
    exact (congrArg Sight.visible (Node.sightAfter_takeFields functions _ _ _ _)).trans hafter

/-- The variables that a pipeline assigns are visible in it. -/
theorem isVisible_of_mem_assigned {isAssign : Bool} {targets : List Variable}
    (hnamed : ∀ target ∈ targets, target.IsNamed) {sight behind : Sight}
    (hbehind : (sight.write targets).visible <:+ behind.visible) {mention : Mention}
    (hmention : mention ∈ assigned isAssign targets behind) : mention.IsVisible := by
  unfold assigned at hmention
  split at hmention
  next =>
    obtain ⟨target, htarget, rfl⟩ := List.mem_map.mp hmention
    obtain ⟨name, hname⟩ := Option.ne_none_iff_exists'.mp (hnamed target htarget)
    refine ⟨name, hbehind.subset ?_, hname⟩
    change name ∈ declareAll sight.visible targets
    rw [declareAll_eq]
    have hdeclared := List.mem_filterMap.mpr ⟨target, htarget, hname⟩
    exact List.mem_append_left _ (List.mem_reverse.mpr hdeclared)
  next => exact absurd hmention List.not_mem_nil

/-- A part of a pipeline is seen. -/
theorem DerivesPhrase.seen {phrase : Phrase} (hderives : DerivesPhrase setting phrase s after) :
    Seen s after (phrase.sightAfter functions ·) (phrase.mentions functions ·) := by
  induction hderives with
  | @pipeline _ _ _ _ _ declared found hdeclares hcommands _ _ ih =>
    intro sight hsight
    have hwrite := hdeclares.visible_eq
    rw [← hsight] at hwrite
    obtain ⟨hafter, hmentions⟩ := ih (sight.write declared.targets) hwrite.symm
    refine ⟨(Sight.visible_bind _ _ _).trans hafter, fun mention hmention ↦ ?_⟩
    rcases List.mem_append.mp hmention with hmem | hmem
    · exact hmentions mention hmem
    · have hbehind : (sight.write declared.targets).visible <:+
          (Command.sightAfterAll functions (sight.write declared.targets) found).visible := by
        have hsuffix := hcommands.visible_suffix
        rw [hwrite, ← hafter] at hsuffix
        exact hsuffix
      exact isVisible_of_mem_assigned hdeclares.isNamed hbehind hmem
  | commandsEnd hread => exact seen_of_visible_eq hread.visible_eq
  | commandsMore _ _ _ _ _ ihFirst ihOthers => exact ihFirst.append ihOthers
  | command _ _ ih =>
    intro sight hsight
    exact ⟨(Command.visible_sightAfter functions sight _ _).trans (ih sight hsight).1,
      (ih sight hsight).2⟩
  | operandsEnd _ hend => exact seen_of_visible_eq hend.visible_eq
  | @operandsMore _ afterFirst _ _ _ _ _ _ ihFirst ihOthers =>
    exact ihFirst.append (ihOthers.of_visible_eq afterFirst.visible_advance)
  | operandsLast _ _ hend ih =>
    exact (ih.to_visible_eq hend.visible_eq).append (seen_of_visible_eq rfl)
  | parenthesized hread _ _ _ hchained ih =>
    exact hchained.seen functions (ih.of_visible_eq hread.visible_eq)
  | term hread hterm hchained =>
    have hseen := (hterm.seen functions).to_visible_eq hread.visible_eq
    exact hchained.seen functions hseen

end Parts

/-! ### Bodies -/

section Passages

variable (functions : FunctionTable)

/-- What is seen behind a statement, and the end of a body is none. -/
def Statement.sightAfter (sight : Sight) : Statement → Sight
  | .node found => found.sightAfter functions sight
  | .ending _ => sight

/-- The mentions in a statement. -/
def Statement.mentions (sight : Sight) : Statement → List Mention
  | .node found => found.mentions functions sight
  | .ending _ => []

/-- What is seen behind a part of a body. A template that is defined in it is seen by itself. -/
def Passage.sightAfter (sight : Sight) : Passage → Sight
  | .body found _ | .branchBody _ found _ => found.sightAfter functions sight
  | .statements found _ => Node.sightAfterAll functions sight found
  | .statement found | .action found => found.sightAfter functions sight
  | .nestedBody _ => sight
  | .control _ found | .block found => found.sightAfter functions sight

/-- The mentions in a part of a body. -/
def Passage.mentions (sight : Sight) : Passage → List Mention
  | .body found _ | .branchBody _ found _ => found.mentions functions sight
  | .statements found _ => Node.allMentions functions sight found
  | .statement found | .action found => found.mentions functions sight
  | .nestedBody found => found.mentions functions .start
  | .control _ found | .block found => found.mentions functions sight

end Passages

section Trees

variable {setting : Setting} {s after : State} (functions : FunctionTable)

/-- A control structure is seen if its parts are. -/
theorem Seen.branch {kind : BranchKind} {position : Position} {head : Pipeline} {body : Body}
    {otherwise : Option Body} {afterHead afterBody : State}
    (hvisible : after.visible = s.visible)
    (hhead : Seen s afterHead (head.sightAfter functions ·) (head.mentions functions ·))
    (hbody : Seen afterHead afterBody (body.sightAfter functions ·) (body.mentions functions ·))
    (hother : ∀ other ∈ otherwise, ∀ sight : Sight, sight.visible = afterBody.visible →
      ∀ mention ∈ other.mentions functions sight, mention.IsVisible) :
    Seen s after
      ((Passage.control kind (.branch kind position head body otherwise)).sightAfter functions ·)
      ((Passage.control kind (.branch kind position head body otherwise)).mentions functions ·)
    := by
  intro sight hsight
  obtain ⟨hinside, hheadMentions⟩ := hhead sight hsight
  obtain ⟨hbehind, hbodyMentions⟩ := hbody (head.sightAfter functions sight) hinside
  have hparts : ∀ mention ∈ head.mentions functions sight ++
      body.mentions functions (head.sightAfter functions sight), mention.IsVisible := by
    intro mention hmention
    rcases List.mem_append.mp hmention with hmem | hmem
    · exact hheadMentions mention hmem
    · exact hbodyMentions mention hmem
  refine ⟨hsight.trans hvisible.symm, fun mention hmention ↦ ?_⟩
  cases otherwise with
  | none =>
    rcases List.mem_append.mp hmention with hmem | hmem
    · exact hparts mention hmem
    · exact absurd hmem List.not_mem_nil
  | some other =>
    rcases List.mem_append.mp hmention with hmem | hmem
    · exact hparts mention hmem
    · exact hother other rfl ⟨_, (head.sightAfter functions sight).bound⟩ hbehind mention hmem

/-- A part of a body is seen. -/
theorem DerivesPassage.seen {passage : Passage}
    (hderives : DerivesPassage setting passage s after) :
    Seen s after (passage.sightAfter functions ·) (passage.mentions functions ·) := by
  induction hderives with
  | body _ _ ih => exact ih
  | statementsEnd _ _ ih => exact ih
  | statementsMore _ _ _ ihFirst ihOthers => exact ihFirst.append ihOthers
  | text hread | comment hread => exact seen_of_visible_eq hread.visible_eq
  | delimited hread _ _ ih | blockAction hread _ _ ih | branchAction hread _ _ ih =>
    exact ih.of_visible_eq hread.visible_eq
  | breakAction hread _ hclose | continueAction hread _ hclose | endAction hread _ hclose =>
    exact seen_of_visible_eq (hclose.visible_eq.trans hread.visible_eq)
  | elseWord hread => exact seen_of_visible_eq hread.visible_eq
  | elseAction hread _ hclose =>
    exact seen_of_visible_eq (hclose.visible_eq.trans hread.visible_eq)
  | templateBare hread _ hname hclose =>
    exact seen_of_visible_eq (hclose.visible_eq.trans (hname.visible_eq.trans hread.visible_eq))
  | templateWith hread _ hname _ _ hargument =>
    exact (hargument.seen functions).of_visible_eq (hname.visible_eq.trans hread.visible_eq)
  | pipelineAction _ _ hfound => exact hfound.seen functions
  | branchBody _ ih => exact ih
  | nestedBody _ ih =>
    exact fun sight hsight ↦ ⟨hsight, (ih .start rfl).2⟩
  | controlOnly hhead hfirst ih =>
    have hvisible := (DerivesPassage.controlOnly hhead hfirst).visible_control
    refine Seen.branch functions hvisible (hhead.seen functions) ih ?_
    rintro _ ⟨⟩
  | @controlContinued _ _ _ afterFirst _ _ _ _ _ inner hhead hfirst hword hpeek hinner ihFirst
      ihInner =>
    have hvisible :=
      (DerivesPassage.controlContinued hhead hfirst hword hpeek hinner).visible_control
    refine Seen.branch functions hvisible (hhead.seen functions) ihFirst ?_
    rintro _ ⟨⟩ sight hsight mention hmention
    rw [← afterFirst.visible_advance] at hsight
    have hmem : mention ∈ inner.mentions functions sight := by
      simpa [Body.mentions, Node.allMentions] using hmention
    exact (ihInner sight hsight).2 mention hmem
  | controlOtherwise hhead hfirst hother hsecond ihFirst ihSecond =>
    have hvisible :=
      (DerivesPassage.controlOtherwise hhead hfirst hother hsecond).visible_control
    refine Seen.branch functions hvisible (hhead.seen functions) ihFirst ?_
    rintro _ ⟨⟩ sight hsight
    exact (ihSecond sight hsight).2
  | block hname hargument _ _ ih =>
    have hseen := (hargument.seen functions).of_visible_eq hname.visible_eq
    intro sight hsight
    have hsame := (ih _ (hseen sight hsight).1).1
    exact (hseen.to_visible_eq (hsame.symm.trans (hseen sight hsight).1)) sight hsight

/-- The statements of a source are seen. -/
theorem DerivesRoot.seen {found : List Node} (hderives : DerivesRoot setting found s after) :
    Seen s after (Node.sightAfterAll functions · found) (Node.allMentions functions · found) := by
  induction hderives with
  | finished => exact seen_of_visible_eq rfl
  | @definition s afterWord _ _ _ hopens hdefines _ ih =>
    refine ih.of_visible_eq ?_
    have hword := hopens.word.visible_eq.trans s.visible_advance
    cases hdefines with
    | definition hname hclose hroot _ =>
      have hsame := (hroot.seen functions ⟨_, []⟩ rfl).1
      exact hsame.symm.trans ((hclose.visible_eq.trans hname.visible_eq).trans hword)
  | statement _ _ hfirst _ ih => exact (hfirst.seen functions).append ih

/-- What is read as a tree mentions only what the parser sees. -/
theorem DerivesTree.isVisible {root : Body} (hderives : DerivesTree setting root)
    {mention : Mention} (hmention : mention ∈ root.mentions functions .start) :
    mention.IsVisible := by
  cases hderives with
  | source hfound => exact (hfound.seen functions .start rfl).2 mention hmention
  | nested hfound => exact (hfound.seen functions ⟨_, []⟩ rfl).2 mention hmention

end Trees

end Parse

/-- Every variable that is mentioned in a tree of a source is one that the parser sees there. -/
theorem isVisible_of_parse {name source : String} {delimiters : Delimiters}
    {isFunction : String → Bool} {set : TreeSet}
    (hparse : parse name delimiters isFunction source = .ok set) {tree : Tree}
    (htree : tree ∈ set.trees) (functions : FunctionTable) {mention : Mention}
    (hmention : mention ∈ tree.root.mentions functions .start) :
    mention.IsVisible :=
  (derivesTree_of_parse hparse htree).isVisible functions hmention

end Stencil.Syntax
