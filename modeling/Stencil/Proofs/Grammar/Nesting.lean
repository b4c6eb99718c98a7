import Mathlib
import Stencil.Proofs.Grammar.Context
import Stencil.Proofs.Grammar.Trees

/-!
# How deep a source goes

The parser counts the bodies and the parentheses that it is inside of, and goes no deeper than
`maxDepth`. What it counts can be told from the tree (`Body.levels`): a level for each body of a
control structure, for each else part and for each pipeline in parentheses, except for an else part
that goes on with a control structure of the same kind under the same end, which the parser reads
without entering a body. A tree of a source has no more levels than the parser admits
(`levels_le_maxDepth`).

The count of the parser and the levels below it make up no more than `maxDepth` at every part of a
source. This is what the induction on derivations carries.
-/

set_option autoImplicit false
set_option relaxedAutoImplicit false

namespace Stencil.Syntax

/-! ### Levels -/

/-- Whether an else part goes on with a control structure of a kind: it is nothing but one of the
same kind, and no loop. -/
def Body.continues (kind : BranchKind) : Body → Bool
  | ⟨_, [.branch inner _ _ _ _]⟩ => inner = kind && kind ≠ .loop
  | _ => false

mutual

/-- How many levels the parser goes down for a node. -/
def Node.levels : Node → Nat
  | .action _ inner => inner.levels
  | .pipeline inner => inner.levels + 1
  | .command inner => inner.levels
  | .chain _ base _ => base.levels
  | .branch kind _ head body otherwise =>
    max head.levels (max (body.levels + 1)
      (match otherwise with
      | none => 0
      | some other => if other.continues kind then other.levels else other.levels + 1))
  | .template _ _ argument =>
    match argument with
    | none => 0
    | some inner => inner.levels
  | _ => 0

/-- How many levels the parser goes down for a pipeline. -/
def Pipeline.levels : Pipeline → Nat
  | ⟨_, _, _, commands⟩ => Command.allLevels commands

/-- How many levels the parser goes down for commands. -/
def Command.allLevels : List Command → Nat
  | [] => 0
  | command :: rest => max command.levels (Command.allLevels rest)

/-- How many levels the parser goes down for a command. -/
def Command.levels : Command → Nat
  | ⟨_, operands⟩ => Node.allLevels operands

/-- How many levels the parser goes down for nodes in a row. -/
def Node.allLevels : List Node → Nat
  | [] => 0
  | node :: rest => max node.levels (Node.allLevels rest)

/-- How many levels the parser goes down for a body, once it is inside the body. -/
def Body.levels : Body → Nat
  | ⟨_, nodes⟩ => Node.allLevels nodes

end

namespace Parse

variable {setting : Setting} {s after : State}

/-! ### Pipelines -/

/-- How many levels the parser goes down for a part of a pipeline. -/
def Phrase.levels : Phrase → Nat
  | .pipeline _ _ found => found.levels
  | .commands _ found => Command.allLevels found
  | .command found => found.levels
  | .operands found => Node.allLevels found
  | .operand found => found.levels

/-- A term by itself has no levels. -/
theorem IsTerm.levels_eq {visible : List String} {item : Item} {base : Node}
    (hterm : IsTerm setting visible item base) : base.levels = 0 := by
  cases hterm <;> rfl

/-- Fields have no levels. -/
theorem Chained.levels_eq {base found : Node} (hchained : Chained base s found after) :
    found.levels = base.levels := by
  cases hchained with
  | alone => rfl
  | fields =>
    unfold takeFields
    split <;> rfl

/-- The parser has room for the levels of a part of a pipeline that it reads. -/
theorem DerivesPhrase.levels_le {phrase : Phrase} (hderives : DerivesPhrase setting phrase s after)
    (hroom : s.depth ≤ maxDepth) : s.depth + phrase.levels ≤ maxDepth := by
  induction hderives with
  | pipeline hdeclares _ _ _ ih =>
    have hdepth := hdeclares.sameDepths.depth_eq
    rw [hdepth] at ih
    exact ih hroom
  | commandsEnd | operandsEnd => exact hroom
  | @commandsMore _ s _ _ _ _ first others _ _ _ hfirst _ ihFirst ihOthers =>
    have hdepth := hfirst.sameDepths.depth_eq
    have hbelow : s.depth + first.levels ≤ maxDepth := ihFirst hroom
    have hbehind : s.depth + Command.allLevels others ≤ maxDepth :=
      hdepth ▸ ihOthers (hdepth.symm ▸ hroom)
    change s.depth + max first.levels (Command.allLevels others) ≤ maxDepth
    omega
  | command _ _ ih => exact ih hroom
  | @operandsMore s afterFirst _ first others hfirst _ _ ihFirst ihOthers =>
    have hdepth := (hfirst.sameDepths.trans afterFirst.sameDepths_advance).depth_eq
    have hbelow : s.skipSpaces.depth + first.levels ≤ maxDepth := ihFirst hroom
    have hbehind : s.skipSpaces.depth + Node.allLevels others ≤ maxDepth :=
      hdepth ▸ ihOthers (hdepth.symm ▸ hroom)
    change s.skipSpaces.depth + max first.levels (Node.allLevels others) ≤ maxDepth
    omega
  | @operandsLast s _ _ first _ _ _ ih =>
    change s.depth + max first.levels 0 ≤ maxDepth
    rw [Nat.max_zero]
    exact ih hroom
  | @parenthesized s afterItem _ _ _ inner found hread _ hdepth _ hchained ih =>
    have hbelow : afterItem.depth + 1 + inner.levels ≤ maxDepth := ih hdepth
    have hlevels : found.levels = inner.levels + 1 := hchained.levels_eq
    change s.depth + found.levels ≤ maxDepth
    rw [hread.sameDepths.depth_eq] at hbelow
    omega
  | @term s _ _ _ base found _ hterm hchained =>
    have hlevels : found.levels = 0 := hchained.levels_eq.trans hterm.levels_eq
    change s.depth + found.levels ≤ maxDepth
    rw [hlevels]
    exact hroom

/-! ### Bodies -/

/-- How many levels the parser goes down for a statement. -/
def Statement.levels : Statement → Nat
  | .node found => found.levels
  | .ending _ => 0

/-- How many levels the parser goes down for a part of a body. -/
def Passage.levels : Passage → Nat
  | .body found _ | .branchBody _ found _ | .nestedBody found => found.levels + 1
  | .statements found _ => Node.allLevels found
  | .statement found | .action found => found.levels
  | .control _ found | .block found => found.levels

/-- What is read behind the keyword of a control structure is one of its kind. -/
theorem DerivesPassage.exists_branch {kind : BranchKind} {found : Node}
    (hderives : DerivesPassage setting (.control kind found) s after) :
    ∃ position head body otherwise, found = .branch kind position head body otherwise := by
  cases hderives <;> exact ⟨_, _, _, _, rfl⟩

/-- An else part that goes on with a control structure has only the levels of that. -/
theorem DerivesPassage.levels_continued {kind : BranchKind} {word : Keyword} {inner : Node}
    (hinner : DerivesPassage setting (.control kind inner) s after)
    (hword : continuing? kind = some word) (position start : Position) (head : Pipeline)
    (first : Body) :
    (Node.branch kind start head first (some ⟨position, [inner]⟩)).levels =
      max head.levels (max (first.levels + 1) inner.levels) := by
  have hloop : kind ≠ .loop := by
    rintro rfl
    cases hword
  have hcontinues : Body.continues kind ⟨position, [inner]⟩ = true := by
    obtain ⟨_, _, _, _, rfl⟩ := hinner.exists_branch
    simp [Body.continues, hloop]
  have hlevels : Body.levels ⟨position, [inner]⟩ = inner.levels := by
    simp [Body.levels, Node.allLevels]
  rw [Node.levels, if_pos hcontinues, hlevels]

/-- An else part has a level of its own at most. -/
theorem levels_otherwise_le (kind : BranchKind) (start : Position) (head : Pipeline)
    (first second : Body) :
    (Node.branch kind start head first (some second)).levels ≤
      max head.levels (max (first.levels + 1) (second.levels + 1)) := by
  simp only [Node.levels]
  split <;> omega

/-- The parser has room for the levels of a part of a body that it reads. -/
theorem DerivesPassage.levels_le {passage : Passage}
    (hderives : DerivesPassage setting passage s after) (hroom : s.depth ≤ maxDepth) :
    s.depth + passage.levels ≤ maxDepth := by
  induction hderives with
  | @body s _ found _ hdepth _ ih =>
    have hbelow : s.depth + 1 + Node.allLevels found ≤ maxDepth := ih hdepth
    change s.depth + (Node.allLevels found + 1) ≤ maxDepth
    omega
  | statementsEnd | text | comment | breakAction | continueAction | elseWord | elseAction
  | endAction | templateBare => exact hroom
  | @statementsMore s _ _ first others _ _ hfirst _ ihFirst ihOthers =>
    have hdepth := hfirst.sameDepths.depth_eq
    have hbelow : s.depth + first.levels ≤ maxDepth := ihFirst hroom
    have hbehind : s.depth + Node.allLevels others ≤ maxDepth :=
      hdepth ▸ ihOthers (hdepth.symm ▸ hroom)
    change s.depth + max first.levels (Node.allLevels others) ≤ maxDepth
    omega
  | delimited hread _ _ ih =>
    have hdepth := hread.sameDepths.depth_eq
    exact hdepth ▸ ih (hdepth.symm ▸ hroom)
  | blockAction hread _ _ ih | branchAction hread _ _ ih =>
    have hdepth := hread.sameDepths.depth_eq
    exact hdepth ▸ ih (hdepth.symm ▸ hroom)
  | templateWith hread _ hname _ _ hargument =>
    have hdepth := (hread.sameDepths.trans hname.sameDepths).depth_eq
    exact hdepth ▸ hargument.levels_le (hdepth.symm ▸ hroom)
  | pipelineAction _ _ hfound => exact hfound.levels_le hroom
  | branchBody _ ih | nestedBody _ ih => exact ih hroom
  | @controlOnly kind s _ _ head first hhead _ ih =>
    have hbelow : s.depth + head.levels ≤ maxDepth := hhead.levels_le hroom
    have hdepth := hhead.sameDepths.depth_eq
    have hfirst : s.depth + (first.levels + 1) ≤ maxDepth := hdepth ▸ ih (hdepth.symm ▸ hroom)
    change s.depth + max head.levels (max (first.levels + 1) 0) ≤ maxDepth
    omega
  | @controlContinued kind s afterHead afterFirst _ head first position _ inner hhead hfirst hword
      _ hinner ihFirst ihInner =>
    have hbelow : s.depth + head.levels ≤ maxDepth := hhead.levels_le hroom
    have hdepth := hhead.sameDepths.depth_eq
    have hbehind := ((hhead.sameDepths.trans hfirst.sameDepths).trans
      afterFirst.sameDepths_advance).depth_eq
    have hbody : s.depth + (first.levels + 1) ≤ maxDepth := hdepth ▸ ihFirst (hdepth.symm ▸ hroom)
    have hrest : s.depth + inner.levels ≤ maxDepth := hbehind ▸ ihInner (hbehind.symm ▸ hroom)
    have hlevels := hinner.levels_continued hword position head.position head first
    change s.depth + Node.levels _ ≤ maxDepth
    rw [hlevels]
    omega
  | @controlOtherwise kind s _ _ _ head first second _ hhead hfirst _ _ ihFirst ihSecond =>
    have hbelow : s.depth + head.levels ≤ maxDepth := hhead.levels_le hroom
    have hdepth := hhead.sameDepths.depth_eq
    have hbehind := (hhead.sameDepths.trans hfirst.sameDepths).depth_eq
    have hbody : s.depth + (first.levels + 1) ≤ maxDepth := hdepth ▸ ihFirst (hdepth.symm ▸ hroom)
    have hrest : s.depth + (second.levels + 1) ≤ maxDepth :=
      hbehind ▸ ihSecond (hbehind.symm ▸ hroom)
    have hlevels := levels_otherwise_le kind head.position head first second
    change s.depth + Node.levels _ ≤ maxDepth
    omega
  | block hname hargument _ _ =>
    have hdepth := hname.sameDepths.depth_eq
    exact hdepth ▸ hargument.levels_le (hdepth.symm ▸ hroom)

/-- The parser has room for the levels of the statements of a source. -/
theorem DerivesRoot.levels_le {found : List Node} (hderives : DerivesRoot setting found s after)
    (hstart : s.depth = 0) : Node.allLevels found ≤ maxDepth := by
  induction hderives with
  | finished => exact Nat.zero_le maxDepth
  | definition hopens hdefines _ ih =>
    exact ih ((hopens.sameDepths hdefines).depth_eq.trans hstart)
  | statement _ _ hfirst _ ih =>
    have hbelow := hfirst.levels_le (hstart ▸ Nat.zero_le maxDepth)
    rw [hstart, Nat.zero_add] at hbelow
    exact Nat.max_le.mpr ⟨hbelow, ih (hfirst.sameDepths.depth_eq.trans hstart)⟩

/-- The parser has room for the levels of what it reads as a tree. -/
theorem DerivesTree.levels_le {root : Body} (hderives : DerivesTree setting root) :
    root.levels ≤ maxDepth := by
  cases hderives with
  | source hfound => exact hfound.levels_le rfl
  | @nested s _ _ hfound =>
    cases hfound with
    | nestedBody hbody =>
      cases hbody with
      | @body _ _ found _ hdepth hfound =>
        have hbelow : s.depth + (Node.allLevels found + 1) ≤ maxDepth :=
          (DerivesPassage.body hdepth hfound).levels_le (Nat.le_of_lt hdepth)
        change Node.allLevels found ≤ maxDepth
        omega

end Parse

/-- No tree of a source has more levels than the parser admits. -/
theorem levels_le_maxDepth {name source : String} {delimiters : Delimiters}
    {isFunction : String → Bool} {set : TreeSet}
    (hparse : parse name delimiters isFunction source = .ok set) {tree : Tree}
    (htree : tree ∈ set.trees) : tree.root.levels ≤ Parse.maxDepth :=
  (derivesTree_of_parse hparse htree).levels_le

/-- The tree of a source with a condition that goes on with another one. -/
def furtherTree : Tree :=
  ⟨"page", "page", ⟨⟨0, 1⟩, [.branch .conditional ⟨4, 1⟩
    ⟨⟨4, 1⟩, false, [], [⟨⟨4, 1⟩, [.dot ⟨4, 1⟩]⟩]⟩ ⟨⟨6, 1⟩, []⟩
    (some ⟨⟨12, 1⟩, [.branch .conditional ⟨15, 1⟩
      ⟨⟨15, 1⟩, false, [], [⟨⟨15, 1⟩, [.dot ⟨15, 1⟩]⟩]⟩ ⟨⟨17, 1⟩, []⟩ none]⟩)]⟩⟩

/-- The source is accepted. The further condition is on the level of the first one. -/
theorem levels_furtherTree :
    parse "page" Delimiters.brackets (fun _ ↦ false) "[if .][else if .][end]" =
        .ok ⟨[furtherTree]⟩ ∧
      furtherTree.root.levels = 1 ∧ furtherTree.root.levels ≤ Parse.maxDepth := by
  have hparse : parse "page" Delimiters.brackets (fun _ ↦ false) "[if .][else if .][end]" =
      .ok ⟨[furtherTree]⟩ := by
    cbv
  exact ⟨hparse, by decide, levels_le_maxDepth hparse (List.mem_singleton_self furtherTree)⟩

end Stencil.Syntax
