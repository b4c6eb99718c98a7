import Stencil.Proofs.Grammar.Steps

/-!
# What surrounds a place of a source

A parse keeps beside its items the variables that are visible, the number of the loops around it and
its depth. A part of a source leaves the two numbers as they were (`DerivesPhrase.sameDepths`,
`DerivesPassage.sameDepths`), and it takes no variable away: the visible ones are behind it what
they were, with its own in front of them (`DerivesPhrase.visible_suffix`,
`DerivesPassage.visible_suffix`). At its end a control structure hides again what became visible
inside it (`DerivesPassage.visible_control`).
-/

set_option autoImplicit false
set_option relaxedAutoImplicit false

namespace Stencil.Syntax.Parse

variable {setting : Setting} {s middle after : State}

/-! ### Visible variables -/

theorem State.visible_suffix_of_eq (hvisible : after.visible = s.visible) :
    s.visible <:+ after.visible :=
  hvisible ▸ List.suffix_rfl

theorem State.visible_advance (s : State) : s.advance.visible = s.visible := by
  unfold State.advance
  split <;> rfl

theorem State.ReadsKind.visible_eq {kind : ItemKind} (hread : s.ReadsKind kind after) :
    after.visible = s.visible := by
  obtain ⟨_, hread, _⟩ := hread
  exact hread.visible_eq

theorem NamesTemplate.visible_eq {name : String} {position : Position}
    (hname : NamesTemplate s name position after) : after.visible = s.visible := by
  cases hname with
  | name hread => exact hread.visible_eq

theorem EndsCommand.visible_eq (hend : EndsCommand s after) : after.visible = s.visible := by
  cases hend with
  | closer => rfl
  | bar => exact s.visible_advance

theorem Chained.visible_eq {base found : Node} (hchained : Chained base s found after) :
    after.visible = s.visible := by
  cases hchained <;> rfl

/-- The variables that are visible behind a declaration. -/
def declareAll (visible : List String) (targets : List Variable) : List String :=
  targets.foldl (fun visible target ↦ target.name?.toList ++ visible) visible

/-- The name of the first variable is visible to those behind it. -/
theorem declareAll_cons {target : Variable} {name : String} (hname : target.name? = some name)
    (visible : List String) (rest : List Variable) :
    declareAll visible (target :: rest) = declareAll (name :: visible) rest := by
  rw [declareAll, List.foldl_cons, hname]
  rfl

/-- The variables of a declaration stand in front, the last one first. -/
theorem declareAll_eq (visible : List String) (targets : List Variable) :
    declareAll visible targets = (targets.filterMap Variable.name?).reverse ++ visible := by
  induction targets generalizing visible with
  | nil => rfl
  | cons target rest ih =>
    change declareAll (target.name?.toList ++ visible) rest = _
    rw [ih, List.filterMap_cons]
    cases target.name? with
    | none => rfl
    | some name => simp

/-- Behind a declaration its variables are visible. -/
theorem Declares.visible_eq {more : Nat} {declared : Declarations}
    (hdeclares : Declares more s declared after) :
    after.visible = declareAll s.visible declared.targets := by
  induction hdeclares with
  | none => rfl
  | last hname _ hsign =>
    change _ :: _ = _ :: _
    rw [hsign.visible_eq, hname.visible_eq]
    rfl
  | more hname _ hsign _ _ _ ih =>
    rw [ih]
    change declareAll (_ :: _) _ = declareAll (_ :: _) _
    rw [hsign.visible_eq, hname.visible_eq]
    rfl

theorem Declares.visible_suffix {more : Nat} {declared : Declarations}
    (hdeclares : Declares more s declared after) : s.visible <:+ after.visible := by
  rw [hdeclares.visible_eq, declareAll_eq]
  exact List.suffix_append _ _

/-- A part of a pipeline leaves visible what was visible before it. -/
theorem DerivesPhrase.visible_suffix {phrase : Phrase}
    (hderives : DerivesPhrase setting phrase s after) : s.visible <:+ after.visible := by
  induction hderives with
  | pipeline hdeclares _ _ _ ih => exact hdeclares.visible_suffix.trans ih
  | commandsEnd hread => exact State.visible_suffix_of_eq hread.visible_eq
  | commandsMore _ _ _ _ _ ihFirst ihOthers => exact ihFirst.trans ihOthers
  | command _ _ ih => exact ih
  | operandsEnd _ hend =>
    rw [hend.visible_eq]
    exact List.suffix_rfl
  | @operandsMore _ afterFirst _ _ _ _ _ _ ihFirst ihOthers =>
    rw [afterFirst.visible_advance] at ihOthers
    exact ihFirst.trans ihOthers
  | operandsLast _ _ hend ih =>
    rw [hend.visible_eq]
    exact ih
  | parenthesized hread _ _ _ hchained ih =>
    rw [hchained.visible_eq, ← hread.visible_eq]
    exact ih
  | term hread _ hchained =>
    exact State.visible_suffix_of_eq (hchained.visible_eq.trans hread.visible_eq)

/-- The oldest variables are kept, as many as were visible before. -/
theorem State.visible_keepVariables (hsuffix : s.visible <:+ after.visible) :
    (after.keepVariables s.visible.length).visible = s.visible := by
  obtain ⟨newer, hnewer⟩ := hsuffix
  change after.visible.drop (after.visible.length - s.visible.length) = s.visible
  rw [← hnewer, List.length_append, Nat.add_sub_cancel, List.drop_left]

/-- A part of a body leaves visible what was visible before it. -/
theorem DerivesPassage.visible_suffix {passage : Passage}
    (hderives : DerivesPassage setting passage s after) : s.visible <:+ after.visible := by
  induction hderives with
  | body _ _ ih => exact ih
  | statementsEnd _ _ ih => exact ih
  | statementsMore _ _ _ ihFirst ihOthers => exact ihFirst.trans ihOthers
  | text hread | comment hread => exact State.visible_suffix_of_eq hread.visible_eq
  | delimited hread _ _ ih | blockAction hread _ _ ih | branchAction hread _ _ ih =>
    rw [← hread.visible_eq]
    exact ih
  | breakAction hread _ hclose | continueAction hread _ hclose | endAction hread _ hclose =>
    exact State.visible_suffix_of_eq (hclose.visible_eq.trans hread.visible_eq)
  | elseWord hread => exact State.visible_suffix_of_eq hread.visible_eq
  | elseAction hread _ hclose =>
    exact State.visible_suffix_of_eq (hclose.visible_eq.trans hread.visible_eq)
  | templateBare hread _ hname hclose =>
    rw [← hread.visible_eq, ← hname.visible_eq]
    exact State.visible_suffix_of_eq hclose.visible_eq
  | templateWith hread _ hname _ _ hargument =>
    rw [← hread.visible_eq, ← hname.visible_eq]
    exact hargument.visible_suffix
  | pipelineAction _ _ hfound => exact hfound.visible_suffix
  | branchBody _ ih => exact ih
  | nestedBody => exact List.suffix_rfl
  | controlOnly hhead _ ih =>
    have hbehind := hhead.visible_suffix.trans ih
    exact State.visible_suffix_of_eq (State.visible_keepVariables hbehind)
  | @controlContinued _ _ _ afterFirst _ _ _ _ _ _ hhead _ _ _ _ ihFirst ihInner =>
    rw [afterFirst.visible_advance] at ihInner
    have hbehind := (hhead.visible_suffix.trans ihFirst).trans ihInner
    exact State.visible_suffix_of_eq (State.visible_keepVariables hbehind)
  | controlOtherwise hhead _ _ _ ihFirst ihSecond =>
    have hbehind := (hhead.visible_suffix.trans ihFirst).trans ihSecond
    exact State.visible_suffix_of_eq (State.visible_keepVariables hbehind)
  | block hname hargument _ _ ih =>
    rw [← hname.visible_eq]
    exact hargument.visible_suffix.trans ih

/-- Behind a control structure the same variables are visible as before it. -/
theorem DerivesPassage.visible_control {kind : BranchKind} {found : Node}
    (hderives : DerivesPassage setting (.control kind found) s after) :
    after.visible = s.visible := by
  cases hderives with
  | controlOnly hhead hfirst =>
    exact State.visible_keepVariables (hhead.visible_suffix.trans hfirst.visible_suffix)
  | @controlContinued _ _ _ afterFirst _ _ _ _ _ _ hhead hfirst _ _ hinner =>
    have hbehind := hinner.visible_suffix
    rw [afterFirst.visible_advance] at hbehind
    exact State.visible_keepVariables
      ((hhead.visible_suffix.trans hfirst.visible_suffix).trans hbehind)
  | controlOtherwise hhead hfirst _ hsecond =>
    exact State.visible_keepVariables
      ((hhead.visible_suffix.trans hfirst.visible_suffix).trans hsecond.visible_suffix)

/-! ### Loops and depths -/

/-- That a parse is inside as many loops, bodies and parentheses as before. -/
structure State.SameDepths (s after : State) : Prop where
  loopDepth_eq : after.loopDepth = s.loopDepth
  depth_eq : after.depth = s.depth

theorem State.SameDepths.refl (s : State) : s.SameDepths s := ⟨rfl, rfl⟩

theorem State.SameDepths.trans (hfirst : s.SameDepths middle) (hsecond : middle.SameDepths after) :
    s.SameDepths after :=
  ⟨hsecond.loopDepth_eq.trans hfirst.loopDepth_eq, hsecond.depth_eq.trans hfirst.depth_eq⟩

theorem State.Reads.sameDepths {item : Item} (hread : s.Reads item after) : s.SameDepths after := by
  rw [hread.state_eq]
  exact ⟨rfl, rfl⟩

theorem State.ReadsKind.sameDepths {kind : ItemKind} (hread : s.ReadsKind kind after) :
    s.SameDepths after := by
  obtain ⟨_, hread, _⟩ := hread
  exact hread.sameDepths

theorem NamesTemplate.sameDepths {name : String} {position : Position}
    (hname : NamesTemplate s name position after) : s.SameDepths after := by
  cases hname with
  | name hread => exact hread.sameDepths

theorem State.sameDepths_advance (s : State) : s.SameDepths s.advance := by
  unfold State.advance
  split
  next => exact .refl s
  next => exact ⟨rfl, rfl⟩

theorem EndsCommand.sameDepths (hend : EndsCommand s after) : s.SameDepths after := by
  cases hend with
  | closer => exact .refl s
  | bar => exact s.sameDepths_advance

theorem Chained.sameDepths {base found : Node} (hchained : Chained base s found after) :
    s.SameDepths after := by
  cases hchained <;> exact ⟨rfl, rfl⟩

theorem Declares.sameDepths {more : Nat} {declared : Declarations}
    (hdeclares : Declares more s declared after) : s.SameDepths after := by
  induction hdeclares with
  | none => exact ⟨rfl, rfl⟩
  | last hname _ hsign =>
    have hread := hname.sameDepths.trans hsign.sameDepths
    exact ⟨hread.loopDepth_eq, hread.depth_eq⟩
  | more hname _ hsign _ _ _ ih =>
    have hread := hname.sameDepths.trans hsign.sameDepths
    exact ⟨ih.loopDepth_eq.trans hread.loopDepth_eq, ih.depth_eq.trans hread.depth_eq⟩

/-- What is entered before a part and left behind it is as before. -/
theorem State.SameDepths.of_enter (hinside : s.enter.SameDepths after) :
    s.SameDepths after.leave := by
  refine ⟨hinside.loopDepth_eq, ?_⟩
  change after.depth - 1 = s.depth
  rw [hinside.depth_eq]
  rfl

/-- A part of a pipeline leaves the depths as they were. -/
theorem DerivesPhrase.sameDepths {phrase : Phrase}
    (hderives : DerivesPhrase setting phrase s after) : s.SameDepths after := by
  induction hderives with
  | pipeline hdeclares _ _ _ ih => exact hdeclares.sameDepths.trans ih
  | commandsEnd hread => exact hread.sameDepths
  | commandsMore _ _ _ _ _ ihFirst ihOthers => exact ihFirst.trans ihOthers
  | command _ _ ih => exact ih
  | operandsEnd _ hend => exact ⟨hend.sameDepths.loopDepth_eq, hend.sameDepths.depth_eq⟩
  | @operandsMore _ afterFirst _ _ _ _ _ _ ihFirst ihOthers =>
    have hfirst := (ihFirst.trans afterFirst.sameDepths_advance).trans ihOthers
    exact ⟨hfirst.loopDepth_eq, hfirst.depth_eq⟩
  | operandsLast _ _ hend ih =>
    have hfirst := ih.trans hend.sameDepths
    exact ⟨hfirst.loopDepth_eq, hfirst.depth_eq⟩
  | parenthesized hread _ _ _ hchained ih =>
    exact (hread.sameDepths.trans ih.of_enter).trans hchained.sameDepths
  | term hread _ hchained => exact hread.sameDepths.trans hchained.sameDepths

/-- A part of a body leaves the depths as they were. -/
theorem DerivesPassage.sameDepths {passage : Passage}
    (hderives : DerivesPassage setting passage s after) : s.SameDepths after := by
  induction hderives with
  | body _ _ ih => exact ih.of_enter
  | statementsEnd _ _ ih => exact ih
  | statementsMore _ _ _ ihFirst ihOthers => exact ihFirst.trans ihOthers
  | text hread | comment hread => exact hread.sameDepths
  | delimited hread _ _ ih =>
    exact ⟨ih.loopDepth_eq.trans hread.sameDepths.loopDepth_eq,
      ih.depth_eq.trans hread.sameDepths.depth_eq⟩
  | blockAction hread _ _ ih | branchAction hread _ _ ih => exact hread.sameDepths.trans ih
  | breakAction hread _ hclose | continueAction hread _ hclose | endAction hread _ hclose =>
    exact hread.sameDepths.trans hclose.sameDepths
  | elseWord hread => exact ⟨hread.sameDepths.loopDepth_eq, hread.sameDepths.depth_eq⟩
  | elseAction hread _ hclose => exact hread.sameDepths.trans hclose.sameDepths
  | templateBare hread _ hname hclose =>
    exact (hread.sameDepths.trans hname.sameDepths).trans hclose.sameDepths
  | templateWith hread _ hname _ _ hargument =>
    exact (hread.sameDepths.trans hname.sameDepths).trans hargument.sameDepths
  | pipelineAction _ _ hfound => exact hfound.sameDepths
  | @branchBody kind s after _ _ _ ih =>
    refine ⟨?_, ih.depth_eq⟩
    have hloops : after.loopDepth = s.loopDepth + loopsOf kind := ih.loopDepth_eq
    change after.loopDepth - loopsOf kind = s.loopDepth
    rw [hloops, Nat.add_sub_cancel]
  | nestedBody _ ih => exact ⟨rfl, ih.depth_eq⟩
  | controlOnly hhead _ ih =>
    have hall := hhead.sameDepths.trans ih
    exact ⟨hall.loopDepth_eq, hall.depth_eq⟩
  | @controlContinued _ _ _ afterFirst _ _ _ _ _ _ hhead _ _ _ _ ihFirst ihInner =>
    have hall := ((hhead.sameDepths.trans ihFirst).trans afterFirst.sameDepths_advance).trans
      ihInner
    exact ⟨hall.loopDepth_eq, hall.depth_eq⟩
  | controlOtherwise hhead _ _ _ ihFirst ihSecond =>
    have hall := (hhead.sameDepths.trans ihFirst).trans ihSecond
    exact ⟨hall.loopDepth_eq, hall.depth_eq⟩
  | block hname hargument _ _ ih =>
    have hall := (hname.sameDepths.trans hargument.sameDepths).trans ih
    exact ⟨hall.loopDepth_eq, hall.depth_eq⟩

/-- A definition leaves the depths as they were. -/
theorem OpensDefinition.sameDepths {afterWord : State} (hopens : OpensDefinition s afterWord)
    (hdefines : Defines setting afterWord after) : s.SameDepths after := by
  have hword := s.sameDepths_advance.trans hopens.word.sameDepths
  cases hdefines with
  | definition hname hclose hroot _ =>
    have hall := hword.trans ((hname.sameDepths.trans hclose.sameDepths).trans hroot.sameDepths)
    exact ⟨hall.loopDepth_eq, hall.depth_eq⟩

/-- A source leaves the depths as they were. -/
theorem DerivesRoot.sameDepths {found : List Node} (hderives : DerivesRoot setting found s after) :
    s.SameDepths after := by
  induction hderives with
  | finished => exact .refl _
  | definition hopens hdefines _ ih => exact (hopens.sameDepths hdefines).trans ih
  | statement _ _ hfirst _ ih => exact hfirst.sameDepths.trans ih

end Stencil.Syntax.Parse
