import Stencil.Proofs.Unfolding.Lockstep

/-!
# The states of two parses in step

Two states are level if they have the same variables, trees and loops (`State.Level`), where the
second may be deeper. They are coupled if the items that are left are related too (`State.Coupled`).
Each call keeps both depths, so what is proved of a call names them.
-/

set_option autoImplicit false
set_option relaxedAutoImplicit false

namespace Stencil.Syntax

namespace Parse

/-! ### Level states -/

/-- That two states differ at most in their lines, their items, the positions of their trees and
their depths, of which the second is no less than the first. -/
structure State.Level (low high : Nat) (s t : State) : Prop where
  visible : s.visible = t.visible
  trees : s.trees.unplaced = t.trees.unplaced
  loopDepth : s.loopDepth = t.loopDepth
  low_eq : s.depth = low
  high_eq : t.depth = high
  le : low ≤ high

/-- That two states are level and their items related. -/
structure State.Coupled (frames : List Pending) (low high : Nat) (s t : State) : Prop extends
    State.Level low high s t where
  items : Unfolds frames s.rest t.rest

section States

variable {frames : List Pending} {low high : Nat} {s t : State}

namespace State.Level

/-- States stay level when other items are left. -/
theorem read (hlevel : s.Level low high t) (line line' : Nat) (items items' : List Item) :
    ({ s with line := line, rest := items } : State).Level low high
      { t with line := line', rest := items' } := by
  obtain ⟨hvisible, htrees, hloops, hlow, hhigh, hle⟩ := hlevel
  exact ⟨hvisible, htrees, hloops, hlow, hhigh, hle⟩

theorem declare (hlevel : s.Level low high t) (name : String) :
    (s.declare name).Level low high (t.declare name) := by
  obtain ⟨hvisible, htrees, hloops, hlow, hhigh, hle⟩ := hlevel
  exact ⟨congrArg (name :: ·) hvisible, htrees, hloops, hlow, hhigh, hle⟩

theorem enter (hlevel : s.Level low high t) : s.enter.Level (low + 1) (high + 1) t.enter := by
  obtain ⟨hvisible, htrees, hloops, hlow, hhigh, hle⟩ := hlevel
  exact ⟨hvisible, htrees, hloops, congrArg (· + 1) hlow, congrArg (· + 1) hhigh, by omega⟩

theorem leave (hlevel : s.Level (low + 1) (high + 1) t) : s.leave.Level low high t.leave := by
  obtain ⟨hvisible, htrees, hloops, hlow, hhigh, hle⟩ := hlevel
  exact ⟨hvisible, htrees, hloops, congrArg (· - 1) hlow, congrArg (· - 1) hhigh, by omega⟩

theorem enterAction (hlevel : s.Level low high t) (line line' : Nat) :
    (s.enterAction line).Level low high (t.enterAction line') := by
  obtain ⟨hvisible, htrees, hloops, hlow, hhigh, hle⟩ := hlevel
  exact ⟨hvisible, htrees, hloops, hlow, hhigh, hle⟩

theorem leaveAction (hlevel : s.Level low high t) :
    s.leaveAction.Level low high t.leaveAction := by
  obtain ⟨hvisible, htrees, hloops, hlow, hhigh, hle⟩ := hlevel
  exact ⟨hvisible, htrees, hloops, hlow, hhigh, hle⟩

theorem enterBranch (hlevel : s.Level low high t) (kind : BranchKind) :
    (s.enterBranch kind).Level low high (t.enterBranch kind) := by
  obtain ⟨hvisible, htrees, hloops, hlow, hhigh, hle⟩ := hlevel
  exact ⟨hvisible, htrees, congrArg (· + loopsOf kind) hloops, hlow, hhigh, hle⟩

theorem leaveBranch (hlevel : s.Level low high t) (kind : BranchKind) :
    (s.leaveBranch kind).Level low high (t.leaveBranch kind) := by
  obtain ⟨hvisible, htrees, hloops, hlow, hhigh, hle⟩ := hlevel
  exact ⟨hvisible, htrees, congrArg (· - loopsOf kind) hloops, hlow, hhigh, hle⟩

theorem enterTemplate (hlevel : s.Level low high t) :
    s.enterTemplate.Level low high t.enterTemplate := by
  obtain ⟨-, htrees, -, hlow, hhigh, hle⟩ := hlevel
  exact ⟨rfl, htrees, rfl, hlow, hhigh, hle⟩

theorem leaveTemplate {before before' : State} (hlevel : s.Level low high t)
    (hbefore : before.Level low high before') :
    (s.leaveTemplate before).Level low high (t.leaveTemplate before') := by
  obtain ⟨-, htrees, -, hlow, hhigh, hle⟩ := hlevel
  exact ⟨hbefore.visible, htrees, hbefore.loopDepth, hlow, hhigh, hle⟩

theorem keepVariables (hlevel : s.Level low high t) (count : Nat) :
    (s.keepVariables count).Level low high (t.keepVariables count) := by
  obtain ⟨hvisible, htrees, hloops, hlow, hhigh, hle⟩ := hlevel
  refine ⟨?_, htrees, hloops, hlow, hhigh, hle⟩
  change s.visible.drop (s.visible.length - count) = t.visible.drop (t.visible.length - count)
  rw [hvisible]

theorem setTrees (hlevel : s.Level low high t) {trees trees' : TreeSet}
    (htrees : trees.unplaced = trees'.unplaced) :
    ({ s with trees := trees } : State).Level low high { t with trees := trees' } := by
  obtain ⟨hvisible, -, hloops, hlow, hhigh, hle⟩ := hlevel
  exact ⟨hvisible, htrees, hloops, hlow, hhigh, hle⟩

end State.Level

/-! ### Spaces and items -/

theorem State.rest_skipSpaces (s : State) : s.skipSpaces.rest = s.rest.dropWhile Item.isSpace := by
  have hskip (line : Nat) (items : List Item) :
      (State.skipFrom line items).2 = items.dropWhile Item.isSpace := by
    induction items generalizing line with
    | nil => rfl
    | cons item rest ih =>
      by_cases hspace : item.kind = .space
      · rw [State.skipFrom, if_pos hspace,
          List.dropWhile_cons_of_pos (by simpa [Item.isSpace] using hspace), ih]
      · rw [State.skipFrom, if_neg hspace,
          List.dropWhile_cons_of_neg (by simpa [Item.isSpace] using hspace)]
  exact hskip s.line s.rest

theorem State.kind_peek_skipSpaces (s : State) : s.skipSpaces.peek.kind = headKind s.rest := by
  rw [State.peek, rest_skipSpaces, headKind]

/-- The item after spaces is read. -/
theorem State.nextFound_of_cons {item : Item} {rest : List Item}
    (hrest : s.rest.dropWhile Item.isSpace = item :: rest) :
    s.nextFound = (some item, { s with line := item.position.line, rest := rest }) := by
  have hread : s.Reads item { s with line := item.position.line, rest := rest } :=
    ⟨s.rest_skipSpaces.trans hrest, rfl⟩
  rw [State.nextFound, hread.next_eq]

/-- Where spaces alone are left no item is read. -/
theorem State.nextFound_of_nil (hrest : s.rest.dropWhile Item.isSpace = []) :
    s.nextFound = (none, s.skipSpaces) := by
  rw [State.nextFound, next_eq_none_iff.mpr (s.rest_skipSpaces.trans hrest)]

/-- That an item was read of each of two sources, which are in step with the items before what is
left. -/
structure ReadsAlike (frames : List Pending) (low high : Nat) (found found' : Item × State) :
    Prop where
  level : found.2.Level low high found'.2
  items : Unfolds frames (found.1 :: found.2.rest) (found'.1 :: found'.2.rest)

namespace ReadsAlike

variable {item item' : Item} (hread : ReadsAlike frames low high (item, s) (item', t))

include hread

theorem kind_eq : item.kind = item'.kind := by
  obtain ⟨habsurd, -⟩ | ⟨first, _, second, _, hfirst, hsecond, hkind, -⟩ := hread.items.head
  · cases habsurd
  · cases hfirst
    cases hsecond
    exact hkind

theorem like (hkind : item.kind ≠ .leftDelim) : item.Like item' := by
  obtain ⟨habsurd, -⟩ | ⟨first, _, second, _, hfirst, hsecond, -, hlike⟩ := hread.items.head
  · cases habsurd
  · cases hfirst
    cases hsecond
    exact hlike hkind

/-- Behind an item inside an action the states are coupled. -/
theorem coupled (hkind : item.kind ≠ .leftDelim) : s.Coupled frames low high t :=
  ⟨hread.level, hread.items.of_cons hkind⟩

end ReadsAlike

namespace State.Coupled

variable (hcoupled : s.Coupled frames low high t)

include hcoupled

theorem headKind_eq : headKind s.rest = headKind t.rest := by
  unfold headKind
  obtain ⟨hfirst, hsecond⟩ | ⟨first, _, second, _, hfirst, hsecond, hkind, -⟩ :=
    hcoupled.items.dropSpaces.head
  · rw [hfirst, hsecond]
  · rw [hfirst, hsecond]
    exact hkind

theorem kind_peek_skipSpaces_eq : s.skipSpaces.peek.kind = t.skipSpaces.peek.kind := by
  rw [s.kind_peek_skipSpaces, t.kind_peek_skipSpaces, hcoupled.headKind_eq]

theorem kind_peek_eq : s.peek.kind = t.peek.kind := by
  unfold State.peek
  obtain ⟨hfirst, hsecond⟩ | ⟨first, _, second, _, hfirst, hsecond, hkind, -⟩ :=
    hcoupled.items.head
  · rw [hfirst, hsecond]
  · rw [hfirst, hsecond]
    exact hkind

theorem skipSpaces : s.skipSpaces.Coupled frames low high t.skipSpaces where
  toLevel := hcoupled.toLevel.read _ _ _ _
  items := by
    rw [s.rest_skipSpaces, t.rest_skipSpaces]
    exact hcoupled.items.dropSpaces

theorem advance (hkind : s.peek.kind ≠ .leftDelim) :
    s.advance.Coupled frames low high t.advance := by
  obtain ⟨hlevel, hitems⟩ := hcoupled
  obtain ⟨hfirst, hsecond⟩ | ⟨first, rest, second, rest', hfirst, hsecond, -, -⟩ := hitems.head
  · rw [State.advance, State.advance, hfirst, hsecond]
    exact ⟨hlevel, hitems⟩
  · rw [State.peek, hfirst] at hkind
    rw [hfirst, hsecond] at hitems
    rw [State.advance, State.advance, hfirst, hsecond]
    exact ⟨hlevel.read _ _ _ _, hitems.of_cons hkind⟩

theorem declare (name : String) :
    (s.declare name).Coupled frames low high (t.declare name) :=
  ⟨hcoupled.toLevel.declare name, hcoupled.items⟩

/-- The items that are read next are in step, if there are any. -/
theorem nextFound :
    (s.nextFound.1 = none ∧ t.nextFound.1 = none) ∨ ∃ item after item' after',
      s.nextFound = (some item, after) ∧ t.nextFound = (some item', after') ∧
        ReadsAlike frames low high (item, after) (item', after') ∧
          item.kind = headKind s.rest := by
  have hitems := hcoupled.items.dropSpaces
  obtain ⟨hfirst, hsecond⟩ | ⟨first, rest, second, rest', hfirst, hsecond, -, -⟩ := hitems.head
  · exact .inl ⟨by rw [nextFound_of_nil hfirst], by rw [nextFound_of_nil hsecond]⟩
  · rw [hfirst, hsecond] at hitems
    exact .inr ⟨_, _, _, _, nextFound_of_cons hfirst, nextFound_of_cons hsecond,
      ⟨hcoupled.toLevel.read _ _ _ _, hitems⟩, by rw [headKind, hfirst]; rfl⟩

end State.Coupled

end States

end Parse

end Stencil.Syntax
