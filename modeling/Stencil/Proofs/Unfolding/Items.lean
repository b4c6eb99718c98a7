import Stencil.Proofs.Grammar.Positions
import Stencil.Proofs.Grammar.Starts

/-!
# Control structures under one end and under their own

`{{else if}}` says in one action what `{{else}}{{if}}` says in two, and the structure that it starts
needs no end of its own. A source that writes it in two actions is longer by one else and one end.
`Unfolds` relates the items of the shorter source to those of a longer one, in which some of the
words `else if` and `else with`, or all of them, are written in two actions. It goes along both
sources and keeps the structures that are open in both, the innermost first, each with the number of
ends that the longer source will need in addition to the one that both have (`Pending`).
-/

set_option autoImplicit false
set_option relaxedAutoImplicit false

namespace Stencil.Syntax

open Parse

/-- That two items differ at most in their positions. -/
structure Item.Like (first second : Item) : Prop where
  kind : first.kind = second.kind
  value : first.value = second.value

/-- Whether an item is spaces. -/
def Item.isSpace (item : Item) : Bool := item.kind = .space

/-- That some items start with one of a kind, spaces aside, and the items after it. -/
inductive StartsWith (kind : ItemKind) : List Item → List Item → Prop
  | here {item : Item} {rest : List Item} (hkind : item.kind = kind) (hspace : kind ≠ .space) :
    StartsWith kind (item :: rest) rest
  | space {item : Item} {items rest : List Item} (hkind : item.kind = .space)
    (hrest : StartsWith kind items rest) : StartsWith kind (item :: items) rest

/-- The kind of the first item after spaces. -/
def headKind (items : List Item) : ItemKind :=
  ((items.dropWhile Item.isSpace).headD State.exhausted).kind

/-- That items start with so many end actions, and the items after them. -/
inductive StartsWithEnds : Nat → List Item → List Item → Prop
  | none {items : List Item} : StartsWithEnds 0 items items
  | more {count : Nat} {opening : Item} {items afterWord afterEnd rest : List Item}
    (hopening : opening.kind = .leftDelim) (hword : StartsWith (.keyword .endWord) items afterWord)
    (hclosing : StartsWith .rightDelim afterWord afterEnd)
    (hmore : StartsWithEnds count afterEnd rest) :
    StartsWithEnds (count + 1) (opening :: items) rest

/-! ### The relation -/

/-- An open structure: the word that opened it, and how many ends more the longer source has for
it. -/
abbrev Pending : Type := Keyword × Nat

/-- Whether an action with this word opens a structure, which an end closes. -/
def opensStructure : Keyword → Bool
  | .ifWord | .withWord | .rangeWord | .blockWord | .defineWord => true
  | _ => false

/-- The open structures after the first item of an action. -/
def pushed (kind : ItemKind) (frames : List Pending) : List Pending :=
  match kind with
  | .keyword word => if opensStructure word then (word, 0) :: frames else frames
  | _ => frames

/-- That the second items are the first with some else actions that open a structure written in two
actions, where these structures are open. -/
inductive Unfolds : List Pending → List Item → List Item → Prop
  | finished : Unfolds [] [] []
  /-- An item that both have. -/
  | item {frames : List Pending} {first second : Item} {items others : List Item}
    (hlike : first.Like second) (hkind : first.kind ≠ .leftDelim)
    (hrest : Unfolds frames items others) : Unfolds frames (first :: items) (second :: others)
  /-- The start of an action that both have. -/
  | action {frames : List Pending} {first second : Item} {items others : List Item}
    (hfirst : first.kind = .leftDelim) (hsecond : second.kind = .leftDelim)
    (hhead : headKind items ≠ .keyword .endWord)
    (hrest : Unfolds (pushed (headKind items) frames) items others) :
    Unfolds frames (first :: items) (second :: others)
  /-- An else with the word of a structure that the second items open in an action of its own. -/
  | unfolded {word : Keyword} {count : Nat} {frames : List Pending} {first second opening : Item}
    {items afterElse rest others afterElse' afterOpening rest' : List Item}
    (hfirst : first.kind = .leftDelim) (hsecond : second.kind = .leftDelim)
    (hword : word = .ifWord ∨ word = .withWord)
    (helse : StartsWith (.keyword .elseWord) items afterElse)
    (hcontinues : StartsWith (.keyword word) afterElse rest)
    (helse' : StartsWith (.keyword .elseWord) others afterElse')
    (hclosing : StartsWith .rightDelim afterElse' (opening :: afterOpening))
    (hopening : opening.kind = .leftDelim) (hopens : StartsWith (.keyword word) afterOpening rest')
    (hrest : Unfolds ((word, count + 1) :: frames) rest rest') :
    Unfolds ((word, count) :: frames) (first :: items) (second :: others)
  /-- The end of a structure, which is more than one end in the second items. -/
  | ended {word : Keyword} {count : Nat} {frames : List Pending} {first second : Item}
    {items afterEnd rest others afterEnd' afterFirst rest' : List Item}
    (hfirst : first.kind = .leftDelim) (hsecond : second.kind = .leftDelim)
    (hend : StartsWith (.keyword .endWord) items afterEnd)
    (hclosing : StartsWith .rightDelim afterEnd rest)
    (hend' : StartsWith (.keyword .endWord) others afterEnd')
    (hclosing' : StartsWith .rightDelim afterEnd' afterFirst)
    (hends : StartsWithEnds count afterFirst rest')
    (hrest : Unfolds frames rest rest') :
    Unfolds ((word, count) :: frames) (first :: items) (second :: others)

section Unfolds

variable {frames : List Pending} {items others : List Item}

/-- An item inside an action is the same in both. -/
theorem Unfolds.of_cons {first second : Item} (hkind : first.kind ≠ .leftDelim)
    (hunfolds : Unfolds frames (first :: items) (second :: others)) :
    Unfolds frames items others := by
  cases hunfolds with
  | item _ _ hrest => exact hrest
  | action hfirst => exact absurd hfirst hkind
  | unfolded hfirst => exact absurd hfirst hkind
  | ended hfirst => exact absurd hfirst hkind

/-- Both have no items left, or start with items that are alike. -/
theorem Unfolds.head (hunfolds : Unfolds frames items others) :
    (items = [] ∧ others = []) ∨ ∃ first rest second rest', items = first :: rest ∧
      others = second :: rest' ∧ first.kind = second.kind ∧
        (first.kind ≠ .leftDelim → first.Like second) := by
  cases hunfolds with
  | finished => exact .inl ⟨rfl, rfl⟩
  | item hlike _ _ => exact .inr ⟨_, _, _, _, rfl, rfl, hlike.kind, fun _ ↦ hlike⟩
  | action hfirst hsecond =>
    exact .inr ⟨_, _, _, _, rfl, rfl, hfirst.trans hsecond.symm, fun hkind ↦ absurd hfirst hkind⟩
  | unfolded hfirst hsecond =>
    exact .inr ⟨_, _, _, _, rfl, rfl, hfirst.trans hsecond.symm, fun hkind ↦ absurd hfirst hkind⟩
  | ended hfirst hsecond =>
    exact .inr ⟨_, _, _, _, rfl, rfl, hfirst.trans hsecond.symm, fun hkind ↦ absurd hfirst hkind⟩

/-- What follows spaces is related as what they stand before. -/
theorem Unfolds.dropSpaces (hunfolds : Unfolds frames items others) :
    Unfolds frames (items.dropWhile Item.isSpace) (others.dropWhile Item.isSpace) := by
  induction items generalizing others with
  | nil =>
    cases hunfolds with
    | finished => exact .finished
  | cons first rest ih =>
    obtain ⟨habsurd, -⟩ | ⟨_, _, second, rest', heq, rfl, hkind, -⟩ := hunfolds.head
    · cases habsurd
    · obtain ⟨rfl, rfl⟩ := List.cons.inj heq
      by_cases hspace : first.isSpace
      · have hspace' : second.isSpace := by simpa [Item.isSpace, ← hkind] using hspace
        rw [List.dropWhile_cons_of_pos hspace, List.dropWhile_cons_of_pos hspace']
        refine ih (hunfolds.of_cons ?_)
        simp only [Item.isSpace, decide_eq_true_eq] at hspace
        simp [hspace]
      · have hspace' : ¬ second.isSpace := by simpa [Item.isSpace, ← hkind] using hspace
        rw [List.dropWhile_cons_of_neg hspace, List.dropWhile_cons_of_neg hspace']
        exact hunfolds

end Unfolds

/-- What stands behind the spaces is the item of the kind and the rest. -/
theorem StartsWith.dropSpaces {kind : ItemKind} {items rest : List Item}
    (hstarts : StartsWith kind items rest) :
    ∃ item, items.dropWhile Item.isSpace = item :: rest ∧ item.kind = kind := by
  induction hstarts with
  | @here item rest hkind hspace =>
    refine ⟨item, List.dropWhile_cons_of_neg ?_, hkind⟩
    simpa [Item.isSpace, hkind] using hspace
  | @space item items rest hkind _ ih =>
    obtain ⟨found, hdrop, hfound⟩ := ih
    refine ⟨found, ?_, hfound⟩
    rw [List.dropWhile_cons_of_pos (by simpa [Item.isSpace] using hkind), hdrop]

theorem StartsWith.headKind_eq {kind : ItemKind} {items rest : List Item}
    (hstarts : StartsWith kind items rest) : headKind items = kind := by
  obtain ⟨item, hdrop, hkind⟩ := hstarts.dropSpaces
  rw [headKind, hdrop]
  exact hkind

theorem StartsWith.ne_space {kind : ItemKind} {items rest : List Item}
    (hstarts : StartsWith kind items rest) : kind ≠ .space := by
  induction hstarts with
  | here _ hspace => exact hspace
  | space _ _ ih => exact ih

end Stencil.Syntax
