import Mathlib.Data.List.Chain
import Stencil.Proofs.Lexing.Scan

/-!
# Inside and outside of actions

What the lexer reads outside of actions are texts, comments, left delimiters and what ends a source.
So one of these stands behind every right delimiter (`isChain_outside_lex`), and at the start of a
source.
-/

set_option autoImplicit false
set_option relaxedAutoImplicit false

namespace Stencil.Syntax

/-- Whether an item of this kind is read outside of actions. -/
def ItemKind.isOutside : ItemKind → Bool
  | text | comment | leftDelim | eof | error => true
  | _ => false

/-- That what follows the end of an action is outside of actions. -/
def Item.Closes (first second : Item) : Prop :=
  first.kind = .rightDelim → second.kind.isOutside = true

/-- That items are outside of actions at their start and behind the end of each action. -/
structure AreOutside (items : List Item) : Prop where
  starts : ∀ first ∈ items.head?, first.kind.isOutside = true
  isChain : items.IsChain Item.Closes

section Outside

variable {delimiters : Delimiters}

/-- Anything may follow an item that does not end an action. -/
theorem isChain_closes_cons {item : Item} {rest : List Item} (hkind : item.kind ≠ .rightDelim)
    (hrest : rest.IsChain Item.Closes) : (item :: rest).IsChain Item.Closes :=
  List.isChain_cons.mpr ⟨fun _ _ hright ↦ absurd hright hkind, hrest⟩

/-- An item outside of actions goes in front of what need not be outside. -/
theorem AreOutside.of_cons {item : Item} {rest : List Item}
    (hkind : item.kind.isOutside = true) (hrest : rest.IsChain Item.Closes) :
    AreOutside (item :: rest) := by
  constructor
  · intro first hfirst
    cases hfirst
    exact hkind
  · refine isChain_closes_cons (fun hright ↦ ?_) hrest
    rw [hright] at hkind
    cases hkind

/-- The last item is outside of actions. -/
theorem areOutside_lastItem (position : Position) (fault : Option String) :
    AreOutside [lastItem position fault] := by
  refine .of_cons ?_ List.isChain_nil
  cases fault <;> rfl

/-- A text goes in front of what is outside of actions. -/
theorem AreOutside.textItem {rest : List Item} (hrest : AreOutside rest) (position : Position)
    (text : List Char) : AreOutside (textItem position text ++ rest) := by
  unfold Syntax.textItem
  split
  next => exact hrest
  next => exact .of_cons rfl hrest.isChain

/-- What is scanned starts outside of actions if the scan does, and goes on outside of actions
behind the end of each. -/
theorem Scans.areOutside {mode : Mode} {text : List Char} {pieces : List Piece}
    {fault : Option String} (hscans : Scans delimiters mode text pieces fault)
    (position : Position) :
    (Scan.items delimiters position ⟨pieces, fault⟩).IsChain Item.Closes ∧
      (mode = .outside → AreOutside (Scan.items delimiters position ⟨pieces, fault⟩)) := by
  suffices hmode : match mode with
      | .outside => AreOutside (Scan.items delimiters position ⟨pieces, fault⟩)
      | .inside _ => (Scan.items delimiters position ⟨pieces, fault⟩).IsChain Item.Closes by
    cases mode with
    | outside => exact ⟨hmode.isChain, fun _ ↦ hmode⟩
    | inside => exact ⟨hmode, nofun⟩
  induction hscans generalizing position with
  | plain =>
    dsimp only
    rw [Scan.items, itemsOf_textPieces]
    exact (areOutside_lastItem _ _).textItem _ _
  | @action _ head pieces _ _ _ _ ih =>
    dsimp only at ih ⊢
    rw [Scan.items_headPieces, Scan.items_cons]
    exact (AreOutside.of_cons rfl (ih _)).textItem _ _
  | @comment _ content head tail pieces _ _ _ _ _ _ _ _ ih =>
    dsimp only at ih ⊢
    rw [Scan.items_headPieces, Scan.items_cons, Scan.items_blankPieces]
    exact (AreOutside.of_cons rfl (ih _).isChain).textItem _ _
  | brokenComment =>
    dsimp only
    rw [Scan.items_headPieces]
    exact (areOutside_lastItem _ _).textItem _ _
  | @close _ tail pieces _ _ _ ih =>
    dsimp only at ih ⊢
    rw [Scan.items_cons, Scan.items_blankPieces]
    exact List.isChain_cons.mpr ⟨fun second hsecond _ ↦ (ih _).starts second hsecond,
      (ih _).isChain⟩
  | @item _ _ c value _ kind pieces _ _ hlexeme _ _ ih =>
    dsimp only at ih ⊢
    rw [Scan.items_cons]
    refine isChain_closes_cons ?_ (ih _)
    rintro rfl
    cases (lexes_of_lexeme hlexeme).isLexeme
  | strayParen => exact isChain_closes_cons (by simp) (areOutside_lastItem _ _).isChain
  | stop => exact (areOutside_lastItem _ _).isChain

/-- A source is outside of actions at its start and behind the end of each action. -/
theorem areOutside_lex (delimiters : Delimiters) (source : String) :
    AreOutside (lex delimiters source) := by
  rw [lex_eq]
  exact ((scans_scan delimiters .outside source.toList).areOutside {}).2 rfl

end Outside

end Stencil.Syntax
