import Stencil.Proofs.Lexing.Scan
import Stencil.Proofs.Unfolding.Items

/-!
# Sources that write an else in two actions

A source is told by the pieces of its scan, so another source is told by other pieces, of which it
is the text. `Expands` relates the pieces of a source with an `else if` or `else with` to those of a
source that writes some of these words in two actions, with nothing between the actions but blanks
that a trim marker takes away (`Joint`), and each end that the new structures need as an action of
its own behind the end that was there. The items of the two sources are then related as `Unfolds`
says (`Expands.unfolds`).
-/

set_option autoImplicit false
set_option relaxedAutoImplicit false

namespace Stencil.Syntax

/-! ### Words and what stands between them -/

/-- How a keyword is written. -/
def Keyword.spelling : Keyword → String
  | dot => "."
  | blockWord => "block"
  | breakWord => "break"
  | continueWord => "continue"
  | defineWord => "define"
  | elseWord => "else"
  | endWord => "end"
  | ifWord => "if"
  | nilWord => "nil"
  | rangeWord => "range"
  | templateWord => "template"
  | withWord => "with"

/-- A keyword inside an action. -/
def wordPiece (word : Keyword) : Piece := .item (.keyword word) word.spelling.toList

/-- Blanks inside an action as pieces: none if there are none. -/
def spacePieces (text : List Char) : List Piece := if text = [] then [] else [.item .space text]

/-- What stands between the words of two actions in a row: blanks, the right delimiter of the first
action, blanks outside that a trim marker takes away, the left delimiter of the second action and
blanks. -/
structure Joint where
  before : List Char := []
  closing : Option Char := none
  blanks : List Char := []
  opening : Option Char := none
  after : List Char := []
deriving DecidableEq, Repr

/-- A joint as pieces. -/
def Joint.pieces (joint : Joint) : List Piece :=
  spacePieces joint.before ++ .closing joint.closing ::
    (blankPieces joint.blanks ++ .opening joint.opening :: spacePieces joint.after)

/-- That a joint holds blanks alone, and outside none that no trim marker takes away. -/
structure Joint.IsBlank (joint : Joint) : Prop where
  before : ∀ c ∈ joint.before, isBlank c
  closing : ∀ c ∈ joint.closing, isBlank c
  blanks : ∀ c ∈ joint.blanks, isBlank c
  opening : ∀ c ∈ joint.opening, isBlank c
  after : ∀ c ∈ joint.after, isBlank c
  trimmed : joint.closing = none → joint.opening = none → joint.blanks = []

/-- So many end actions more, behind the word of an end. -/
def furtherEnds (joints : List Joint) : List Piece :=
  joints.flatMap fun joint ↦ joint.pieces ++ [wordPiece .endWord]

/-! ### Expansions -/

/-- The kind of the item that a piece gives, if it gives one. -/
def Piece.kind? : Piece → Option ItemKind
  | item kind _ => some kind
  | opening _ => some .leftDelim
  | closing _ => some .rightDelim
  | comment .. => some .comment
  | broken _ => none
  | blanks _ => none

/-- The kind of the first item of a source after spaces. -/
def headOf (pieces : List Piece) : ItemKind :=
  ((pieces.filterMap Piece.kind?).dropWhile (· = .space)).headD .eof

/-- That the second pieces are the first with some else actions that open a structure written in two
actions, where these structures are open. Each comes with how many of the ends that follow in the
second pieces are ends of structures that such an else opened. -/
inductive Expands : List Pending → List Piece → List Piece → Prop
  | finished : Expands [] [] []
  /-- A piece that both have. -/
  | piece {frames : List Pending} {piece : Piece} {pieces others : List Piece}
    (hkind : piece.kind? ≠ some .leftDelim) (hrest : Expands frames pieces others) :
    Expands frames (piece :: pieces) (piece :: others)
  /-- The start of an action that both have. -/
  | action {frames : List Pending} {marker : Option Char} {pieces others : List Piece}
    (hhead : headOf pieces ≠ .keyword .endWord)
    (hrest : Expands (pushed (headOf pieces) frames) pieces others) :
    Expands frames (.opening marker :: pieces) (.opening marker :: others)
  /-- An else with the word of a structure, for which the second source has two actions. -/
  | expanded {word : Keyword} {count : Nat} {frames : List Pending} {marker : Option Char}
    {lead gap : List Char} {joint : Joint} {pieces others : List Piece}
    (hword : word = .ifWord ∨ word = .withWord) (hgap : gap ≠ [])
    (hblank : ∀ c ∈ gap, isBlank c) (hjoint : joint.IsBlank)
    (hrest : Expands ((word, count + 1) :: frames) pieces others) :
    Expands ((word, count) :: frames)
      (.opening marker :: (spacePieces lead ++ wordPiece .elseWord ::
        (spacePieces gap ++ wordPiece word :: pieces)))
      (.opening marker :: (spacePieces lead ++ wordPiece .elseWord ::
        (joint.pieces ++ wordPiece word :: others)))
  /-- The end of a structure, with the ends of the structures that its last else opened. -/
  | ended {word : Keyword} {frames : List Pending} {marker closing : Option Char}
    {lead last : List Char} {joints : List Joint} {pieces others : List Piece}
    (hjoints : ∀ joint ∈ joints, joint.IsBlank) (hrest : Expands frames pieces others) :
    Expands ((word, joints.length) :: frames)
      (.opening marker :: (spacePieces lead ++ wordPiece .endWord :: (spacePieces last ++
        .closing closing :: pieces)))
      (.opening marker :: (spacePieces lead ++ wordPiece .endWord :: (furtherEnds joints ++
        (spacePieces last ++ .closing closing :: others))))

/-! ### The items of an expansion -/

section Items

variable {delimiters : Delimiters}

theorem map_kind_itemsOf (position : Position) (pieces : List Piece) :
    (itemsOf delimiters position pieces).map Item.kind = pieces.filterMap Piece.kind? := by
  induction pieces generalizing position with
  | nil => rfl
  | cons piece rest ih =>
    rw [itemsOf, List.map_append, ih]
    cases piece <;> rfl

/-- The first item after spaces is that of the first piece after spaces. -/
theorem headKind_items (position : Position) (pieces : List Piece) :
    headKind (Scan.items delimiters position ⟨pieces, none⟩) = headOf pieces := by
  have hhead (items : List Item) (last : Item) (hlast : last.kind = .eof) :
      headKind (items ++ [last]) =
        ((items.map Item.kind).dropWhile (· = .space)).headD .eof := by
    induction items with
    | nil => simp [headKind, Item.isSpace, hlast]
    | cons item rest ih =>
      by_cases hspace : item.kind = .space
      · rw [List.map_cons, List.dropWhile_cons_of_pos (by simpa using hspace), ← ih, headKind,
          List.cons_append, List.dropWhile_cons_of_pos (by simpa [Item.isSpace] using hspace),
          headKind]
      · rw [List.map_cons, List.dropWhile_cons_of_neg (by simpa using hspace), headKind,
          List.cons_append, List.dropWhile_cons_of_neg (by simpa [Item.isSpace] using hspace)]
        rfl
  rw [Scan.items, hhead _ _ rfl, map_kind_itemsOf, headOf]

/-- The items of a source are those of its first piece and, from where it ends, of the others. -/
theorem items_cons (position : Position) (piece : Piece) (pieces : List Piece) :
    Scan.items delimiters position ⟨piece :: pieces, none⟩ =
      (piece.item? delimiters position).toList ++
        Scan.items delimiters (position.advance (piece.text delimiters)) ⟨pieces, none⟩ := by
  rw [← List.singleton_append, Scan.items_append]
  simp [itemsOf]

/-- Behind blanks stands the item of the piece that follows them. -/
theorem startsWith_items (piece : Piece) {kind : ItemKind} (hkind : piece.kind? = some kind)
    (hspace : kind ≠ .space) (position : Position) (lead : List Char) (pieces : List Piece) :
    ∃ after, StartsWith kind
      (Scan.items delimiters position ⟨spacePieces lead ++ piece :: pieces, none⟩)
      (Scan.items delimiters after ⟨pieces, none⟩) := by
  have hitem (position : Position) : ∃ after, StartsWith kind
      (Scan.items delimiters position ⟨piece :: pieces, none⟩)
      (Scan.items delimiters after ⟨pieces, none⟩) := by
    refine ⟨position.advance (piece.text delimiters), ?_⟩
    rw [items_cons]
    cases piece <;> cases hkind <;> exact .here rfl hspace
  unfold spacePieces
  split
  next => exact hitem position
  next =>
    obtain ⟨after, hstarts⟩ := hitem (position.advance lead)
    refine ⟨after, ?_⟩
    rw [List.singleton_append, items_cons]
    exact .space rfl hstarts

/-- Blanks that a trim marker takes away are no items. -/
theorem items_blankPieces (position : Position) (blanks : List Char) (pieces : List Piece) :
    Scan.items delimiters position ⟨blankPieces blanks ++ pieces, none⟩ =
      Scan.items delimiters (position.advance blanks) ⟨pieces, none⟩ := by
  rw [Scan.items_append, itemsOf_blankPieces, texts_blankPieces, List.nil_append]

/-- The left delimiter of an action is an item. -/
theorem items_opening (position : Position) (marker : Option Char) (pieces : List Piece) :
    Scan.items delimiters position ⟨.opening marker :: pieces, none⟩ =
      ⟨.leftDelim, position, delimiters.left⟩ ::
        Scan.items delimiters (position.advance (delimiters.left.toList ++ leftMarker marker))
          ⟨pieces, none⟩ :=
  items_cons position (.opening marker) pieces

/-- Behind a word and a joint of two actions stands the second action. -/
theorem startsWith_joint (joint : Joint) (word : Keyword) (position : Position)
    (pieces : List Piece) :
    ∃ opening inside after, StartsWith .rightDelim
      (Scan.items delimiters position ⟨joint.pieces ++ wordPiece word :: pieces, none⟩)
      (opening :: inside) ∧ opening.kind = .leftDelim ∧
      StartsWith (.keyword word) inside (Scan.items delimiters after ⟨pieces, none⟩) := by
  obtain ⟨closed, hclosing⟩ := startsWith_items (.closing joint.closing) rfl nofun
    position joint.before (blankPieces joint.blanks ++ .opening joint.opening ::
      (spacePieces joint.after ++ wordPiece word :: pieces))
  rw [items_blankPieces, items_opening] at hclosing
  obtain ⟨after, hword⟩ := startsWith_items (wordPiece word) rfl nofun
    ((closed.advance joint.blanks).advance (delimiters.left.toList ++ leftMarker joint.opening))
    joint.after pieces
  refine ⟨⟨.leftDelim, closed.advance joint.blanks, delimiters.left⟩, _, after, ?_, rfl, hword⟩
  simpa [Joint.pieces] using hclosing

/-- Behind the word of an end stand its right delimiter and the further ends. -/
theorem startsWithEnds_items (joints : List Joint) (last : List Char) (closing : Option Char)
    (position : Position) (others : List Piece) :
    ∃ closed after, StartsWith .rightDelim
      (Scan.items delimiters position
        ⟨furtherEnds joints ++ (spacePieces last ++ .closing closing :: others), none⟩) closed ∧
      StartsWithEnds joints.length closed (Scan.items delimiters after ⟨others, none⟩) := by
  induction joints generalizing position with
  | nil =>
    obtain ⟨after, hclosing⟩ := startsWith_items (.closing closing) rfl nofun position last
      others
    exact ⟨_, after, hclosing, .none⟩
  | cons joint rest ih =>
    obtain ⟨opening, inside, behind, hclosing, hopening, hword⟩ := startsWith_joint joint
      .endWord position
      (furtherEnds rest ++ (spacePieces last ++ .closing closing :: others))
    obtain ⟨closed, after, hclosed, hends⟩ := ih behind
    refine ⟨opening :: inside, after, ?_, .more hopening hword hclosed hends⟩
    simpa [furtherEnds] using hclosing

/-- The items of a source and of one with an else in two actions are related. -/
theorem Expands.unfolds {frames : List Pending} {pieces others : List Piece}
    (hexpands : Expands frames pieces others) (position after : Position) :
    Unfolds frames (Scan.items delimiters position ⟨pieces, none⟩)
      (Scan.items delimiters after ⟨others, none⟩) := by
  induction hexpands generalizing position after with
  | finished => exact .item ⟨rfl, rfl⟩ nofun .finished
  | @piece _ piece _ _ hkind _ ih =>
    rw [items_cons, items_cons]
    cases piece with
    | opening => exact absurd rfl hkind
    | broken | blanks => exact ih _ _
    | item kind => exact .item ⟨rfl, rfl⟩ (fun heq ↦ hkind (congrArg some heq)) (ih _ _)
    | closing | comment => exact .item ⟨rfl, rfl⟩ nofun (ih _ _)
  | action hhead _ ih =>
    rw [items_opening, items_opening]
    refine .action rfl rfl ?_ ?_
    · rwa [headKind_items]
    · rw [headKind_items]
      exact ih _ _
  | @expanded word _ _ marker lead gap joint pieces others hword _ _ _ _ ih =>
    rw [items_opening, items_opening]
    obtain ⟨afterElse, helse⟩ := startsWith_items (wordPiece .elseWord) rfl nofun
      (position.advance (delimiters.left.toList ++ leftMarker marker)) lead
      (spacePieces gap ++ wordPiece word :: pieces)
    obtain ⟨rest, hcontinues⟩ := startsWith_items (wordPiece word) rfl nofun afterElse gap
      pieces
    obtain ⟨afterElse', helse'⟩ := startsWith_items (wordPiece .elseWord) rfl nofun
      (after.advance (delimiters.left.toList ++ leftMarker marker)) lead
      (joint.pieces ++ wordPiece word :: others)
    obtain ⟨opening, inside, rest', hclosing, hopening, hopens⟩ :=
      startsWith_joint joint word afterElse' others
    exact .unfolded rfl rfl hword helse hcontinues helse' hclosing hopening hopens (ih rest rest')
  | @ended word _ marker closing lead last joints pieces others _ _ ih =>
    rw [items_opening, items_opening]
    obtain ⟨afterEnd, hend⟩ := startsWith_items (wordPiece .endWord) rfl nofun
      (position.advance (delimiters.left.toList ++ leftMarker marker)) lead
      (spacePieces last ++ .closing closing :: pieces)
    obtain ⟨rest, hclosing⟩ := startsWith_items (.closing closing) rfl nofun afterEnd last
      pieces
    obtain ⟨afterEnd', hend'⟩ := startsWith_items (wordPiece .endWord) rfl nofun
      (after.advance (delimiters.left.toList ++ leftMarker marker)) lead
      (furtherEnds joints ++ (spacePieces last ++ .closing closing :: others))
    obtain ⟨closed, rest', hclosing', hends⟩ := startsWithEnds_items joints last closing afterEnd'
      others
    exact .ended rfl rfl hend hclosing hend' hclosing' hends (ih rest rest')

end Items

end Stencil.Syntax
