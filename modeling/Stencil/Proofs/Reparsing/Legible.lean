import Mathlib.Data.List.Chain
import Stencil.Proofs.Reparsing.Lexemes
import Stencil.Syntax.Number

/-!
# What the lexer says of every item

A lexeme of a source was read somewhere in front of something, a comment has its marks, and no text
is empty (`Item.Legible`). Behind a text stands neither a text nor a space (`Item.Apart`). This is
all that is used of the items of a source where its tree is read again from another text
(`legible_of_mem_lex`, `isChain_lex`).
-/

set_option autoImplicit false
set_option relaxedAutoImplicit false

namespace Stencil.Syntax

/-- That an item is what the lexer makes of a text in front of some other. -/
def Item.Legible (delimiters : Delimiters) (item : Item) : Prop :=
  match item.kind with
  | .text => item.value ≠ ""
  | .comment => ['/', '*'] <+: item.value.toList ∧
    ∃ rest, commentLength (item.value.toList ++ rest) = some item.value.toList.length
  | .error | .eof | .leftDelim | .rightDelim => True
  | kind => ∃ c more rest, item.value.toList = c :: more ∧
    Lexes delimiters c (more ++ rest) kind more.length

/-- That no text and no space follows a text. -/
def Item.Apart (first second : Item) : Prop :=
  first.kind = .text → second.kind ≠ .text ∧ second.kind ≠ .space

/-- A lexeme that is legible was read somewhere. -/
theorem Item.Legible.lexes {delimiters : Delimiters} {item : Item}
    (hlegible : item.Legible delimiters) (hkind : item.kind.isLexeme = true) :
    ∃ c more rest, item.value.toList = c :: more ∧
      Lexes delimiters c (more ++ rest) item.kind more.length := by
  obtain ⟨kind, position, value⟩ := item
  cases kind <;> first | exact hlegible | cases hkind

/-- A sign by itself is no number. -/
theorem ofText_dash (position : Position) :
    NumberLiteral.ofText position "-" = .error .malformed := by rfl

/-- A point by itself is no number. -/
theorem ofText_point (position : Position) :
    NumberLiteral.ofText position "." = .error .malformed := by rfl

section Items

variable {delimiters : Delimiters}

/-- A lexeme is legible. -/
theorem Lexes.legible {c : Char} {more rest : List Char} {kind : ItemKind}
    (hlexes : Lexes delimiters c (more ++ rest) kind more.length) (position : Position) :
    Item.Legible delimiters ⟨kind, position, String.ofList (c :: more)⟩ := by
  have hkind := hlexes.isLexeme
  cases kind <;> first | exact ⟨c, more, rest, String.toList_ofList, hlexes⟩ | cases hkind

/-- The pieces of a text are a text that is not empty, or nothing. -/
theorem legible_textPieces {text : List Char} {position : Position} {item : Item}
    (hitem : item ∈ itemsOf delimiters position (textPieces text)) :
    item.Legible delimiters := by
  rw [itemsOf_textPieces] at hitem
  unfold textItem at hitem
  split at hitem
  next => cases hitem
  next hne =>
    rw [List.mem_singleton] at hitem
    subst hitem
    have hchars : text ≠ [] := by simpa using hne
    change String.ofList text ≠ ""
    exact fun hempty ↦ hchars (by simpa using congrArg String.toList hempty)

/-- Every item of a scan is legible. -/
theorem Scans.legible_of_mem {mode : Mode} {text : List Char} {pieces : List Piece}
    {fault : Option String} (hscans : Scans delimiters mode text pieces fault)
    {position : Position} {item : Item} (hitem : item ∈ itemsOf delimiters position pieces) :
    item.Legible delimiters := by
  have hhead {head : Head} {position : Position}
      (hitem : item ∈ itemsOf delimiters position head.pieces) : item.Legible delimiters := by
    have hsame : itemsOf delimiters position head.pieces =
        itemsOf delimiters position (textPieces head.value) := by simp
    exact legible_textPieces (hsame ▸ hitem)
  induction hscans generalizing position with
  | plain => exact legible_textPieces hitem
  | action _ _ _ ih =>
    rw [itemsOf_append] at hitem
    rcases List.mem_append.mp hitem with hitem | hitem
    · exact hhead hitem
    · rcases List.mem_cons.mp hitem with rfl | hitem
      · trivial
      · exact ih hitem
  | @comment text content head tail pieces fault rest hopens hbody hcomment hlength _ _ ih =>
    rw [itemsOf_append] at hitem
    rcases List.mem_append.mp hitem with hitem | hitem
    · exact hhead hitem
    · rcases List.mem_cons.mp hitem with rfl | hitem
      · refine ⟨?_, rest, ?_⟩
        · rw [String.toList_ofList]
          exact (marks_of_commentLength hbody hcomment hlength).1
        · rw [String.toList_ofList, ← hbody]
          exact hlength
      · simp only [List.nil_append, itemsOf_append, itemsOf_blankPieces] at hitem
        exact ih hitem
  | brokenComment =>
    rw [itemsOf_append] at hitem
    rcases List.mem_append.mp hitem with hitem | hitem
    · exact hhead hitem
    · cases hitem
  | close _ _ ih =>
    rcases List.mem_cons.mp hitem with rfl | hitem
    · trivial
    · simp only [List.nil_append, itemsOf_append, itemsOf_blankPieces] at hitem
      exact ih hitem
  | item _ hlexeme _ _ ih =>
    rcases List.mem_cons.mp hitem with rfl | hitem
    · exact (lexes_of_lexeme hlexeme).legible position
    · exact ih hitem
  | strayParen _ hlexeme =>
    cases List.mem_singleton.mp hitem
    exact (lexes_of_lexeme hlexeme).legible position
  | stop => cases hitem

/-- Every item of a source is legible. -/
theorem legible_of_mem_lex {source : String} {item : Item}
    (hitem : item ∈ lex delimiters source) : item.Legible delimiters := by
  rw [lex_eq, Scan.items] at hitem
  rcases List.mem_append.mp hitem with hitem | hitem
  · exact (scans_scan delimiters .outside source.toList).legible_of_mem hitem
  · rw [List.mem_singleton] at hitem
    subst hitem
    unfold lastItem
    split <;> trivial

/-! ### What stands behind a text -/

/-- Anything may follow an item that is no text. -/
theorem isChain_apart_cons {item : Item} {rest : List Item} (hkind : item.kind ≠ .text)
    (hrest : rest.IsChain Item.Apart) : (item :: rest).IsChain Item.Apart :=
  List.isChain_cons.mpr ⟨fun _ _ htext ↦ absurd htext hkind, hrest⟩

/-- A text goes in front of what starts with neither a text nor a space. -/
theorem isChain_apart_textItem (position : Position) (text : List Char) {next : Item}
    {rest : List Item} (hkind : next.kind ≠ .text ∧ next.kind ≠ .space)
    (hrest : (next :: rest).IsChain Item.Apart) :
    (textItem position text ++ next :: rest).IsChain Item.Apart := by
  unfold textItem
  split
  next => exact hrest
  next =>
    refine List.isChain_cons.mpr ⟨fun second hsecond _ ↦ ?_, hrest⟩
    cases hsecond
    exact hkind

/-- The items of a scan are apart. -/
theorem Scans.isChain {mode : Mode} {text : List Char} {pieces : List Piece}
    {fault : Option String} (hscans : Scans delimiters mode text pieces fault)
    (position : Position) :
    (Scan.items delimiters position ⟨pieces, fault⟩).IsChain Item.Apart := by
  have hlast {position : Position} {fault : Option String} :
      (lastItem position fault).kind ≠ .text ∧ (lastItem position fault).kind ≠ .space := by
    cases fault <;> simp [lastItem]
  induction hscans generalizing position with
  | plain =>
    rw [Scan.items, itemsOf_textPieces]
    exact isChain_apart_textItem _ _ hlast (List.isChain_singleton _)
  | @action _ head pieces _ _ _ _ ih =>
    rw [Scan.items_headPieces, Scan.items_cons]
    exact isChain_apart_textItem _ _ ⟨by simp, by simp⟩ (isChain_apart_cons (by simp) (ih _))
  | @comment _ content head tail pieces _ _ _ _ _ _ _ _ ih =>
    rw [Scan.items_headPieces, Scan.items_cons, Scan.items_blankPieces]
    exact isChain_apart_textItem _ _ ⟨by simp, by simp⟩ (isChain_apart_cons (by simp) (ih _))
  | brokenComment =>
    rw [Scan.items_headPieces]
    exact isChain_apart_textItem _ _ hlast (List.isChain_singleton _)
  | @close _ tail pieces _ _ _ ih =>
    rw [Scan.items_cons, Scan.items_blankPieces]
    exact isChain_apart_cons (by simp) (ih _)
  | @item _ _ c value _ kind pieces _ _ hlexeme _ _ ih =>
    rw [Scan.items_cons]
    refine isChain_apart_cons ?_ (ih _)
    rintro rfl
    cases (lexes_of_lexeme hlexeme).isLexeme
  | strayParen => exact isChain_apart_cons (by simp) (List.isChain_singleton _)
  | stop => exact List.isChain_singleton _

/-- In a source, neither a text nor a space follows a text. -/
theorem isChain_lex (source : String) : (lex delimiters source).IsChain Item.Apart := by
  rw [lex_eq]
  exact (scans_scan delimiters .outside source.toList).isChain {}

end Items

/-! ### Items that stand alone -/

section Standalone

variable {item : Item}

/-- A name of a source stands alone. -/
theorem Item.Legible.standalone_name (hlegible : item.Legible Delimiters.braces)
    (hkind : item.kind.isName = true) : Standalone item.kind EndsName item.value.toList := by
  obtain ⟨kind, position, value⟩ := item
  have hlexeme : kind.isLexeme = true := by cases kind <;> first | rfl | cases hkind
  obtain ⟨c, more, rest, hvalue, hlexes⟩ := hlegible.lexes hlexeme
  rw [hvalue]
  exact hlexes.standalone_name hkind

/-- A literal between marks stands alone in front of anything. -/
theorem Item.Legible.standalone_quoted (hlegible : item.Legible Delimiters.braces)
    (hkind : item.kind.isQuoted = true) : Standalone item.kind Anything item.value.toList := by
  obtain ⟨kind, position, value⟩ := item
  have hlexeme : kind.isLexeme = true := by cases kind <;> first | rfl | cases hkind
  obtain ⟨c, more, rest, hvalue, hlexes⟩ := hlegible.lexes hlexeme
  rw [hvalue]
  exact hlexes.standalone_quoted hkind

/-- A number that has a reading stands alone where an operand may end. -/
theorem Item.Legible.standalone_number (hlegible : item.Legible Delimiters.braces)
    (hkind : item.kind = .number) {literal : NumberLiteral}
    (hvalue : NumberLiteral.ofText item.position item.value = .ok literal) :
    Standalone item.kind EndsOperand item.value.toList := by
  obtain ⟨kind, position, value⟩ := item
  subst hkind
  obtain ⟨c, more, rest, hchars, hlexes⟩ := hlegible.lexes rfl
  have hne {text : String}
      (hfault : NumberLiteral.ofText position text = .error .malformed) :
      value.toList ≠ text.toList := by
    intro heq
    rw [String.toList_inj.mp heq] at hvalue
    cases hfault.symm.trans hvalue
  rw [hchars] at hne ⊢
  exact hlexes.standalone_number (hne (ofText_dash position)) (hne (ofText_point position))

/-- A lexeme of a source spells what it is. -/
theorem Item.Legible.spells {delimiters : Delimiters} (hlegible : item.Legible delimiters)
    (hkind : item.kind.isLexeme = true) : item.kind.Spells item.value.toList := by
  obtain ⟨c, more, rest, hvalue, hlexes⟩ := hlegible.lexes hkind
  rw [hvalue]
  exact hlexes.spells

end Standalone

end Stencil.Syntax
