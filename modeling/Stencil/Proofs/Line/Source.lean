import Stencil.Proofs.Lexing.Punctuation

/-!
# Line templates

A line template is a text with paths in it (`LineTemplate`): texts without a left bracket, and
between them paths of names, each between brackets. `LineTemplate.source` writes it. A line is its
own scan: the texts and the segments of the paths are the items, whatever the texts hold besides
left brackets and whatever names the segments are (`LineTemplate.scans`).
-/

set_option autoImplicit false
set_option relaxedAutoImplicit false

namespace Stencil

open Syntax

/-! ### Lines -/

namespace LineTemplate

/-- A segment of a path: characters of names, of which the first is no digit. -/
structure Segment where
  first : Char
  rest : List Char
  first_named : isNameChar first = true
  first_no_digit : first.isDigit = false
  rest_named : ∀ c ∈ rest, isNameChar c = true

/-- The name that a segment is. -/
def Segment.name (segment : Segment) : String := String.ofList (segment.first :: segment.rest)

/-- All characters of a segment are those of names. -/
theorem Segment.named (segment : Segment) :
    ∀ c ∈ segment.first :: segment.rest, isNameChar c = true := by
  intro c hc
  rcases List.mem_cons.mp hc with rfl | hc
  · exact segment.first_named
  · exact segment.rest_named c hc

/-- A path: one segment or more. -/
structure Path where
  first : Segment
  more : List Segment

namespace Path

/-- The segments of a path. -/
def segments (path : Path) : List Segment := path.first :: path.more

/-- The names of a path. -/
def names (path : Path) : List String := path.segments.map Segment.name

end Path

/-- A text without a left bracket. -/
structure Plain where
  text : String
  no_bracket : '[' ∉ text.toList

/-- A path and the text after it. -/
structure Slot where
  path : Path
  after : Plain

/-- What a slot is in a source. -/
def Slot.source (slot : Slot) : String :=
  "[." ++ ".".intercalate slot.path.names ++ "]" ++ slot.after.text

end LineTemplate

/-- A text and the slots after it. -/
structure LineTemplate where
  start : LineTemplate.Plain
  slots : List LineTemplate.Slot

namespace LineTemplate

/-- The source of a line. -/
def source (line : LineTemplate) : String :=
  line.start.text ++ String.join (line.slots.map Slot.source)

example : source ⟨⟨"Hi ", by decide⟩, [⟨⟨⟨'a', [], by decide, by decide, by simp⟩,
    [⟨'é', [], by decide, by decide, by simp⟩]⟩, ⟨"]", by decide⟩⟩]⟩ = "Hi [.a.é]]" := by
  decide

/-! ### Characters -/

/-- What a segment is in a source: its name after a dot. -/
def Segment.chars (segment : Segment) : List Char := '.' :: segment.first :: segment.rest

/-- The characters of segments in a row. -/
def segmentChars (segments : List Segment) : List Char := segments.flatMap Segment.chars

/-- The characters of a text and the slots after it. -/
def charsFrom (text : Plain) : List Slot → List Char
  | [] => text.text.toList
  | slot :: rest =>
    text.text.toList ++ ('[' :: (segmentChars slot.path.segments ++
      (']' :: charsFrom slot.after rest)))

/-- Names between dots are segments in a row after the first dot. -/
theorem toList_intercalate (first : Segment) (more : List Segment) :
    '.' :: (".".intercalate ((first :: more).map Segment.name)).toList =
      segmentChars (first :: more) := by
  induction more generalizing first with
  | nil => simp [segmentChars, Segment.chars, Segment.name]
  | cons second more ih =>
    rw [List.map_cons, List.map_cons, String.intercalate_cons_cons, ← List.map_cons,
      String.toList_append, String.toList_append]
    have hrest := ih second
    simp only [segmentChars, List.flatMap_cons] at hrest ⊢
    rw [← hrest]
    simp [Segment.chars, Segment.name]

theorem Slot.toList_source (slot : Slot) :
    slot.source.toList =
      '[' :: (segmentChars slot.path.segments ++ (']' :: slot.after.text.toList)) := by
  have hpath := toList_intercalate slot.path.first slot.path.more
  change '.' :: (".".intercalate slot.path.names).toList = _ at hpath
  change _ = '[' :: (segmentChars (slot.path.first :: slot.path.more) ++ _)
  rw [← hpath]
  simp [Slot.source]

/-- The characters of a source are those of its texts and slots in a row. -/
theorem toList_source (line : LineTemplate) :
    line.source.toList = charsFrom line.start line.slots := by
  obtain ⟨start, slots⟩ := line
  rw [source, String.toList_append]
  induction slots generalizing start with
  | nil => simp [charsFrom]
  | cons slot rest ih =>
    rw [charsFrom, ← ih slot.after]
    simp [Slot.toList_source, String.join_cons]

/-! ### The scan of a line -/

/-- A segment is an item of its own. -/
def Segment.piece (segment : Segment) : Piece := .item .field segment.chars

/-- The pieces of a text and the slots after it. -/
def piecesFrom (text : Plain) : List Slot → List Piece
  | [] => textPieces text.text.toList
  | slot :: rest =>
    textPieces text.text.toList ++ .opening none ::
      (slot.path.segments.map Segment.piece ++ (.closing none :: piecesFrom slot.after rest))

theorem left_brackets : Delimiters.brackets.left.toList = ['['] := by decide

theorem right_brackets : Delimiters.brackets.right.toList = [']'] := by decide

/-- A name may end at the dot of a segment and at the right bracket. -/
def EndsName (text : List Char) : Prop := ∃ c rest, text = c :: rest ∧ (c = '.' ∨ c = ']')

/-- The characters of segments before a right bracket are where a name may end. -/
theorem endsName_segmentChars (segments : List Segment) (more : List Char) :
    EndsName (segmentChars segments ++ (']' :: more)) := by
  cases segments with
  | nil => exact ⟨']', more, rfl, .inr rfl⟩
  | cons segment rest => exact ⟨'.', _, rfl, .inl rfl⟩

/-- A name may end where the lexer says so. -/
theorem EndsName.atTerminator {text : List Char} (hends : EndsName text) :
    atTerminator Delimiters.brackets text = true := by
  obtain ⟨c, rest, rfl, rfl | rfl⟩ := hends
  · simp [Syntax.atTerminator]
  · simp [Syntax.atTerminator, right_brackets]

/-- A name is read up to where it may end. -/
theorem EndsName.takeWhile_eq {text : List Char} (hends : EndsName text) :
    text.takeWhile isNameChar = [] := by
  have hdot : isNameChar '.' = false := by decide
  have hbracket : isNameChar ']' = false := by decide
  obtain ⟨c, rest, rfl, rfl | rfl⟩ := hends
  · rw [List.takeWhile_cons, hdot]
    rfl
  · rw [List.takeWhile_cons, hbracket]
    rfl

/-- A segment is a lexeme where a name may end behind it. -/
theorem lexeme_segment (segment : Segment) {more : List Char} (hends : EndsName more) :
    lexeme Delimiters.brackets '.' (segment.first :: segment.rest ++ more) =
      .ok (.field, (segment.first :: segment.rest).length) := by
  have htake : (segment.first :: segment.rest ++ more).takeWhile isNameChar =
      segment.first :: segment.rest := by
    rw [List.takeWhile_append_of_pos segment.named, hends.takeWhile_eq, List.append_nil]
  have hstart : atTerminator Delimiters.brackets (segment.first :: segment.rest ++ more) =
      false := by
    have hne {c : Char} (hc : isNameChar c = false) : segment.first ≠ c :=
      ne_of_isNameChar segment.first_named hc
    have hbracket : ']' ≠ segment.first := (hne (by decide)).symm
    simp only [List.cons_append, atTerminator, right_brackets,
      isBlank_of_isNameChar segment.first_named, List.isPrefixOf, List.contains_cons,
      List.contains_nil, Bool.or_eq_false_iff, Bool.and_eq_false_iff, beq_eq_false_iff_ne]
    exact ⟨⟨trivial, hne (by decide), hne (by decide), hne (by decide), hne (by decide),
      hne (by decide), hne (by decide), trivial⟩, .inl hbracket⟩
  rw [lexeme_eq_ok_iff]
  refine .field segment.first_no_digit (signedName_eq_ok_iff.mpr (.inr ⟨hstart, ?_⟩))
  change nameLexeme Delimiters.brackets .field (segment.first :: segment.rest ++ more) = _
  rw [nameLexeme_eq_ok_iff, htake, List.drop_left]
  exact ⟨rfl, rfl, hends.atTerminator⟩

/-- No right bracket starts a segment. -/
theorem closing?_segment (rest : List Char) :
    closing? Delimiters.brackets ('.' :: rest) = none := by
  have hblank : isBlank '.' = false := by decide
  simp [closing?, startsWithRightMarker_cons, hblank, right_brackets, List.isPrefixOf]

/-- A right bracket closes an action without a marker. -/
theorem closes_bracket (more : List Char) :
    Closes Delimiters.brackets (']' :: more) ⟨none, [], more⟩ := by
  have hblank : isBlank ']' = false := by decide
  refine ⟨by simp [rightMarker, right_brackets], ?_, by simp, fun _ ↦ rfl, by simp⟩
  simp [closing?, startsWithRightMarker_cons, hblank, right_brackets, List.isPrefixOf]

/-- Segments in a row and the right bracket after them are scanned one by one. -/
theorem scans_segments (segments : List Segment) {more : List Char} {pieces : List Piece}
    (hmore : Scans Delimiters.brackets .outside more pieces none) :
    Scans Delimiters.brackets (.inside 0) (segmentChars segments ++ (']' :: more))
      (segments.map Segment.piece ++ (.closing none :: pieces)) none := by
  induction segments with
  | nil => simpa [segmentChars, blankPieces] using Scans.close (closes_bracket more) hmore
  | cons segment rest ih =>
    have hlexeme := lexeme_segment segment (endsName_segmentChars rest more)
    have hscans := Scans.item (closing?_segment _) hlexeme rfl ih
    simpa [segmentChars, Segment.chars, Segment.piece] using hscans

/-- The first slot after a text opens an action. -/
theorem opens_slot (text : Plain) (segments : List Segment) (hsegments : segments ≠ [])
    (more : List Char) :
    Opens Delimiters.brackets (text.text.toList ++ ('[' :: (segmentChars segments ++ more)))
      ⟨text.text.toList, [], none, segmentChars segments ++ more⟩ := by
  have hfree : ∀ c ∈ text.text.toList, c ∉ Delimiters.brackets.left.toList := by
    intro c hc hleft
    rw [left_brackets, List.mem_singleton] at hleft
    exact text.no_bracket (hleft ▸ hc)
  have hfound := findPattern_left_eq_some hfree (segmentChars segments ++ more)
  obtain ⟨segment, rest, rfl⟩ := List.exists_cons_of_ne_nil hsegments
  rw [left_brackets] at hfound
  refine ⟨by simp [leftMarker, left_brackets], ?_, by simp, fun _ ↦ ⟨rfl, rfl⟩, by simp⟩
  simpa [left_brackets] using hfound

/-- A text and the slots after it are scanned as their pieces. -/
theorem scansFrom (text : Plain) (slots : List Slot) :
    Scans Delimiters.brackets .outside (charsFrom text slots) (piecesFrom text slots) none := by
  induction slots generalizing text with
  | nil =>
    refine .plain (findPattern_left_eq_none fun c hc hleft ↦ ?_)
    rw [left_brackets, List.mem_singleton] at hleft
    exact text.no_bracket (hleft ▸ hc)
  | cons slot rest ih =>
    have hinside := scans_segments slot.path.segments (ih slot.after)
    have hopens := opens_slot text slot.path.segments (by simp [Path.segments])
      (']' :: charsFrom slot.after rest)
    have haction : ¬ ['/', '*'] <+: segmentChars slot.path.segments ++
        (']' :: charsFrom slot.after rest) := by
      simp [Path.segments, segmentChars, Segment.chars, List.cons_prefix_cons]
    have hscans := Scans.action hopens haction hinside
    simpa [charsFrom, piecesFrom, Head.pieces, blankPieces] using hscans

/-- A line is scanned as its texts and segments. -/
theorem scans (line : LineTemplate) :
    Scans Delimiters.brackets .outside line.source.toList (piecesFrom line.start line.slots)
      none := by
  rw [toList_source]
  exact scansFrom line.start line.slots

end LineTemplate

end Stencil
