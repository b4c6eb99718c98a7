import Mathlib.Data.List.DropRight
import Stencil.Proofs.Lexing.Lexeme

/-!
# Scans of a source

The lexer drops some of a source: trim markers, the blanks that they take away, and the delimiters
of comments. A scan keeps them. It tells a source from its first character to its last as pieces
(`Piece`), of which some give an item and others do not, so that the source can be had back from
its scan (`texts`), with the same delimiters or with others.

`scan` computes the pieces of a source and the message that stops the lexer, if there is one.
`Scans` is the same as a relation, with the text taken apart in each rule; `scans_scan` proves that
the computed scan satisfies it, and `Scans.lexFrom_eq` that the items of any scan are those of the
lexer. What is true of a step of the lexer is therefore proved by induction on `Scans`, one case
for each way in which a source can go on.
-/

set_option autoImplicit false
set_option relaxedAutoImplicit false

namespace Stencil.Syntax

/-! ### Pieces -/

/-- The text of a left delimiter's trim marker, which is kept by its blank. -/
def leftMarker : Option Char → List Char
  | none => []
  | some blank => ['-', blank]

/-- The text of a right delimiter's trim marker, which is kept by its blank. -/
def rightMarker : Option Char → List Char
  | none => []
  | some blank => [blank, '-']

/-- A stretch of a source. A delimiter is kept with its trim marker. -/
inductive Piece
  /-- A stretch of text outside actions, or a lexeme inside one. -/
  | item (kind : ItemKind) (text : List Char)
  /-- The left delimiter of an action. -/
  | opening (marker : Option Char)
  /-- The right delimiter of an action. -/
  | closing (marker : Option Char)
  /-- A comment between its delimiters. -/
  | comment (left : Option Char) (text : List Char) (right : Option Char)
  /-- The left delimiter of a comment that cannot be read. -/
  | broken (marker : Option Char)
  /-- Blanks that a trim marker takes away from the text beyond its delimiter. -/
  | blanks (text : List Char)
deriving DecidableEq, Repr

/-- The text of a piece in a source with the given delimiters. -/
def Piece.text (delimiters : Delimiters) : Piece → List Char
  | item _ text => text
  | opening marker => delimiters.left.toList ++ leftMarker marker
  | closing marker => rightMarker marker ++ delimiters.right.toList
  | comment left text right =>
    delimiters.left.toList ++ leftMarker left ++ text ++ rightMarker right ++
      delimiters.right.toList
  | broken marker => delimiters.left.toList ++ leftMarker marker
  | blanks text => text

/-- The text of pieces in a row. -/
def texts (delimiters : Delimiters) (pieces : List Piece) : List Char :=
  pieces.flatMap (Piece.text delimiters)

/-- The item that a piece at a position gives, if it gives one. -/
def Piece.item? (delimiters : Delimiters) (position : Position) : Piece → Option Item
  | item kind text => some ⟨kind, position, String.ofList text⟩
  | opening _ => some ⟨.leftDelim, position, delimiters.left⟩
  | closing marker =>
    some ⟨.rightDelim, position.advance (rightMarker marker), delimiters.right⟩
  | comment left text _ =>
    some ⟨.comment, position.advance (delimiters.left.toList ++ leftMarker left),
      String.ofList text⟩
  | broken _ => none
  | blanks _ => none

/-- The items of pieces in a row, of which the first starts at a position. -/
def itemsOf (delimiters : Delimiters) (position : Position) : List Piece → List Item
  | [] => []
  | piece :: rest =>
    (piece.item? delimiters position).toList ++
      itemsOf delimiters (position.advance (piece.text delimiters)) rest

/-- The last item of a source: its end, or the message that stops the lexer. -/
def lastItem (position : Position) : Option String → Item
  | none => ⟨.eof, position, ""⟩
  | some message => ⟨.error, position, message⟩

section Pieces

variable {delimiters : Delimiters}

@[simp]
theorem texts_nil : texts delimiters [] = [] := rfl

@[simp]
theorem texts_cons (piece : Piece) (rest : List Piece) :
    texts delimiters (piece :: rest) = piece.text delimiters ++ texts delimiters rest := by
  simp [texts]

@[simp]
theorem texts_append (first second : List Piece) :
    texts delimiters (first ++ second) = texts delimiters first ++ texts delimiters second := by
  simp [texts]

@[simp]
theorem itemsOf_nil (position : Position) : itemsOf delimiters position [] = [] := rfl

/-- The items of two rows of pieces are those of the first and, from where it ends, those of the
second. -/
theorem itemsOf_append (position : Position) (first second : List Piece) :
    itemsOf delimiters position (first ++ second) =
      itemsOf delimiters position first ++
        itemsOf delimiters (position.advance (texts delimiters first)) second := by
  induction first generalizing position with
  | nil => rfl
  | cons piece rest ih =>
    simp only [List.cons_append, itemsOf, ih, texts_cons, Position.advance_append,
      List.append_assoc]

end Pieces

/-- The pieces of a scan and the message that stops the lexer. -/
structure Scan where
  pieces : List Piece
  fault : Option String
deriving DecidableEq, Repr

/-- A scan with pieces in front of it. -/
def Scan.after (scan : Scan) (pieces : List Piece) : Scan :=
  ⟨pieces ++ scan.pieces, scan.fault⟩

/-- The items of a scan that starts at a position. -/
def Scan.items (delimiters : Delimiters) (position : Position) (scan : Scan) : List Item :=
  itemsOf delimiters position scan.pieces ++
    [lastItem (position.advance (texts delimiters scan.pieces)) scan.fault]

/-- The items of a scan are those of its first pieces and then those of the rest. -/
theorem Scan.items_append (delimiters : Delimiters) (position : Position)
    (first second : List Piece) (fault : Option String) :
    Scan.items delimiters position ⟨first ++ second, fault⟩ =
      itemsOf delimiters position first ++
        Scan.items delimiters (position.advance (texts delimiters first)) ⟨second, fault⟩ := by
  simp only [Scan.items, itemsOf_append, texts_append, Position.advance_append,
    List.append_assoc]

/-! ### The parts of a text -/

/-- Where the lexer is: outside actions, or inside one with some parentheses open. -/
inductive Mode
  | outside
  | inside (depth : Nat)
deriving DecidableEq, Repr

/-- The parts of a text around its first left delimiter: the text item before it, the blanks that
its trim marker takes away, the blank of the marker and what follows. -/
structure Head where
  value : List Char
  blanks : List Char
  marker : Option Char
  body : List Char

/-- The parts of a text after a right delimiter at its start: the blank of the trim marker, the
blanks that the marker takes away and what follows. -/
structure Tail where
  marker : Option Char
  blanks : List Char
  rest : List Char

/-- A stretch of text as pieces: none if it is empty. -/
def textPieces (text : List Char) : List Piece :=
  if text = [] then [] else [.item .text text]

/-- Blanks that are taken away as pieces: none if there are none. -/
def blankPieces (text : List Char) : List Piece :=
  if text = [] then [] else [.blanks text]

/-- The pieces before a left delimiter. -/
def Head.pieces (head : Head) : List Piece := textPieces head.value ++ blankPieces head.blanks

/-- The blank of the trim marker that a text after a left delimiter starts with. -/
def markerBlank? : List Char → Option Char
  | '-' :: c :: _ => if isBlank c then some c else none
  | _ => none

/-- The parts of a text around a left delimiter, from what stands before it and after it. -/
def Head.around (before after : List Char) : Head :=
  match markerBlank? after with
  | none => ⟨before, [], none, after⟩
  | some blank =>
    ⟨trimRight before, before.rtakeWhile isBlank, some blank, after.drop trimMarkerLength⟩

/-- The parts of a text around its first left delimiter, if it has one. -/
def head? (delimiters : Delimiters) (text : List Char) : Option Head :=
  (findPattern delimiters.left.toList text).map fun length =>
    Head.around (text.take length) (text.drop (length + delimiters.left.toList.length))

/-- The parts of a text after a right delimiter at its start, whose trim marker is there or not. -/
def Tail.behind (delimiters : Delimiters) (text : List Char) : Bool → Tail
  | false => ⟨none, [], text.drop delimiters.right.toList.length⟩
  | true =>
    let after := text.drop (trimMarkerLength + delimiters.right.toList.length)
    ⟨text.head?, after.takeWhile isBlank, after.dropWhile isBlank⟩

/-- The parts of a text after a right delimiter, if it starts with one. -/
def tail? (delimiters : Delimiters) (text : List Char) : Option Tail :=
  (closing? delimiters text).map (Tail.behind delimiters text)

/-- The number of parentheses that are open after an item, unless the item closes one too many. -/
def nextDepth (depth : Nat) (kind : ItemKind) : Option Nat :=
  if kind = .leftParen then some (depth + 1)
  else if kind = .rightParen then if depth = 0 then none else some (depth - 1)
  else some depth

/-- Whether a text starts with a blank. -/
def startsBlank (text : List Char) : Bool := text.head?.any isBlank

/-- Whether a text ends with a blank. -/
def endsBlank (text : List Char) : Bool := text.getLast?.any isBlank

/-- That `head` are the parts of a text around its first left delimiter. -/
structure Opens (delimiters : Delimiters) (text : List Char) (head : Head) : Prop where
  text_eq : text =
    head.value ++ head.blanks ++ (delimiters.left.toList ++ (leftMarker head.marker ++ head.body))
  first : findPattern delimiters.left.toList text = some (head.value ++ head.blanks).length
  blanks : ∀ c ∈ head.blanks, isBlank c
  unmarked : head.marker = none → head.blanks = [] ∧ markerBlank? head.body = none
  marked : ∀ blank, head.marker = some blank → isBlank blank ∧ endsBlank head.value = false

/-- That `tail` are the parts of a text after a right delimiter at its start. -/
structure Closes (delimiters : Delimiters) (text : List Char) (tail : Tail) : Prop where
  text_eq : text =
    rightMarker tail.marker ++ (delimiters.right.toList ++ (tail.blanks ++ tail.rest))
  closing : closing? delimiters text = some tail.marker.isSome
  blanks : ∀ c ∈ tail.blanks, isBlank c
  unmarked : tail.marker = none → tail.blanks = []
  marked : ∀ blank, tail.marker = some blank → isBlank blank ∧ startsBlank tail.rest = false

/-- Where a pattern is found, it stands. -/
theorem drop_findPattern {pattern text : List Char} {length : Nat}
    (hfound : findPattern pattern text = some length) : pattern <+: text.drop length := by
  induction text generalizing length with
  | nil =>
    simp only [findPattern] at hfound
    split at hfound <;> simp_all
  | cons c rest ih =>
    simp only [findPattern] at hfound
    split at hfound
    · rename_i hprefix
      cases hfound
      simpa using hprefix
    · obtain ⟨shorter, hshorter, rfl⟩ := Option.map_eq_some_iff.mp hfound
      simpa using ih hshorter

/-- A trimmed text does not end with a blank. -/
theorem endsBlank_trimRight (text : List Char) : endsBlank (trimRight text) = false := by
  by_cases hempty : trimRight text = []
  · simp [endsBlank, hempty]
  · have hlast := List.rdropWhile_last_not isBlank text hempty
    change ¬ isBlank ((trimRight text).getLast hempty) at hlast
    simpa [endsBlank, List.getLast?_eq_some_getLast hempty] using hlast

/-- Trimming takes away the blanks behind a text that does not end with one. -/
theorem trimRight_append {value blanks : List Char} (hblanks : ∀ c ∈ blanks, isBlank c)
    (hvalue : endsBlank value = false) : trimRight (value ++ blanks) = value := by
  rw [trimRight, List.reverse_append, List.dropWhile_append_of_pos (by simpa using hblanks)]
  change value.rdropWhile isBlank = value
  rw [List.rdropWhile_eq_self_iff]
  intro hne
  simpa [endsBlank, List.getLast?_eq_some_getLast hne] using hvalue

/-- The blank of a marker is that of a text which starts with a dash and a blank. -/
theorem eq_of_markerBlank? {text : List Char} {blank : Char}
    (hmarker : markerBlank? text = some blank) :
    isBlank blank ∧ text = leftMarker (some blank) ++ text.drop trimMarkerLength := by
  unfold markerBlank? at hmarker
  split at hmarker
  · split at hmarker
    · rename_i hblank
      cases hmarker
      exact ⟨hblank, rfl⟩
    · cases hmarker
  · cases hmarker

/-- The parts that `head?` finds are those of the text. -/
theorem opens_of_head? {delimiters : Delimiters} {text : List Char} {head : Head}
    (hhead : head? delimiters text = some head) : Opens delimiters text head := by
  obtain ⟨length, hfound, rfl⟩ := Option.map_eq_some_iff.mp hhead
  obtain ⟨after, hafter⟩ := drop_findPattern hfound
  have hbound := findPattern_le text hfound
  have hrest : text.drop (length + delimiters.left.toList.length) = after := by
    rw [← List.drop_drop, ← hafter, List.drop_left]
  have htext : text = text.take length ++ (delimiters.left.toList ++ after) := by
    rw [hafter, List.take_append_drop]
  have hlength : (text.take length).length = length := by
    rw [List.length_take]
    omega
  rw [hrest]
  unfold Head.around
  split
  next hmarker =>
    exact ⟨by simpa [leftMarker] using htext, by simpa [hlength] using hfound, by simp,
      fun _ ↦ ⟨rfl, hmarker⟩, by simp⟩
  next blank hmarker =>
    obtain ⟨hblank, hsplit⟩ := eq_of_markerBlank? hmarker
    have hbefore : trimRight (text.take length) ++ (text.take length).rtakeWhile isBlank =
        text.take length :=
      List.rdropWhile_append_rtakeWhile
    refine ⟨?_, ?_, fun c hc ↦ List.mem_rtakeWhile_imp hc, by simp, ?_⟩
    · rw [hbefore, ← hsplit]
      exact htext
    · rw [hbefore, hlength]
      exact hfound
    · rintro _ ⟨⟩
      exact ⟨hblank, endsBlank_trimRight _⟩

/-- A text has no parts around a left delimiter exactly when it has no left delimiter. -/
theorem head?_eq_none_iff {delimiters : Delimiters} {text : List Char} :
    head? delimiters text = none ↔ findPattern delimiters.left.toList text = none :=
  Option.map_eq_none_iff

/-- A text that starts with the marker of a right delimiter starts with a blank and a dash. -/
theorem eq_of_startsWithRightMarker {text : List Char} (hmarker : startsWithRightMarker text) :
    ∃ blank, isBlank blank ∧ text = blank :: '-' :: text.drop trimMarkerLength := by
  unfold startsWithRightMarker at hmarker
  split at hmarker
  · exact ⟨_, hmarker, rfl⟩
  · cases hmarker

/-- A right delimiter stands where `closing?` finds one. -/
theorem eq_of_closing? {delimiters : Delimiters} {text : List Char} {trimmed : Bool}
    (hclosing : closing? delimiters text = some trimmed) :
    ∃ marker rest, trimmed = Option.isSome marker ∧
      text = rightMarker marker ++ (delimiters.right.toList ++ rest) ∧
      ∀ blank, marker = some blank → isBlank blank := by
  unfold closing? at hclosing
  split at hclosing
  · rename_i hmarked
    rw [Bool.and_eq_true] at hmarked
    obtain ⟨blank, hblank, htext⟩ := eq_of_startsWithRightMarker hmarked.1
    obtain ⟨rest, hrest⟩ := List.isPrefixOf_iff_prefix.mp hmarked.2
    cases hclosing
    refine ⟨some blank, rest, rfl, ?_, by rintro _ ⟨⟩; exact hblank⟩
    rw [hrest]
    exact htext
  · split at hclosing
    · rename_i hright
      obtain ⟨rest, hrest⟩ := List.isPrefixOf_iff_prefix.mp hright
      cases hclosing
      exact ⟨none, rest, rfl, hrest.symm, by simp⟩
    · cases hclosing

/-- The parts that `tail?` finds are those of the text. -/
theorem closes_of_tail? {delimiters : Delimiters} {text : List Char} {tail : Tail}
    (htail : tail? delimiters text = some tail) : Closes delimiters text tail := by
  obtain ⟨trimmed, hclosing, rfl⟩ := Option.map_eq_some_iff.mp htail
  obtain ⟨marker, rest, rfl, htext, hblank⟩ := eq_of_closing? hclosing
  cases marker with
  | none =>
    have hrest : text.drop delimiters.right.toList.length = rest := by
      rw [htext]
      simp [rightMarker]
    refine ⟨?_, hclosing, by simp [Tail.behind], fun _ ↦ rfl, by simp [Tail.behind]⟩
    simpa [Tail.behind, rightMarker, hrest] using htext
  | some blank =>
    have hrest : text.drop (trimMarkerLength + delimiters.right.toList.length) = rest := by
      rw [htext, ← List.append_assoc, List.drop_left']
      simp only [rightMarker, trimMarkerLength, List.length_append, List.length_cons,
        List.length_nil]
    have hhead : text.head? = some blank := by rw [htext]; rfl
    refine ⟨?_, ?_, fun c hc ↦ List.mem_takeWhile_imp hc, ?_, ?_⟩
    · simp only [Tail.behind, Option.isSome_some, hrest, hhead]
      rw [List.takeWhile_append_dropWhile]
      exact htext
    · simpa only [Tail.behind, Option.isSome_some, hhead] using hclosing
    · simp [Tail.behind, hhead]
    · intro other hother
      simp only [Tail.behind, Option.isSome_some, hhead] at hother
      cases hother
      refine ⟨hblank blank rfl, ?_⟩
      simp only [Tail.behind, Option.isSome_some, hrest, startsBlank]
      have hnot := List.head?_dropWhile_not isBlank rest
      cases hdrop : (rest.dropWhile isBlank).head? with
      | none => rfl
      | some c => simpa [hdrop] using hnot

/-- What follows the parts of a text around a left delimiter is shorter than the text. -/
theorem Opens.body_shorter {delimiters : Delimiters} {text : List Char} {head : Head}
    (hopens : Opens delimiters text head) : head.body.length < text.length := by
  have hleft := delimiters.left_length_pos
  have hlength := congrArg List.length hopens.text_eq
  simp only [List.length_append] at hlength
  omega

/-- What follows the parts of a text after a right delimiter is shorter than the text. -/
theorem Closes.rest_shorter {delimiters : Delimiters} {text : List Char} {tail : Tail}
    (hcloses : Closes delimiters text tail) : tail.rest.length < text.length := by
  have hright := delimiters.right_length_pos
  have hlength := congrArg List.length hcloses.text_eq
  simp only [List.length_append] at hlength
  omega

/-! ### The scan of a source -/

/-- The scan of a text in a mode. -/
def scan (delimiters : Delimiters) : Mode → List Char → Scan
  | .outside, text =>
    match found : head? delimiters text with
    | none => ⟨textPieces text, none⟩
    | some head =>
      if ['/', '*'].isPrefixOf head.body then
        match commentLength head.body with
        | none => ⟨head.pieces ++ [.broken head.marker], some "unclosed comment"⟩
        | some length =>
          match closed : tail? delimiters (head.body.drop length) with
          | none =>
            ⟨head.pieces ++ [.broken head.marker],
              some "comment ends before closing delimiter"⟩
          | some tail =>
            (scan delimiters .outside tail.rest).after
              (head.pieces ++ .comment head.marker (head.body.take length) tail.marker ::
                blankPieces tail.blanks)
      else
        (scan delimiters (.inside 0) head.body).after (head.pieces ++ [.opening head.marker])
  | .inside depth, text =>
    match _ : tail? delimiters text with
    | some tail =>
      if depth = 0 then
        (scan delimiters .outside tail.rest).after
          (.closing tail.marker :: blankPieces tail.blanks)
      else ⟨[], some "unclosed left paren"⟩
    | none =>
      match text with
      | [] => ⟨[], some "unclosed action"⟩
      | c :: rest =>
        match lexeme delimiters c rest with
        | .error message => ⟨[], some message⟩
        | .ok (kind, length) =>
          match nextDepth depth kind with
          | none =>
            ⟨[.item kind (c :: rest.take length)], some "unexpected right paren"⟩
          | some deeper =>
            (scan delimiters (.inside deeper) (rest.drop length)).after
              [.item kind (c :: rest.take length)]
termination_by _ text => text.length
decreasing_by
  · have hbody := (opens_of_head? found).body_shorter
    have hrest := (closes_of_tail? closed).rest_shorter
    simp only [List.length_drop] at hrest
    omega
  · exact (opens_of_head? found).body_shorter
  · exact (closes_of_tail? (by assumption)).rest_shorter
  · simp only [List.length_drop, List.length_cons]
    omega

/-! ### Scans as a relation -/

/-- Why a comment whose body starts a text cannot be read. -/
inductive BreaksComment (delimiters : Delimiters) (body : List Char) : String → Prop
  | unclosed (hlength : commentLength body = none) :
    BreaksComment delimiters body "unclosed comment"
  | undelimited {length : Nat} (hlength : commentLength body = some length)
    (hclosing : closing? delimiters (body.drop length) = none) :
    BreaksComment delimiters body "comment ends before closing delimiter"

/-- Why the lexer stops at the start of a text inside an action. -/
inductive StopsAction (delimiters : Delimiters) (depth : Nat) : List Char → String → Prop
  | atEnd : StopsAction delimiters depth [] "unclosed action"
  | inParens {text : List Char} {trimmed : Bool} (hdepth : depth ≠ 0)
    (hclosing : closing? delimiters text = some trimmed) :
    StopsAction delimiters depth text "unclosed left paren"
  | atLexeme {c : Char} {rest : List Char} {message : String}
    (hclosing : closing? delimiters (c :: rest) = none)
    (hlexeme : lexeme delimiters c rest = .error message) :
    StopsAction delimiters depth (c :: rest) message

/-- That a text in a mode is scanned as pieces, up to its end or to a message. -/
inductive Scans (delimiters : Delimiters) : Mode → List Char → List Piece → Option String → Prop
  /-- The text after the last action or comment. -/
  | plain {text : List Char} (habsent : findPattern delimiters.left.toList text = none) :
    Scans delimiters .outside text (textPieces text) none
  /-- The left delimiter of an action. -/
  | action {text : List Char} {head : Head} {pieces : List Piece} {fault : Option String}
    (hopens : Opens delimiters text head) (haction : ¬ ['/', '*'] <+: head.body)
    (hinside : Scans delimiters (.inside 0) head.body pieces fault) :
    Scans delimiters .outside text (head.pieces ++ .opening head.marker :: pieces) fault
  /-- A comment. -/
  | comment {text content : List Char} {head : Head} {tail : Tail} {pieces : List Piece}
    {fault : Option String} {rest : List Char} (hopens : Opens delimiters text head)
    (hbody : head.body = content ++ rest) (hcomment : ['/', '*'] <+: head.body)
    (hlength : commentLength head.body = some content.length)
    (hcloses : Closes delimiters rest tail)
    (houtside : Scans delimiters .outside tail.rest pieces fault) :
    Scans delimiters .outside text
      (head.pieces ++ .comment head.marker content tail.marker ::
        (blankPieces tail.blanks ++ pieces)) fault
  /-- A comment that cannot be read. -/
  | brokenComment {text : List Char} {head : Head} {message : String}
    (hopens : Opens delimiters text head) (hcomment : ['/', '*'] <+: head.body)
    (hbreaks : BreaksComment delimiters head.body message) :
    Scans delimiters .outside text (head.pieces ++ [.broken head.marker]) (some message)
  /-- The right delimiter of an action. -/
  | close {text : List Char} {tail : Tail} {pieces : List Piece} {fault : Option String}
    (hcloses : Closes delimiters text tail)
    (houtside : Scans delimiters .outside tail.rest pieces fault) :
    Scans delimiters (.inside 0) text
      (.closing tail.marker :: (blankPieces tail.blanks ++ pieces)) fault
  /-- An item inside an action. -/
  | item {depth deeper : Nat} {c : Char} {value rest : List Char} {kind : ItemKind}
    {pieces : List Piece} {fault : Option String}
    (hclosing : closing? delimiters (c :: (value ++ rest)) = none)
    (hlexeme : lexeme delimiters c (value ++ rest) = .ok (kind, value.length))
    (hdepth : nextDepth depth kind = some deeper)
    (hinside : Scans delimiters (.inside deeper) rest pieces fault) :
    Scans delimiters (.inside depth) (c :: (value ++ rest)) (.item kind (c :: value) :: pieces)
      fault
  /-- A parenthesis too many. -/
  | strayParen {c : Char} {value rest : List Char}
    (hclosing : closing? delimiters (c :: (value ++ rest)) = none)
    (hlexeme : lexeme delimiters c (value ++ rest) = .ok (.rightParen, value.length)) :
    Scans delimiters (.inside 0) (c :: (value ++ rest)) [.item .rightParen (c :: value)]
      (some "unexpected right paren")
  /-- An item that cannot be read. -/
  | stop {depth : Nat} {text : List Char} {message : String}
    (hstops : StopsAction delimiters depth text message) :
    Scans delimiters (.inside depth) text [] (some message)

/-- A text without parts after a right delimiter does not start with one. -/
theorem tail?_eq_none_iff {delimiters : Delimiters} {text : List Char} :
    tail? delimiters text = none ↔ closing? delimiters text = none :=
  Option.map_eq_none_iff

/-- A comment lies in the text that it is read from. -/
theorem commentLength_le {text : List Char} {length : Nat}
    (hlength : commentLength text = some length) : length ≤ text.length := by
  obtain ⟨inner, hinner, rfl⟩ := Option.map_eq_some_iff.mp hlength
  have hle := findPattern_le _ hinner
  simp only [List.length_drop, List.length_cons, List.length_nil] at hle
  omega

/-- A comment has both of its marks. -/
theorem marks_of_commentLength {body content rest : List Char} (hbody : body = content ++ rest)
    (hcomment : ['/', '*'] <+: body) (hlength : commentLength body = some content.length) :
    ['/', '*'] <+: content ∧ ['*', '/'] <:+ content := by
  obtain ⟨inner, hinner, htotal⟩ := Option.map_eq_some_iff.mp hlength
  obtain ⟨after, hafter⟩ := drop_findPattern hinner
  refine ⟨List.prefix_of_prefix_length_le hcomment ⟨rest, hbody.symm⟩ (by simp; omega), ?_⟩
  have hend : content.drop (inner + 2) = ['*', '/'] := by
    have htake : content = body.take (inner + 4) := by rw [htotal, hbody, List.take_left]
    rw [List.drop_drop, Nat.add_comm] at hafter
    rw [htake, List.drop_take, ← hafter]
    simp
  exact hend ▸ List.drop_suffix _ content

/-- Only a closing parenthesis where none is open is one too many. -/
theorem nextDepth_eq_none_iff {depth : Nat} {kind : ItemKind} :
    nextDepth depth kind = none ↔ kind = .rightParen ∧ depth = 0 := by
  unfold nextDepth
  split
  · rename_i hkind
    simp [hkind]
  · split <;> simp_all

/-- The text that a lexeme is read from is what belongs to it and the rest. -/
theorem split_of_lexeme {delimiters : Delimiters} {c : Char} {rest : List Char}
    {kind : ItemKind} {length : Nat} (hlexeme : lexeme delimiters c rest = .ok (kind, length)) :
    ∃ value more, rest = value ++ more ∧ length = value.length := by
  have hle := (lexes_of_lexeme hlexeme).length_le
  refine ⟨rest.take length, rest.drop length, (List.take_append_drop length rest).symm, ?_⟩
  rw [List.length_take]
  omega

/-- The computed scan is a scan. -/
theorem scans_scan (delimiters : Delimiters) (mode : Mode) (text : List Char) :
    Scans delimiters mode text (scan delimiters mode text).pieces
      (scan delimiters mode text).fault := by
  fun_induction scan delimiters mode text with
  | case1 text hhead => exact .plain (head?_eq_none_iff.mp hhead)
  | case2 text head hhead hcomment hlength =>
    exact .brokenComment (opens_of_head? hhead) (List.isPrefixOf_iff_prefix.mp hcomment)
      (.unclosed hlength)
  | case3 text head hhead hcomment length hlength htail =>
    exact .brokenComment (opens_of_head? hhead) (List.isPrefixOf_iff_prefix.mp hcomment)
      (.undelimited hlength (tail?_eq_none_iff.mp htail))
  | case4 text head hhead hcomment length hlength tail htail ih =>
    have htake : (head.body.take length).length = length := by
      have hle := commentLength_le hlength
      rw [List.length_take]
      omega
    rw [Scan.after, List.append_assoc]
    exact .comment (opens_of_head? hhead) (List.take_append_drop length head.body).symm
      (List.isPrefixOf_iff_prefix.mp hcomment) (by rw [htake]; exact hlength)
      (closes_of_tail? htail) ih
  | case5 text head hhead hcomment ih =>
    rw [Scan.after, List.append_assoc]
    exact .action (opens_of_head? hhead) (by simpa using hcomment) ih
  | case6 text tail htail ih =>
    exact .close (closes_of_tail? htail) ih
  | case7 depth text tail htail hdepth =>
    exact .stop (.inParens hdepth (closes_of_tail? htail).closing)
  | case8 depth =>
    exact .stop .atEnd
  | case9 depth c rest htail message hlexeme =>
    exact .stop (.atLexeme (tail?_eq_none_iff.mp htail) hlexeme)
  | case10 depth c rest htail kind length hlexeme hdepth =>
    obtain ⟨rfl, rfl⟩ := nextDepth_eq_none_iff.mp hdepth
    rw [tail?_eq_none_iff] at htail
    obtain ⟨value, more, rfl, rfl⟩ := split_of_lexeme hlexeme
    rw [List.take_left]
    exact .strayParen htail hlexeme
  | case11 depth c rest htail kind length hlexeme deeper hdepth ih =>
    rw [tail?_eq_none_iff] at htail
    obtain ⟨value, more, rfl, rfl⟩ := split_of_lexeme hlexeme
    rw [List.drop_left] at ih
    rw [Scan.after, List.take_left, List.drop_left]
    exact .item htail hlexeme hdepth ih

/-! ### The items of a scan -/

section Items

variable {delimiters : Delimiters}

@[simp]
theorem texts_textPieces (text : List Char) : texts delimiters (textPieces text) = text := by
  unfold textPieces
  split <;> simp_all [Piece.text]

@[simp]
theorem texts_blankPieces (text : List Char) : texts delimiters (blankPieces text) = text := by
  unfold blankPieces
  split <;> simp_all [Piece.text]

@[simp]
theorem texts_headPieces (head : Head) :
    texts delimiters head.pieces = head.value ++ head.blanks := by
  simp [Head.pieces]

@[simp]
theorem itemsOf_textPieces (position : Position) (text : List Char) :
    itemsOf delimiters position (textPieces text) = textItem position text := by
  unfold textPieces textItem
  split <;> simp_all [itemsOf, Piece.item?]

@[simp]
theorem itemsOf_blankPieces (position : Position) (text : List Char) :
    itemsOf delimiters position (blankPieces text) = [] := by
  unfold blankPieces
  split <;> simp_all [itemsOf, Piece.item?]

@[simp]
theorem itemsOf_headPieces (position : Position) (head : Head) :
    itemsOf delimiters position head.pieces = textItem position head.value := by
  simp [Head.pieces, itemsOf_append]

/-- The items of a scan are that of its first piece, if it has one, and then those of the rest. -/
theorem Scan.items_cons (position : Position) (piece : Piece) (pieces : List Piece)
    (fault : Option String) :
    Scan.items delimiters position ⟨piece :: pieces, fault⟩ =
      (piece.item? delimiters position).toList ++
        Scan.items delimiters (position.advance (piece.text delimiters)) ⟨pieces, fault⟩ := by
  rw [← List.singleton_append (l := pieces), Scan.items_append]
  simp [itemsOf]

/-- Blanks that are taken away move what follows them. -/
theorem Scan.items_blankPieces (position : Position) (text : List Char) (pieces : List Piece)
    (fault : Option String) :
    Scan.items delimiters position ⟨blankPieces text ++ pieces, fault⟩ =
      Scan.items delimiters (position.advance text) ⟨pieces, fault⟩ := by
  rw [Scan.items_append, itemsOf_blankPieces, texts_blankPieces, List.nil_append]

/-- What stands before a left delimiter is a text, if it is not empty, and blanks. -/
theorem Scan.items_headPieces (position : Position) (head : Head) (pieces : List Piece)
    (fault : Option String) :
    Scan.items delimiters position ⟨head.pieces ++ pieces, fault⟩ =
      textItem position head.value ++
        Scan.items delimiters (position.advance (head.value ++ head.blanks))
          ⟨pieces, fault⟩ := by
  rw [Scan.items_append, itemsOf_headPieces, texts_headPieces]

/-- A scan reads its text up to an error, or all of it. -/
theorem Scans.text_eq {mode : Mode} {text : List Char} {pieces : List Piece}
    {fault : Option String} (hscans : Scans delimiters mode text pieces fault) :
    ∃ unread, text = texts delimiters pieces ++ unread ∧ (fault = none → unread = []) := by
  induction hscans with
  | plain => exact ⟨[], by simp, fun _ ↦ rfl⟩
  | action hopens _ _ ih =>
    obtain ⟨unread, hbody, hnone⟩ := ih
    refine ⟨unread, ?_, hnone⟩
    conv_lhs => rw [hopens.text_eq, hbody]
    simp [Piece.text]
  | comment hopens hbody _ _ hcloses _ ih =>
    obtain ⟨unread, hrest, hnone⟩ := ih
    refine ⟨unread, ?_, hnone⟩
    conv_lhs => rw [hopens.text_eq, hbody, hcloses.text_eq, hrest]
    simp [Piece.text]
  | @brokenComment text head message hopens =>
    refine ⟨head.body, ?_, by simp⟩
    conv_lhs => rw [hopens.text_eq]
    simp [Piece.text]
  | close hcloses _ ih =>
    obtain ⟨unread, hrest, hnone⟩ := ih
    refine ⟨unread, ?_, hnone⟩
    conv_lhs => rw [hcloses.text_eq, hrest]
    simp [Piece.text]
  | item _ _ _ _ ih =>
    obtain ⟨unread, hrest, hnone⟩ := ih
    exact ⟨unread, by rw [hrest]; simp [Piece.text], hnone⟩
  | @strayParen _ _ rest => exact ⟨rest, by simp [Piece.text], by simp⟩
  | @stop _ text => exact ⟨text, rfl, by simp⟩

/-- A text has the blank of a marker exactly if it starts with a marker. -/
theorem isSome_markerBlank? (text : List Char) :
    (markerBlank? text).isSome = startsWithLeftMarker text := by
  match text with
  | [] => rfl
  | [c] => by_cases hdash : c = '-' <;> simp [markerBlank?, startsWithLeftMarker, hdash]
  | c :: blank :: rest =>
    by_cases hdash : c = '-'
    · by_cases hblank : isBlank blank = true
      · simp [markerBlank?, startsWithLeftMarker, hdash, hblank]
      · simp [markerBlank?, startsWithLeftMarker, hdash, hblank]
    · simp [markerBlank?, startsWithLeftMarker, hdash]

/-- The lexer sees a trim marker after a left delimiter exactly where the parts of the text have
one. -/
theorem Opens.startsWithLeftMarker_eq {text : List Char} {head : Head}
    (hopens : Opens delimiters text head) :
    startsWithLeftMarker (leftMarker head.marker ++ head.body) = head.marker.isSome := by
  cases hmarker : head.marker with
  | none => simp [leftMarker, ← isSome_markerBlank?, (hopens.unmarked hmarker).2]
  | some blank => simp [leftMarker, startsWithLeftMarker, (hopens.marked blank hmarker).1]

/-- The text before a left delimiter is written without the blanks that its marker takes away. -/
theorem Opens.trimmed_eq {text : List Char} {head : Head} (hopens : Opens delimiters text head) :
    (if head.marker.isSome then trimRight (head.value ++ head.blanks)
      else head.value ++ head.blanks) = head.value := by
  cases hmarker : head.marker with
  | none => simp [(hopens.unmarked hmarker).1]
  | some blank => simpa using trimRight_append hopens.blanks (hopens.marked blank hmarker).2

theorem length_leftMarker (marker : Option Char) :
    (leftMarker marker).length = if marker.isSome then trimMarkerLength else 0 := by
  cases marker <;> rfl

theorem length_rightMarker (marker : Option Char) :
    (rightMarker marker).length = if marker.isSome then trimMarkerLength else 0 := by
  cases marker <;> rfl

/-- No right delimiter stands at the end of a text. -/
theorem closing?_nil : closing? delimiters [] = none := by
  have hright := delimiters.right_length_pos
  cases hchars : delimiters.right.toList with
  | nil => simp [hchars] at hright
  | cons c rest => simp [closing?, startsWithRightMarker, hchars]

/-- What the lexer does with a text that has a left delimiter. -/
theorem lexText_of_opens {text : List Char} {head : Head} (hopens : Opens delimiters text head)
    (position : Position) :
    lexText delimiters position text =
      textItem position head.value ++
        let opening := position.advance (head.value ++ head.blanks)
        let start := opening.advance (delimiters.left.toList ++ leftMarker head.marker)
        if ['/', '*'].isPrefixOf head.body then
          match commentLength head.body with
          | none => [⟨.error, start, "unclosed comment"⟩]
          | some length =>
            let rest := head.body.drop length
            match closing? delimiters rest with
            | none => [⟨.error, start, "comment ends before closing delimiter"⟩]
            | some closed =>
              let after := closingLength delimiters closed rest
              ⟨.comment, start, String.ofList (head.body.take length)⟩ ::
                lexText delimiters
                  ((start.advance (head.body.take length)).advance (rest.take after))
                  (rest.drop after)
        else ⟨.leftDelim, opening, delimiters.left⟩ :: lexAction delimiters 0 start head.body := by
  have htake : text.take (head.value ++ head.blanks).length = head.value ++ head.blanks := by
    conv_lhs => rw [hopens.text_eq]
    exact List.take_left
  have hdrop : text.drop ((head.value ++ head.blanks).length + delimiters.left.toList.length) =
      leftMarker head.marker ++ head.body := by
    conv_lhs => rw [hopens.text_eq]
    rw [← List.drop_drop, List.drop_left, List.drop_left]
  rw [lexText]
  split
  next hnone => simp [hopens.first] at hnone
  next length hfound =>
    rw [hopens.first, Option.some.injEq] at hfound
    subst hfound
    dsimp only
    rewrite [htake, hdrop, hopens.startsWithLeftMarker_eq, hopens.trimmed_eq, ← length_leftMarker,
      List.drop_left, List.take_left,
      Position.advance_append _ delimiters.left.toList (leftMarker head.marker)]
    rfl

/-- A right delimiter with its marker and the blanks that this takes away are what the lexer
passes over. -/
theorem Closes.closingLength_eq {text : List Char} {tail : Tail}
    (hcloses : Closes delimiters text tail) :
    closingLength delimiters tail.marker.isSome text =
      (rightMarker tail.marker ++ (delimiters.right.toList ++ tail.blanks)).length := by
  cases hmarker : tail.marker with
  | none => simp [closingLength, delimiterLength, rightMarker, hcloses.unmarked hmarker]
  | some blank =>
    have hlength : delimiterLength delimiters true =
        (rightMarker tail.marker ++ delimiters.right.toList).length := by
      simp only [delimiterLength, hmarker, rightMarker, trimMarkerLength, if_true,
        List.length_append, List.length_cons, List.length_nil]
    have hdrop : text.drop (delimiterLength delimiters true) = tail.blanks ++ tail.rest := by
      rw [hlength]
      conv_lhs => rw [hcloses.text_eq]
      rw [← List.append_assoc, List.drop_left]
    have htake : (tail.blanks ++ tail.rest).takeWhile isBlank = tail.blanks := by
      have hstart := (hcloses.marked blank hmarker).2
      rw [List.takeWhile_append_of_pos hcloses.blanks]
      cases hrest : tail.rest with
      | nil => simp
      | cons c more => simp_all [startsBlank]
    simp only [closingLength, Option.isSome_some, if_true, hdrop, htake]
    simp only [hlength, hmarker, List.length_append, Nat.add_assoc]

/-- The lexer goes on where the parts of a text after a right delimiter end. -/
theorem Closes.drop_eq {text : List Char} {tail : Tail} (hcloses : Closes delimiters text tail) :
    text.drop (closingLength delimiters tail.marker.isSome text) = tail.rest := by
  rw [hcloses.closingLength_eq]
  conv_lhs => arg 2; rw [hcloses.text_eq]
  rw [show rightMarker tail.marker ++ (delimiters.right.toList ++ (tail.blanks ++ tail.rest)) =
    rightMarker tail.marker ++ (delimiters.right.toList ++ tail.blanks) ++ tail.rest by simp]
  exact List.drop_left

/-- The lexer passes over a right delimiter with its marker and the blanks after it. -/
theorem Closes.take_eq {text : List Char} {tail : Tail} (hcloses : Closes delimiters text tail) :
    text.take (closingLength delimiters tail.marker.isSome text) =
      rightMarker tail.marker ++ (delimiters.right.toList ++ tail.blanks) := by
  rw [hcloses.closingLength_eq]
  conv_lhs => arg 2; rw [hcloses.text_eq]
  rw [show rightMarker tail.marker ++ (delimiters.right.toList ++ (tail.blanks ++ tail.rest)) =
    rightMarker tail.marker ++ (delimiters.right.toList ++ tail.blanks) ++ tail.rest by simp]
  exact List.take_left

/-- The items of a text in a mode. -/
def lexFrom (delimiters : Delimiters) (mode : Mode) (position : Position) (text : List Char) :
    List Item :=
  match mode with
  | .outside => lexText delimiters position text
  | .inside depth => lexAction delimiters depth position text

/-- The items of a text are those of its scans. -/
theorem Scans.lexFrom_eq {mode : Mode} {text : List Char} {pieces : List Piece}
    {fault : Option String} (hscans : Scans delimiters mode text pieces fault)
    (position : Position) :
    lexFrom delimiters mode position text =
      Scan.items delimiters position ⟨pieces, fault⟩ := by
  induction hscans generalizing position with
  | @plain text habsent =>
    change lexText delimiters position text = _
    rw [lexText]
    split
    · simp [Scan.items, lastItem]
    · simp_all
  | @action text head pieces fault hopens haction hinside ih =>
    change lexText delimiters position text = _
    rw [lexText_of_opens hopens, Scan.items_headPieces, Scan.items_cons, ← ih]
    simp only [List.isPrefixOf_iff_prefix, if_neg haction]
    rfl
  | @comment text content head tail pieces fault rest hopens hbody hcomment hlength hcloses
      houtside ih =>
    have hdrop : head.body.drop content.length = rest := by rw [hbody, List.drop_left]
    have htake : head.body.take content.length = content := by rw [hbody, List.take_left]
    change lexText delimiters position text = _
    rw [lexText_of_opens hopens, Scan.items_headPieces, Scan.items_cons, Scan.items_blankPieces,
      ← ih]
    simp only [List.isPrefixOf_iff_prefix, if_pos hcomment, hlength, hdrop, htake,
      hcloses.closing, hcloses.drop_eq, hcloses.take_eq]
    simp [Piece.item?, Piece.text, lexFrom, Position.advance_append]
  | @brokenComment text head message hopens hcomment hbreaks =>
    change lexText delimiters position text = _
    rw [lexText_of_opens hopens]
    simp only [List.isPrefixOf_iff_prefix, if_pos hcomment, Scan.items, itemsOf_append]
    cases hbreaks with
    | unclosed hlength =>
      simp [hlength, itemsOf, Piece.item?, Piece.text, lastItem, Position.advance_append]
    | undelimited hlength hclosing =>
      simp [hlength, hclosing, itemsOf, Piece.item?, Piece.text, lastItem,
        Position.advance_append]
  | @close text tail pieces fault hcloses houtside ih =>
    have hmarker : text.take (if tail.marker.isSome then trimMarkerLength else 0) =
        rightMarker tail.marker := by
      rw [← length_rightMarker]
      conv_lhs => arg 2; rw [hcloses.text_eq]
      exact List.take_left
    rw [Scan.items_cons, Scan.items_blankPieces, ← ih]
    cases text with
    | nil => exact absurd hcloses.rest_shorter (Nat.not_lt_zero _)
    | cons c more =>
      change lexAction delimiters 0 position (c :: more) = _
      rw [lexAction, hcloses.closing]
      simp only [if_true, hmarker, hcloses.drop_eq, hcloses.take_eq]
      simp [Piece.item?, Piece.text, lexFrom, Position.advance_append]
  | @item depth deeper c value rest kind pieces fault hclosing hlexeme hdepth hinside ih =>
    change lexAction delimiters depth position (c :: (value ++ rest)) = _
    rw [lexAction, hclosing, Scan.items_cons, ← ih]
    have hparen : ¬ (kind = .rightParen ∧ depth = 0) :=
      fun hstray ↦ by simp [nextDepth_eq_none_iff.mpr hstray] at hdepth
    have hdeeper : deeper = if kind = .leftParen then depth + 1
        else if kind = .rightParen then depth - 1 else depth := by
      unfold nextDepth at hdepth
      split_ifs at hdepth ⊢ <;> simp_all
    simp [hlexeme, hparen, Piece.item?, Piece.text, lexFrom, hdeeper]
  | @strayParen c value rest hclosing hlexeme =>
    change lexAction delimiters 0 position (c :: (value ++ rest)) = _
    rw [lexAction, hclosing]
    simp [hlexeme, Scan.items, itemsOf, Piece.item?, Piece.text, lastItem]
  | @stop depth text message hstops =>
    change lexAction delimiters depth position text = _
    cases hstops with
    | atEnd =>
      rw [lexAction]
      rfl
    | inParens hdepth hclosing =>
      cases text with
      | nil => simp [closing?_nil] at hclosing
      | cons c rest =>
        rw [lexAction, hclosing]
        simp [hdepth, Scan.items, lastItem]
    | atLexeme hclosing hlexeme =>
      rw [lexAction, hclosing]
      simp [hlexeme, Scan.items, lastItem]

/-- The items of a source are those of its scan. -/
theorem lex_eq (delimiters : Delimiters) (source : String) :
    lex delimiters source =
      (scan delimiters .outside source.toList).items delimiters {} :=
  (scans_scan delimiters .outside source.toList).lexFrom_eq {}

/-! ### What the items are -/

/-- An item outside actions is a text, and one inside an action is a lexeme. -/
theorem Scans.lexes_of_mem {mode : Mode} {text : List Char} {pieces : List Piece}
    {fault : Option String} (hscans : Scans delimiters mode text pieces fault) {kind : ItemKind}
    {value : List Char} (hmem : .item kind value ∈ pieces) :
    kind = .text ∨ ∃ c more rest, value = c :: more ∧
      Lexes delimiters c (more ++ rest) kind more.length := by
  have htextPieces {text : List Char} (hmem : .item kind value ∈ textPieces text) :
      kind = .text := by
    unfold textPieces at hmem
    split at hmem <;> simp_all
  have hblankPieces {text : List Char} : .item kind value ∉ blankPieces text := by
    unfold blankPieces
    split <;> simp
  have hhead {head : Head} (hmem : .item kind value ∈ head.pieces) : kind = .text :=
    (List.mem_append.mp hmem).elim htextPieces fun hblanks ↦ absurd hblanks hblankPieces
  induction hscans with
  | plain => exact .inl (htextPieces hmem)
  | action _ _ _ ih =>
    rcases List.mem_append.mp hmem with hmem | hmem
    · exact .inl (hhead hmem)
    · exact ih (by simpa using hmem)
  | comment _ _ _ _ _ _ ih =>
    rcases List.mem_append.mp hmem with hmem | hmem
    · exact .inl (hhead hmem)
    · exact ih (by simpa [hblankPieces] using hmem)
  | brokenComment =>
    rcases List.mem_append.mp hmem with hmem | hmem
    · exact .inl (hhead hmem)
    · simp at hmem
  | close _ _ ih => exact ih (by simpa [hblankPieces] using hmem)
  | @item _ _ c more rest _ _ _ _ hlexeme _ _ ih =>
    rcases List.mem_cons.mp hmem with heq | hmem
    · cases heq
      exact .inr ⟨c, more, rest, rfl, lexes_of_lexeme hlexeme⟩
    · exact ih hmem
  | @strayParen c more rest _ hlexeme =>
    cases List.mem_singleton.mp hmem
    exact .inr ⟨c, more, rest, rfl, lexes_of_lexeme hlexeme⟩
  | stop => cases hmem

/-- The items of pieces come from the pieces. -/
theorem exists_piece_of_mem_itemsOf {position : Position} {pieces : List Piece} {item : Item}
    (hitem : item ∈ itemsOf delimiters position pieces) :
    ∃ piece ∈ pieces, ∃ start, piece.item? delimiters start = some item := by
  induction pieces generalizing position with
  | nil => cases hitem
  | cons piece rest ih =>
    rcases List.mem_append.mp hitem with hpiece | hrest
    · exact ⟨piece, List.mem_cons_self, position, Option.mem_toList.mp hpiece⟩
    · obtain ⟨other, hother, hstart⟩ := ih hrest
      exact ⟨other, List.mem_cons_of_mem piece hother, hstart⟩

/-- A piece gives an item of the pieces that it is one of. -/
theorem exists_position_of_mem (delimiters : Delimiters) (position : Position)
    {pieces : List Piece} {piece : Piece} (hpiece : piece ∈ pieces) :
    ∃ start, ∀ item, piece.item? delimiters start = some item →
      item ∈ itemsOf delimiters position pieces := by
  induction pieces generalizing position with
  | nil => cases hpiece
  | cons first rest ih =>
    rcases List.mem_cons.mp hpiece with rfl | hrest
    · exact ⟨position, fun item hitem ↦ List.mem_append_left _ (Option.mem_toList.mpr hitem)⟩
    · obtain ⟨start, hitems⟩ := ih (position.advance (first.text delimiters)) hrest
      exact ⟨start, fun item hitem ↦ List.mem_append_right _ (hitems item hitem)⟩

/-- Every item of a scan is a text, a comment, a delimiter or a lexeme that spells its kind. -/
theorem Scans.spells_of_mem {mode : Mode} {text : List Char} {pieces : List Piece}
    {fault : Option String} (hscans : Scans delimiters mode text pieces fault)
    {position : Position} {item : Item} (hitem : item ∈ itemsOf delimiters position pieces) :
    item.kind ≠ .eof ∧ item.kind ≠ .error ∧ item.kind.Spells item.value.toList := by
  obtain ⟨piece, hpiece, start, hsome⟩ := exists_piece_of_mem_itemsOf hitem
  cases piece with
  | item kind value =>
    cases hsome
    rcases hscans.lexes_of_mem hpiece with rfl | ⟨c, more, rest, rfl, hlexes⟩
    · exact ⟨by simp, by simp, trivial⟩
    · have hkind := hlexes.isLexeme
      refine ⟨?_, ?_, by simpa using hlexes.spells⟩
      · rintro rfl
        cases hkind
      · rintro rfl
        cases hkind
  | opening marker | closing marker | comment left text right =>
    cases hsome
    exact ⟨by simp, by simp, trivial⟩
  | broken marker | blanks text => cases hsome

/-- The last item of a source is its end or an error, and no other item is. -/
theorem lex_eq_append (delimiters : Delimiters) (source : String) :
    ∃ items last, lex delimiters source = items ++ [last] ∧
      (last.kind = .eof ∨ last.kind = .error) ∧ last.kind.Spells last.value.toList ∧
      ∀ item ∈ items,
        item.kind ≠ .eof ∧ item.kind ≠ .error ∧ item.kind.Spells item.value.toList := by
  refine ⟨_, _, lex_eq delimiters source, ?_, ?_,
    fun item hitem ↦ (scans_scan delimiters .outside source.toList).spells_of_mem hitem⟩
  · cases (scan delimiters .outside source.toList).fault
    · exact .inl rfl
    · exact .inr rfl
  · cases (scan delimiters .outside source.toList).fault <;> trivial

end Items

end Stencil.Syntax
