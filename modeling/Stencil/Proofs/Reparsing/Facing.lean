import Stencil.Proofs.Grammar.Starts
import Stencil.Proofs.Grammar.Trees
import Stencil.Proofs.Reparsing.Lexemes

/-!
# A parse before a text

The items that are left to a parse are told by the text that they are read from and the mode in
which the lexer meets it (`State.Before`); where the parser skips spaces first, by the text behind
them (`State.Faces`). `Emits` says what the first item of a text is and what is left behind it, for
each sort of text that a canonical text is made of. A step of the parser then leads from a state
before a text to one before the rest of it (`State.Faces.reads`), and `State.Reaches` says besides
what of the state is as it was.
-/

set_option autoImplicit false
set_option relaxedAutoImplicit false

namespace Stencil.Syntax

open Delimiters

/-! ### The first item of a text -/

/-- That a text starts with an item of a kind and a value, behind which a text is left. -/
def Emits (mode : Mode) (text : List Char) (kind : ItemKind) (value : String) (mode' : Mode)
    (more : List Char) : Prop :=
  ∀ position, ∃ start behind,
    lexFrom braces mode position text = ⟨kind, start, value⟩ :: lexFrom braces mode' behind more

/-- A lexeme is the first item. -/
theorem emits_lexeme {depth deeper : Nat} {c : Char} {value more : List Char} {kind : ItemKind}
    (hclosing : closing? braces (c :: (value ++ more)) = none)
    (hlexeme : lexeme braces c (value ++ more) = .ok (kind, value.length))
    (hdepth : nextDepth depth kind = some deeper) :
    Emits (.inside depth) (c :: (value ++ more)) kind (String.ofList (c :: value))
      (.inside deeper) more := by
  intro position
  have hrest := scans_scan braces (.inside deeper) more
  have hsplit (pieces : List Piece) :
      Piece.item kind (c :: value) :: pieces = [.item kind (c :: value)] ++ pieces := rfl
  refine ⟨position, position.advance (c :: value), ?_⟩
  rw [(Scans.item hclosing hlexeme hdepth hrest).lexFrom_eq, hrest.lexFrom_eq, hsplit,
    Scan.items_append]
  simp [itemsOf, Piece.item?, Piece.text]

/-- A text that stands alone is the first item. -/
theorem Standalone.emits {kind : ItemKind} {follows : List Char → Prop} {text more : List Char}
    (hstands : Standalone kind follows text) (hmore : follows more) {depth deeper : Nat}
    (hdepth : nextDepth depth kind = some deeper) :
    Emits (.inside depth) (text ++ more) kind (String.ofList text) (.inside deeper) more := by
  obtain ⟨c, value, rfl, hlexeme⟩ := hstands.lexes more hmore
  exact emits_lexeme (hstands.solid.append more).closing?_eq hlexeme hdepth

/-- A blank before a solid text is the first item. -/
theorem Solid.emits_space {text : List Char} (hsolid : Solid text) (depth : Nat) :
    Emits (.inside depth) (' ' :: text) .space " " (.inside depth) text := by
  have hlexes : Lexes braces ' ' text .space (spaceLength braces text) := .space (by decide)
  rw [hsolid.spaceLength_eq] at hlexes
  have hlexeme : lexeme braces ' ' ([] ++ text) = .ok (.space, ([] : List Char).length) :=
    lexeme_eq_ok_iff.mpr hlexes
  have hdepth : nextDepth depth .space = some depth := rfl
  exact emits_lexeme hsolid.closing?_space hlexeme hdepth

/-- A right delimiter closes an action without a marker. -/
theorem closes_braces (more : List Char) :
    Closes braces ('\x7d' :: '\x7d' :: more) ⟨none, [], more⟩ := by
  have hblank : isBlank '\x7d' = false := by decide
  refine ⟨by simp [rightMarker, right_braces], ?_, by simp, fun _ ↦ rfl, by simp⟩
  simp [closing?, startsWithRightMarker_cons, hblank, right_braces, List.isPrefixOf]

/-- A right delimiter is the first item where no parenthesis is open. -/
theorem emits_rightDelim (more : List Char) :
    Emits (.inside 0) ('\x7d' :: '\x7d' :: more) .rightDelim "\x7d\x7d" .outside more := by
  intro position
  have hrest := scans_scan braces .outside more
  have hsplit (pieces : List Piece) : Piece.closing none :: (blankPieces [] ++ pieces) =
      [.closing none] ++ pieces := rfl
  refine ⟨position, position.advance ['\x7d', '\x7d'], ?_⟩
  rw [(Scans.close (closes_braces more) hrest).lexFrom_eq, hrest.lexFrom_eq, hsplit,
    Scan.items_append]
  simp [itemsOf, Piece.item?, Piece.text, rightMarker, braces, ofStrings, defaultRight]

/-! ### Outside actions -/

/-- That a text outside actions may end in front of another: the end of the source, or a left
delimiter without a trim marker. -/
inductive EndsText : List Char → Prop
  | finished : EndsText []
  | delimiter {inner : List Char} (hmarker : markerBlank? inner = none) :
    EndsText ('\x7b' :: '\x7b' :: inner)

/-- The parts of a text around its first left delimiter, where nothing before it is a brace. -/
theorem opens_braces {text inner : List Char} (hfree : '\x7b' ∉ text)
    (hmarker : markerBlank? inner = none) :
    Opens braces (text ++ '\x7b' :: '\x7b' :: inner) ⟨text, [], none, inner⟩ := by
  have hleft : ∀ c ∈ text, c ∉ braces.left.toList := by
    intro c hc hleft
    rw [left_braces] at hleft
    have hbrace : c = '\x7b' := by simpa using hleft
    exact hfree (hbrace ▸ hc)
  have hfound := findPattern_left_eq_some hleft inner
  rw [left_braces] at hfound
  refine ⟨by simp [leftMarker, left_braces], ?_, by simp, fun _ ↦ ⟨rfl, hmarker⟩, by simp⟩
  simpa [left_braces] using hfound

/-- A left delimiter is the first item of an action. -/
theorem Solid.emits_leftDelim {inner : List Char} (hsolid : Solid inner) :
    Emits .outside ('\x7b' :: '\x7b' :: inner) .leftDelim "\x7b\x7b" (.inside 0) inner := by
  intro position
  have hopens : Opens braces ('\x7b' :: '\x7b' :: inner) ⟨[], [], none, inner⟩ :=
    opens_braces (List.not_mem_nil) hsolid.markerBlank?_eq
  have hrest := scans_scan braces (.inside 0) inner
  have hsplit (pieces : List Piece) : Head.pieces ⟨[], [], none, inner⟩ ++ .opening none :: pieces =
      [.opening none] ++ pieces := rfl
  refine ⟨position, position.advance ['\x7b', '\x7b'], ?_⟩
  rw [(Scans.action hopens hsolid.not_comment hrest).lexFrom_eq, hrest.lexFrom_eq, hsplit,
    Scan.items_append]
  simp [itemsOf, Piece.item?, Piece.text, leftMarker, braces, ofStrings, defaultLeft]

/-- A comment between delimiters is the first item. -/
theorem emits_comment {content rest : List Char} (hcomment : ['/', '*'] <+: content)
    (hlength : commentLength (content ++ rest) = some content.length) (more : List Char) :
    Emits .outside ('\x7b' :: '\x7b' :: (content ++ '\x7d' :: '\x7d' :: more)) .comment
      (String.ofList content) .outside more := by
  intro position
  have hmarker : markerBlank? (content ++ '\x7d' :: '\x7d' :: more) = none := by
    obtain ⟨inner, rfl⟩ := hcomment
    rfl
  have hopens : Opens braces ('\x7b' :: '\x7b' :: (content ++ '\x7d' :: '\x7d' :: more))
      ⟨[], [], none, content ++ '\x7d' :: '\x7d' :: more⟩ :=
    opens_braces (List.not_mem_nil) hmarker
  have hrest := scans_scan braces .outside more
  have hscans := Scans.comment hopens rfl (hcomment.trans (List.prefix_append content _))
    (commentLength_append _ hlength) (closes_braces more) hrest
  have hsplit (pieces : List Piece) :
      Head.pieces ⟨[], [], none, content ++ '\x7d' :: '\x7d' :: more⟩ ++
        .comment none content none :: (blankPieces [] ++ pieces) =
      [.comment none content none] ++ pieces := rfl
  refine ⟨position.advance ['\x7b', '\x7b'],
    position.advance ('\x7b' :: '\x7b' :: (content ++ ['\x7d', '\x7d'])), ?_⟩
  rw [hscans.lexFrom_eq, hrest.lexFrom_eq, hsplit, Scan.items_append]
  simp [itemsOf, Piece.item?, Piece.text, leftMarker, rightMarker, left_braces, right_braces]

/-- A text outside actions is the first item where it may end. -/
theorem emits_text {text more : List Char} (hne : text ≠ []) (hfree : '\x7b' ∉ text)
    (hmore : EndsText more) :
    Emits .outside (text ++ more) .text (String.ofList text) .outside more := by
  intro position
  refine ⟨position, position.advance text, ?_⟩
  have hitem (position : Position) :
      textItem position text = [⟨.text, position, String.ofList text⟩] := by
    simp [textItem, hne]
  cases hmore with
  | finished =>
    have hnone : findPattern braces.left.toList text = none := by
      refine findPattern_left_eq_none fun c hc hleft ↦ ?_
      rw [left_braces] at hleft
      have hbrace : c = '\x7b' := by simpa using hleft
      exact hfree (hbrace ▸ hc)
    have habsent : findPattern braces.left.toList [] = none := by
      rw [left_braces]
      rfl
    rw [List.append_nil, (Scans.plain hnone).lexFrom_eq, (Scans.plain habsent).lexFrom_eq]
    simp [Scan.items, textPieces, hne, lastItem, Piece.text, itemsOf, Piece.item?]
  | @delimiter inner hmarker =>
    have hopens := opens_braces hfree hmarker
    have hbare : Opens braces ('\x7b' :: '\x7b' :: inner) ⟨[], [], none, inner⟩ :=
      opens_braces (List.not_mem_nil) hmarker
    change lexText braces position (text ++ '\x7b' :: '\x7b' :: inner) =
      _ :: lexText braces (position.advance text) ('\x7b' :: '\x7b' :: inner)
    rw [lexText_of_opens hopens, lexText_of_opens hbare, hitem]
    simp [textItem, Position.advance_append]

/-! ### Marks -/

theorem standalone_leftParen : Standalone .leftParen Anything ['('] :=
  ⟨.plain (by decide) (by decide),
    fun _ _ ↦ ⟨_, [], rfl, lexeme_eq_ok_iff.mpr .leftParen⟩⟩

theorem standalone_rightParen : Standalone .rightParen Anything [')'] :=
  ⟨.plain (by decide) (by decide),
    fun _ _ ↦ ⟨_, [], rfl, lexeme_eq_ok_iff.mpr .rightParen⟩⟩

theorem standalone_bar : Standalone .pipe Anything ['|'] :=
  ⟨.plain (by decide) (by decide), fun _ _ ↦ ⟨_, [], rfl, lexeme_eq_ok_iff.mpr .bar⟩⟩

theorem standalone_assign : Standalone .assign Anything ['='] :=
  ⟨.plain (by decide) (by decide), fun _ _ ↦ ⟨_, [], rfl, lexeme_eq_ok_iff.mpr .assign⟩⟩

theorem standalone_declare : Standalone .declare Anything [':', '='] :=
  ⟨.plain (by decide) (by decide), fun _ _ ↦ ⟨_, ['='], rfl, lexeme_eq_ok_iff.mpr .declare⟩⟩

theorem standalone_comma : Standalone .char Anything [','] :=
  ⟨.plain (by decide) (by decide), fun _ _ ↦
    ⟨_, [], rfl, lexeme_eq_ok_iff.mpr (.mark (by decide) (by decide) (by decide) (by decide))⟩⟩

/-! ### States before a text -/

namespace Parse

/-- That the items left to a parse are those of a text in a mode. -/
def State.Before (s : State) (mode : Mode) (text : List Char) : Prop :=
  ∃ position, s.rest = lexFrom braces mode position text

/-- That a text in a mode is what a parse has before it once spaces are skipped. -/
def State.Faces (s : State) (mode : Mode) (text : List Char) : Prop :=
  s.skipSpaces.Before mode text

/-- That a parse goes on from one state to another, before a text in a mode and with given variables
visible, and has found no tree and is inside as many loops, bodies and parentheses as before. -/
structure State.Reaches (s after : State) (visible : List String) (mode : Mode)
    (text : List Char) : Prop where
  before : after.Before mode text
  visible_eq : after.visible = visible
  trees_eq : after.trees = s.trees
  loopDepth_eq : after.loopDepth = s.loopDepth
  depth_eq : after.depth = s.depth

section States

variable {s middle after : State} {mode mode' : Mode} {text more : List Char} {kind : ItemKind}
  {value : String}

theorem State.Reaches.trans {first second : List String}
    (hfirst : s.Reaches middle first mode text)
    (hsecond : middle.Reaches after second mode' more) : s.Reaches after second mode' more where
  before := hsecond.before
  visible_eq := hsecond.visible_eq
  trees_eq := hsecond.trees_eq.trans hfirst.trees_eq
  loopDepth_eq := hsecond.loopDepth_eq.trans hfirst.loopDepth_eq
  depth_eq := hsecond.depth_eq.trans hfirst.depth_eq

/-- A variable may be made visible at the end. -/
theorem State.Reaches.declare {visible : List String} {name other : String}
    (hreaches : s.Reaches after visible mode text) (hname : other = name) :
    s.Reaches (after.declare other) (name :: visible) mode text where
  before := hreaches.before
  visible_eq := by rw [hname, ← hreaches.visible_eq]; rfl
  trees_eq := hreaches.trees_eq
  loopDepth_eq := hreaches.loopDepth_eq
  depth_eq := hreaches.depth_eq

/-- What is reached behind the spaces is reached from before them. -/
theorem State.Reaches.of_skipSpaces {visible : List String}
    (hreaches : s.skipSpaces.Reaches after visible mode text) : s.Reaches after visible mode text :=
  ⟨hreaches.before, hreaches.visible_eq, hreaches.trees_eq, hreaches.loopDepth_eq,
    hreaches.depth_eq⟩

/-- The first item of a text that a parse faces is read. -/
theorem State.Faces.reads (hfaces : s.Faces mode text)
    (hemits : Emits mode text kind value mode' more) :
    ∃ item after, s.Reads item after ∧ item.kind = kind ∧ item.value = value ∧
      s.Reaches after s.visible mode' more := by
  obtain ⟨position, hrest⟩ := hfaces
  obtain ⟨start, behind, hitem⟩ := hemits position
  exact ⟨⟨kind, start, value⟩, { s with line := start.line, rest := _ },
    ⟨hrest.trans hitem, rfl⟩, rfl, rfl, ⟨⟨behind, rfl⟩, rfl, rfl, rfl, rfl⟩⟩

/-- The first item of the text before a parse is the next one. -/
theorem State.Before.peek (hbefore : s.Before mode text)
    (hemits : Emits mode text kind value mode' more) :
    s.peek.kind = kind ∧ s.peek.value = value := by
  obtain ⟨position, hrest⟩ := hbefore
  obtain ⟨start, behind, hitem⟩ := hemits position
  rw [State.peek, hrest, hitem]
  exact ⟨rfl, rfl⟩

/-- A parse goes past the first item of the text before it. -/
theorem State.Before.advance (hbefore : s.Before mode text)
    (hemits : Emits mode text kind value mode' more) :
    s.Reaches s.advance s.visible mode' more := by
  obtain ⟨position, hrest⟩ := hbefore
  obtain ⟨start, behind, hitem⟩ := hemits position
  rw [State.advance, hrest, hitem]
  exact ⟨⟨behind, rfl⟩, rfl, rfl, rfl, rfl⟩

/-- A parse faces the text before it, if that does not start with a space. -/
theorem State.Before.faces (hbefore : s.Before mode text) (hkind : s.peek.kind ≠ .space) :
    s.Faces mode text := by
  rw [State.Faces, State.skipSpaces_of_peek hkind]
  exact hbefore

/-- Inside an action, a text that starts with no blank does not start with a space. -/
theorem State.Before.peek_ne_space {depth : Nat} (hbefore : s.Before (.inside depth) text)
    (hblank : startsBlank text = false) : s.peek.kind ≠ .space := by
  obtain ⟨position, hrest⟩ := hbefore
  rw [State.peek, hrest]
  change ((lexAction braces depth position text).headD State.exhausted).kind ≠ .space
  cases text with
  | nil => simp [lexAction]
  | cons c rest =>
    rw [lexAction]
    split
    next => split <;> simp
    next =>
      split
      next => simp
      next found length hlexeme => exact (lexes_of_lexeme hlexeme).kind_ne_space hblank

/-- A parse faces the solid text before it. -/
theorem State.Before.faces_solid {depth : Nat} (hbefore : s.Before (.inside depth) text)
    (hsolid : Solid text) : s.Faces (.inside depth) text :=
  hbefore.faces (hbefore.peek_ne_space hsolid.startsBlank_eq)

/-- A parse faces the solid text behind a blank. -/
theorem State.Before.faces_behind {depth : Nat} (hbefore : s.Before (.inside depth) (' ' :: text))
    (hsolid : Solid text) : s.Faces (.inside depth) text := by
  have hspace := (hbefore.peek (hsolid.emits_space depth)).1
  have hfaces := (hbefore.advance (hsolid.emits_space depth)).before.faces_solid hsolid
  rwa [State.Faces, State.skipSpaces_advance hspace] at hfaces

/-- Skipping spaces again makes no difference. -/
theorem State.Faces.skipSpaces (hfaces : s.Faces mode text) : s.skipSpaces.Faces mode text := by
  rw [State.Faces, skipSpaces_skipSpaces]
  exact hfaces

/-- The first item of the text before a parse is read, if it is no space. -/
theorem State.Before.reads (hbefore : s.Before mode text)
    (hemits : Emits mode text kind value mode' more) (hkind : kind ≠ .space) :
    ∃ item after, s.Reads item after ∧ item.kind = kind ∧ item.value = value ∧
      s.Reaches after s.visible mode' more := by
  have hpeek := (hbefore.peek hemits).1
  exact (hbefore.faces (hpeek ▸ hkind)).reads hemits

end States

end Parse

end Stencil.Syntax
