import Mathlib
import Stencil.Proofs.Lexing.Scan

/-!
# Nothing is lost between items

The items of a source do not hold all of it. What they leave out is laid down here: `Covering` says
that a source is made of pieces and of what is left unread, that the items are those of the pieces,
that each piece is well placed between its neighbours (`Piece.Placed`) and that the lexer stops
behind the last of them for a reason (`Stops`). A piece without an item is then the blanks beside a
trim marker, a whole run of them, or the left delimiter of a comment that cannot be read and before
which the lexer stops with an error; trim markers and the delimiters of a comment are parts of
pieces that have an item.

`lex_lossless` proves this of every source and all delimiters, and with it that a value stands
where its item says, on the line that it says (`Item.StandsIn`), and that items neither overlap nor
change their order (`Item.Precedes`).
-/

set_option autoImplicit false
set_option relaxedAutoImplicit false

namespace Stencil.Syntax

/-! ### What lossless means -/

/-- That an item stands in a source where its position says, on the line that it says. The value of
an error is a message, so nothing is said of it. -/
def Item.StandsIn (source : List Char) (item : Item) : Prop :=
  ∃ before after, source = before ++ after ∧
    item.position.offset = (String.ofList before).utf8ByteSize ∧
    item.position.line = 1 + before.count '\n' ∧
    (item.kind ≠ .error → item.value.toList <+: after)

/-- That an item ends before another one starts. -/
def Item.Precedes (first second : Item) : Prop :=
  first.position.offset + first.value.utf8ByteSize ≤ second.position.offset

/-- Whether blanks before this piece are taken away: it starts with a left delimiter that has a
trim marker. -/
def Piece.trimsBefore : Piece → Bool
  | opening marker => marker.isSome
  | comment left _ _ => left.isSome
  | broken marker => marker.isSome
  | _ => false

/-- Whether blanks after this piece are taken away: it ends with a right delimiter that has a trim
marker. -/
def Piece.trimsAfter : Piece → Bool
  | closing marker => marker.isSome
  | comment _ _ right => right.isSome
  | _ => false

/-- Whether this piece is blanks that a trim marker takes away. -/
def Piece.isBlanks : Piece → Bool
  | blanks _ => true
  | _ => false

/-- Whether the text outside actions ends with a blank in this piece. -/
def Piece.endsOutside : Piece → Bool
  | item .text text => endsBlank text
  | blanks _ => true
  | _ => false

/-- Whether what follows this piece is read as an action. -/
def Piece.leadsInside : Piece → Bool
  | opening _ => true
  | item .text _ => false
  | item _ _ => true
  | _ => false

/-- Whether what follows this piece is read as text outside actions. -/
def Piece.leadsOutside : Piece → Bool
  | item .text _ => true
  | closing _ => true
  | comment _ _ _ => true
  | blanks _ => true
  | _ => false

/-- That the lexer stops behind a piece, with an error or without one, where some text is left: at
the end of the source, outside actions; at the body of a comment that cannot be read; in an action
at what cannot be an item; or behind a parenthesis too many. -/
inductive Stops (delimiters : Delimiters) (unread : List Char) :
    Option Piece → Option String → Prop
  | atEnd {previous : Option Piece} (houtside : previous.all Piece.leadsOutside)
    (hend : unread = []) : Stops delimiters unread previous none
  | atComment {marker : Option Char} {message : String} (hcomment : ['/', '*'] <+: unread)
    (hbreaks : BreaksComment delimiters unread message) :
    Stops delimiters unread (some (.broken marker)) (some message)
  | inAction {previous : Option Piece} {depth : Nat} {message : String}
    (hinside : previous.any Piece.leadsInside)
    (hstops : StopsAction delimiters depth unread message) :
    Stops delimiters unread previous (some message)
  | atParen {text : List Char} :
    Stops delimiters unread (some (.item .rightParen text)) (some "unexpected right paren")

/-- That a piece may stand between its neighbours.

Blanks that are taken away are a whole run before a delimiter that trims what is before it, or a
whole run after one that trims what is after it. A text has no blank where it meets such a
delimiter or blanks that were taken away. The blank of a trim marker is a blank. Behind the left
delimiter of a comment that cannot be read there is no piece. -/
def Piece.Placed (delimiters : Delimiters) (previous next : Option Piece) : Piece → Prop
  | blanks text =>
    text ≠ [] ∧ (∀ c ∈ text, isBlank c) ∧
      ((previous.any Piece.trimsAfter ∧
          next.all fun piece ↦ !startsBlank (piece.text delimiters)) ∨
        (next.any Piece.trimsBefore ∧ previous.all fun piece ↦ !piece.endsOutside))
  | item .text text =>
    text ≠ [] ∧
      (previous.any (fun piece ↦ piece.trimsAfter || piece.isBlanks) → startsBlank text = false) ∧
      (next.any (fun piece ↦ piece.trimsBefore || piece.isBlanks) → endsBlank text = false)
  | item _ text => text ≠ []
  | opening marker => marker.all isBlank
  | closing marker => marker.all isBlank
  | comment left text right =>
    left.all isBlank ∧ ['/', '*'] <+: text ∧ ['*', '/'] <:+ text ∧ right.all isBlank
  | broken marker => marker.all isBlank ∧ next = none

/-- That each of some pieces in a row, which follow `previous`, is well placed, and that the lexer
stops behind the last one. -/
def AllPlaced (delimiters : Delimiters) (unread : List Char) (fault : Option String)
    (previous : Option Piece) : List Piece → Prop
  | [] => Stops delimiters unread previous fault
  | piece :: rest =>
    piece.Placed delimiters previous rest.head? ∧
      AllPlaced delimiters unread fault (some piece) rest

/-- That a source is made of pieces and of what is left unread behind them, and that its items are
those of the pieces, followed by the end of the source or the error. -/
structure Covering (delimiters : Delimiters) (source : List Char) (items : List Item)
    (pieces : List Piece) (unread : List Char) (fault : Option String) : Prop where
  text_eq : source = texts delimiters pieces ++ unread
  items_eq : items = Scan.items delimiters {} ⟨pieces, fault⟩
  placed : AllPlaced delimiters unread fault none pieces

/-- That the items of a source stand in it where they say, in order and without overlap, and that
what they leave out is what trim markers, comments and errors leave out. -/
structure Lossless (delimiters : Delimiters) (source : List Char) (items : List Item) : Prop where
  stands : ∀ item ∈ items, item.StandsIn source
  ordered : items.Pairwise Item.Precedes
  covered : ∃ pieces unread fault, Covering delimiters source items pieces unread fault

section Pieces

variable {delimiters : Delimiters} {unread : List Char} {fault : Option String}

/-! ### Items in their source -/

/-- An item with a value stands where the value is read. -/
theorem standsIn_advance (kind : ItemKind) (before value after : List Char) :
    Item.StandsIn (before ++ (value ++ after))
      ⟨kind, ({} : Position).advance before, String.ofList value⟩ := by
  refine ⟨before, value ++ after, rfl, ?_, Position.advance_line _ _, fun _ ↦ ?_⟩
  · rw [Position.advance_offset, Nat.zero_add]
  · rw [String.toList_ofList]
    exact List.prefix_append value after

/-- The item of a piece stands where the piece is read. -/
theorem standsIn_of_item? {before after : List Char} {piece : Piece} {item : Item}
    (hitem : piece.item? delimiters (({} : Position).advance before) = some item) :
    item.StandsIn (before ++ (piece.text delimiters ++ after)) := by
  cases piece with
  | item kind text =>
    cases hitem
    exact standsIn_advance kind before text after
  | opening marker =>
    cases hitem
    simpa [Piece.text] using
      standsIn_advance .leftDelim before delimiters.left.toList (leftMarker marker ++ after)
  | closing marker =>
    cases hitem
    simpa [Piece.text, Position.advance_append] using
      standsIn_advance .rightDelim (before ++ rightMarker marker) delimiters.right.toList after
  | comment left text right =>
    cases hitem
    simpa [Piece.text, Position.advance_append] using
      standsIn_advance .comment (before ++ (delimiters.left.toList ++ leftMarker left)) text
        (rightMarker right ++ (delimiters.right.toList ++ after))
  | broken marker => cases hitem
  | blanks text => cases hitem

/-- The items of pieces stand where the pieces are read. -/
theorem standsIn_of_mem_itemsOf {before after : List Char} {pieces : List Piece} {item : Item}
    (hitem : item ∈ itemsOf delimiters (({} : Position).advance before) pieces) :
    item.StandsIn (before ++ (texts delimiters pieces ++ after)) := by
  induction pieces generalizing before with
  | nil => cases hitem
  | cons piece rest ih =>
    rw [texts_cons, List.append_assoc]
    rcases List.mem_append.mp hitem with hpiece | hrest
    · exact standsIn_of_item? (Option.mem_toList.mp hpiece)
    · rw [← Position.advance_append] at hrest
      simpa using ih hrest

/-- The item of a piece lies in the piece. -/
theorem item?_bounds {position : Position} {piece : Piece} {item : Item}
    (hitem : piece.item? delimiters position = some item) :
    position.offset ≤ item.position.offset ∧
      item.position.offset + item.value.utf8ByteSize ≤
        (position.advance (piece.text delimiters)).offset := by
  cases piece <;> cases hitem <;>
    simp only [Piece.text, Position.advance_offset, String.ofList_append,
      String.utf8ByteSize_append, String.ofList_toList] <;> omega

/-- The items of pieces lie in the pieces. -/
theorem itemsOf_bounds {position : Position} {pieces : List Piece} {item : Item}
    (hitem : item ∈ itemsOf delimiters position pieces) :
    position.offset ≤ item.position.offset ∧
      item.position.offset + item.value.utf8ByteSize ≤
        (position.advance (texts delimiters pieces)).offset := by
  induction pieces generalizing position with
  | nil => cases hitem
  | cons piece rest ih =>
    rw [texts_cons, Position.advance_append]
    rcases List.mem_append.mp hitem with hpiece | hrest
    · have hbounds := item?_bounds (Option.mem_toList.mp hpiece)
      refine ⟨hbounds.1, hbounds.2.trans ?_⟩
      rw [Position.advance_offset _ (texts delimiters rest)]
      exact Nat.le_add_right _ _
    · refine ⟨?_, (ih hrest).2⟩
      have hstart := (ih hrest).1
      rw [Position.advance_offset] at hstart
      omega

/-- The items of pieces neither overlap nor change their order. -/
theorem pairwise_itemsOf (position : Position) (pieces : List Piece) :
    (itemsOf delimiters position pieces).Pairwise Item.Precedes := by
  induction pieces generalizing position with
  | nil => exact .nil
  | cons piece rest ih =>
    rw [itemsOf, List.pairwise_append]
    refine ⟨?_, ih _, fun first hfirst second hsecond ↦ ?_⟩
    · cases piece.item? delimiters position <;> simp
    · exact (item?_bounds (Option.mem_toList.mp hfirst)).2.trans (itemsOf_bounds hsecond).1

/-! ### The text of a scan -/

theorem mem_textPieces {text : List Char} {piece : Piece} :
    piece ∈ textPieces text ↔ text ≠ [] ∧ piece = .item .text text := by
  unfold textPieces
  split <;> simp_all

theorem mem_blankPieces {text : List Char} {piece : Piece} :
    piece ∈ blankPieces text ↔ text ≠ [] ∧ piece = .blanks text := by
  unfold blankPieces
  split <;> simp_all

/-- No delimiter is empty, with or without a trim marker. -/
theorem delimiter_append_ne_nil (text : List Char) :
    delimiters.left.toList ++ text ≠ [] ∧ text ++ delimiters.right.toList ≠ [] := by
  have hleft := List.length_pos_iff.mp delimiters.left_length_pos
  have hright := List.length_pos_iff.mp delimiters.right_length_pos
  simp [hleft, hright]

/-- No piece before a left delimiter is empty. -/
theorem text_ne_nil_of_mem_headPieces {head : Head} {piece : Piece}
    (hpiece : piece ∈ head.pieces) : piece.text delimiters ≠ [] := by
  rcases List.mem_append.mp hpiece with htext | hblanks
  · obtain ⟨hne, rfl⟩ := mem_textPieces.mp htext
    exact hne
  · obtain ⟨hne, rfl⟩ := mem_blankPieces.mp hblanks
    exact hne

/-- No piece of a scan is empty. -/
theorem Scans.text_ne_nil {mode : Mode} {text : List Char} {pieces : List Piece}
    {fault : Option String} (hscans : Scans delimiters mode text pieces fault) :
    ∀ piece ∈ pieces, piece.text delimiters ≠ [] := by
  have hblanks {blanks : List Char} {piece : Piece} (hpiece : piece ∈ blankPieces blanks) :
      piece.text delimiters ≠ [] := by
    obtain ⟨hne, rfl⟩ := mem_blankPieces.mp hpiece
    exact hne
  induction hscans with
  | plain =>
    intro piece hpiece
    obtain ⟨hne, rfl⟩ := mem_textPieces.mp hpiece
    exact hne
  | action _ _ _ ih =>
    intro piece hpiece
    rcases List.mem_append.mp hpiece with hhead | hrest
    · exact text_ne_nil_of_mem_headPieces hhead
    · rcases List.mem_cons.mp hrest with rfl | hrest
      · exact (delimiter_append_ne_nil _).1
      · exact ih piece hrest
  | comment _ _ _ _ _ _ ih =>
    intro piece hpiece
    rcases List.mem_append.mp hpiece with hhead | hrest
    · exact text_ne_nil_of_mem_headPieces hhead
    · rcases List.mem_cons.mp hrest with rfl | hrest
      · exact (delimiter_append_ne_nil _).2
      · exact (List.mem_append.mp hrest).elim hblanks (ih piece)
  | brokenComment =>
    intro piece hpiece
    rcases List.mem_append.mp hpiece with hhead | hlast
    · exact text_ne_nil_of_mem_headPieces hhead
    · rw [List.mem_singleton.mp hlast]
      exact (delimiter_append_ne_nil _).1
  | close _ _ ih =>
    intro piece hpiece
    rcases List.mem_cons.mp hpiece with rfl | hrest
    · exact (delimiter_append_ne_nil _).2
    · exact (List.mem_append.mp hrest).elim hblanks (ih piece)
  | item _ _ _ _ ih =>
    intro piece hpiece
    rcases List.mem_cons.mp hpiece with rfl | hrest
    · exact List.cons_ne_nil _ _
    · exact ih piece hrest
  | strayParen =>
    intro piece hpiece
    rw [List.mem_singleton.mp hpiece]
    exact List.cons_ne_nil _ _
  | stop => simp

/-- A text starts with a blank if its first part does. -/
theorem startsBlank_append {text : List Char} (hne : text ≠ []) (more : List Char) :
    startsBlank (text ++ more) = startsBlank text := by
  cases text with
  | nil => exact absurd rfl hne
  | cons c rest => rfl

/-- A text starts with a blank if the first piece of its scan does. -/
theorem Scans.startsBlank_head {mode : Mode} {text : List Char} {pieces : List Piece}
    {fault : Option String} (hscans : Scans delimiters mode text pieces fault) {piece : Piece}
    (hhead : pieces.head? = some piece) :
    startsBlank (piece.text delimiters) = startsBlank text := by
  obtain ⟨unread, htext, _⟩ := hscans.text_eq
  cases pieces with
  | nil => cases hhead
  | cons first rest =>
    cases hhead
    rw [htext, texts_cons, List.append_assoc,
      startsBlank_append (hscans.text_ne_nil piece List.mem_cons_self)]

/-! ### The places of pieces -/

/-- That text outside actions may follow a piece: it starts with no blank that the piece takes
away. -/
structure MayPrecede (previous : Option Piece) (text : List Char) : Prop where
  start : previous.any (fun piece ↦ piece.trimsAfter || piece.isBlanks) → startsBlank text = false
  delimited : ∀ value, previous ≠ some (.item .text value)
  outside : previous.all Piece.leadsOutside

/-- Text outside actions may start a source. -/
theorem mayPrecede_none (text : List Char) : MayPrecede none text := ⟨by simp, by simp, rfl⟩

/-- That a text in a mode may follow a piece. -/
def Mode.Follows (previous : Option Piece) (text : List Char) : Mode → Prop
  | outside => MayPrecede previous text
  | inside _ => previous.any Piece.leadsInside

/-- Blanks before a left delimiter that takes them away are well placed. -/
theorem allPlaced_blankPieces_before {blanks : List Char} {previous : Option Piece}
    {piece : Piece} {rest : List Piece} (hblanks : ∀ c ∈ blanks, isBlank c)
    (htrims : blanks ≠ [] → piece.trimsBefore = true)
    (hprevious : blanks ≠ [] → previous.all fun piece ↦ !piece.endsOutside)
    (hrest : ∀ previous, AllPlaced delimiters unread fault previous (piece :: rest)) :
    AllPlaced delimiters unread fault previous (blankPieces blanks ++ piece :: rest) := by
  unfold blankPieces
  by_cases hempty : blanks = []
  · rw [if_pos hempty]
    exact hrest previous
  · rw [if_neg hempty]
    exact ⟨⟨hempty, hblanks, .inr ⟨by simpa using htrims hempty, hprevious hempty⟩⟩, hrest _⟩

/-- The pieces before a left delimiter are well placed. -/
theorem Opens.allPlaced {text : List Char} {head : Head} (hopens : Opens delimiters text head)
    {previous : Option Piece} (hprevious : MayPrecede previous text) {piece : Piece}
    {rest : List Piece} (htrims : piece.trimsBefore = head.marker.isSome)
    (hblanks : piece.isBlanks = false)
    (hrest : ∀ previous, AllPlaced delimiters unread fault previous (piece :: rest)) :
    AllPlaced delimiters unread fault previous (head.pieces ++ piece :: rest) := by
  have hmarked (hne : head.blanks ≠ []) : head.marker.isSome := by
    rw [Option.isSome_iff_ne_none]
    exact fun hnone ↦ hne (hopens.unmarked hnone).1
  have hend (hsome : head.marker.isSome) : endsBlank head.value = false := by
    obtain ⟨blank, hblank⟩ := Option.isSome_iff_exists.mp hsome
    exact (hopens.marked blank hblank).2
  have htrimsBlanks (hne : head.blanks ≠ []) : piece.trimsBefore = true :=
    htrims.trans (hmarked hne)
  unfold Head.pieces textPieces
  by_cases hempty : head.value = []
  · rw [if_pos hempty, List.nil_append]
    refine allPlaced_blankPieces_before hopens.blanks htrimsBlanks (fun hne ↦ ?_) hrest
    -- blanks that nothing separates from the piece before would start the text
    have hstart : startsBlank text = true := by
      obtain ⟨c, more, hcons⟩ := List.exists_cons_of_ne_nil hne
      have hc := hopens.blanks c (by simp [hcons])
      rw [hopens.text_eq, hempty, hcons]
      exact hc
    cases previous with
    | none => rfl
    | some previous =>
      have hnot := hprevious.start
      cases previous with
      | item kind value =>
        cases kind with
        | text => exact absurd rfl (hprevious.delimited value)
        | _ => rfl
      | blanks => simp [Piece.isBlanks, hstart] at hnot
      | _ => rfl
  · rw [if_neg hempty, List.append_assoc, List.singleton_append]
    refine ⟨⟨hempty, fun hany ↦ ?_, fun hnext ↦ hend ?_⟩, ?_⟩
    · rw [← startsBlank_append hempty (head.blanks ++ (delimiters.left.toList ++
        (leftMarker head.marker ++ head.body))), ← List.append_assoc, ← hopens.text_eq]
      exact hprevious.start hany
    · unfold blankPieces at hnext
      by_cases hnone : head.blanks = []
      · simpa [hnone, hblanks, htrims] using hnext
      · exact hmarked hnone
    · refine allPlaced_blankPieces_before hopens.blanks htrimsBlanks (fun hne ↦ ?_) hrest
      simpa [Piece.endsOutside] using hend (hmarked hne)

/-- What follows a right delimiter is well placed. -/
theorem Closes.allPlaced {text : List Char} {tail : Tail} (hcloses : Closes delimiters text tail)
    {pieces : List Piece} (houtside : Scans delimiters .outside tail.rest pieces fault)
    (hpieces : ∀ previous, MayPrecede previous tail.rest →
      AllPlaced delimiters unread fault previous pieces)
    {piece : Piece} (htrims : piece.trimsAfter = tail.marker.isSome)
    (hblanks : piece.isBlanks = false) (hitem : ∀ value, piece ≠ .item .text value)
    (hleads : piece.leadsOutside = true) :
    AllPlaced delimiters unread fault (some piece) (blankPieces tail.blanks ++ pieces) := by
  have hstart (hsome : tail.marker.isSome) : startsBlank tail.rest = false := by
    obtain ⟨blank, hblank⟩ := Option.isSome_iff_exists.mp hsome
    exact (hcloses.marked blank hblank).2
  unfold blankPieces
  by_cases hempty : tail.blanks = []
  · rw [if_pos hempty]
    refine hpieces _ ⟨fun hany ↦ hstart ?_, by simpa using hitem, hleads⟩
    simpa [htrims, hblanks] using hany
  · rw [if_neg hempty]
    have hsome : tail.marker.isSome := by
      rw [Option.isSome_iff_ne_none]
      exact fun hnone ↦ hempty (hcloses.unmarked hnone)
    refine ⟨⟨hempty, hcloses.blanks, .inl ⟨by simpa [htrims] using hsome, ?_⟩⟩,
      hpieces _ ⟨fun _ ↦ hstart hsome, by simp, rfl⟩⟩
    change Option.all _ pieces.head? = true
    cases hhead : pieces.head? with
    | none => rfl
    | some next => simp [houtside.startsBlank_head hhead, hstart hsome]

/-- The marker of a left delimiter stands off from the action by a blank. -/
theorem Opens.all_isBlank {text : List Char} {head : Head} (hopens : Opens delimiters text head) :
    head.marker.all isBlank := by
  cases hmarker : head.marker with
  | none => rfl
  | some blank => exact (hopens.marked blank hmarker).1

/-- The marker of a right delimiter stands off from the action by a blank. -/
theorem Closes.all_isBlank {text : List Char} {tail : Tail}
    (hcloses : Closes delimiters text tail) : tail.marker.all isBlank := by
  cases hmarker : tail.marker with
  | none => rfl
  | some blank => exact (hcloses.marked blank hmarker).1

/-- The pieces of a scan are well placed, and the lexer stops behind them. -/
theorem Scans.allPlaced {mode : Mode} {text : List Char} {pieces : List Piece}
    (hscans : Scans delimiters mode text pieces fault)
    (htext : text = texts delimiters pieces ++ unread) {previous : Option Piece}
    (hprevious : mode.Follows previous text) :
    AllPlaced delimiters unread fault previous pieces := by
  induction hscans generalizing previous with
  | @plain text =>
    have hend : unread = [] := by simpa using htext
    unfold textPieces
    by_cases hempty : text = []
    · rw [if_pos hempty]
      exact .atEnd hprevious.outside hend
    · rw [if_neg hempty]
      exact ⟨⟨hempty, hprevious.start, by simp⟩, .atEnd rfl hend⟩
  | @action _ head pieces _ hopens _ _ ih =>
    have hbody : head.body = texts delimiters pieces ++ unread := by
      simpa [Piece.text] using hopens.text_eq.symm.trans htext
    exact hopens.allPlaced hprevious rfl rfl fun _ ↦ ⟨hopens.all_isBlank, ih hbody rfl⟩
  | @comment _ _ _ tail pieces _ _ hopens hbody hcomment hlength hcloses houtside ih =>
    obtain ⟨hfirst, hlast⟩ := marks_of_commentLength hbody hcomment hlength
    have hrest : tail.rest = texts delimiters pieces ++ unread := by
      have hwhole := hopens.text_eq.symm.trans htext
      rw [hbody, hcloses.text_eq] at hwhole
      simpa [Piece.text] using hwhole
    refine hopens.allPlaced hprevious rfl rfl fun _ ↦
      ⟨⟨hopens.all_isBlank, hfirst, hlast, hcloses.all_isBlank⟩, ?_⟩
    exact hcloses.allPlaced houtside (fun _ hnext ↦ ih hrest hnext) rfl rfl (by simp) rfl
  | @brokenComment text head message hopens hcomment hbreaks =>
    have hbody : head.body = unread := by
      simpa [Piece.text] using hopens.text_eq.symm.trans htext
    rw [hbody] at hcomment hbreaks
    exact hopens.allPlaced hprevious rfl rfl fun _ ↦
      ⟨⟨hopens.all_isBlank, rfl⟩, .atComment hcomment hbreaks⟩
  | @close _ tail pieces _ hcloses houtside ih =>
    have hrest : tail.rest = texts delimiters pieces ++ unread := by
      simpa [Piece.text] using hcloses.text_eq.symm.trans htext
    refine ⟨hcloses.all_isBlank, ?_⟩
    exact hcloses.allPlaced houtside (fun _ hnext ↦ ih hrest hnext) rfl rfl (by simp) rfl
  | @item _ _ c value rest kind pieces _ _ hlexeme _ _ ih =>
    have hkind := (lexes_of_lexeme hlexeme).isLexeme
    have hrest : rest = texts delimiters pieces ++ unread := by simpa [Piece.text] using htext
    cases kind with
    | text => cases hkind
    | _ => exact ⟨List.cons_ne_nil c value, ih hrest rfl⟩
  | @strayParen c value => exact ⟨List.cons_ne_nil c value, .atParen⟩
  | stop hstops =>
    obtain rfl := htext
    exact .inAction hprevious hstops

/-! ### The lexer loses nothing -/

/-- The pieces of the scan of a source cover it. -/
theorem exists_covering (delimiters : Delimiters) (source : String) :
    ∃ pieces unread fault,
      Covering delimiters source.toList (lex delimiters source) pieces unread fault := by
  have hscans := scans_scan delimiters .outside source.toList
  obtain ⟨unread, htext, -⟩ := hscans.text_eq
  exact ⟨_, unread, _, htext, lex_eq delimiters source,
    hscans.allPlaced htext (mayPrecede_none _)⟩

/-- The last item stands where the pieces before it end. -/
theorem lastItem_standsIn (before after : List Char) (fault : Option String) :
    (lastItem (({} : Position).advance before) fault).StandsIn (before ++ after) := by
  refine ⟨before, after, rfl, ?_, ?_, ?_⟩
  · cases fault <;> simp [lastItem, Position.advance_offset]
  · cases fault <;> simp [lastItem, Position.advance_line]
  · cases fault <;> simp [lastItem]

/-- The items of a source stand in it where they say. -/
theorem standsIn_of_mem_lex {source : String} {item : Item}
    (hitem : item ∈ lex delimiters source) : item.StandsIn source.toList := by
  obtain ⟨pieces, unread, fault, hcovering⟩ := exists_covering delimiters source
  rw [hcovering.items_eq, Scan.items] at hitem
  rw [hcovering.text_eq]
  rcases List.mem_append.mp hitem with hpiece | hend
  · exact @standsIn_of_mem_itemsOf delimiters [] unread pieces item hpiece
  · rw [List.mem_singleton.mp hend]
    exact lastItem_standsIn _ unread fault

/-- The lexer loses nothing of a source: what its items leave out are trim markers, the blanks that
these take away, the delimiters of comments and, right before an error, the left delimiter of a
comment that cannot be read. -/
theorem lex_lossless (delimiters : Delimiters) (source : String) :
    Lossless delimiters source.toList (lex delimiters source) := by
  have hcovered := exists_covering delimiters source
  refine ⟨fun item hitem ↦ standsIn_of_mem_lex hitem, ?_, hcovered⟩
  obtain ⟨pieces, unread, fault, hcovering⟩ := hcovered
  rw [hcovering.items_eq, Scan.items, List.pairwise_append]
  refine ⟨pairwise_itemsOf _ _, List.pairwise_singleton _ _, fun first hfirst last hlast ↦ ?_⟩
  have hposition : last.position.offset =
      (({} : Position).advance (texts delimiters pieces)).offset := by
    rw [List.mem_singleton.mp hlast]
    cases fault <;> rfl
  rw [Item.Precedes, hposition]
  exact (itemsOf_bounds hfirst).2

/-- The left delimiter of a comment that is not closed is lost: without a piece of its own for it
there is no covering. -/
theorem lex_unclosed_comment :
    ¬ ∃ pieces unread fault, Covering Delimiters.brackets "[/*".toList
        (lex Delimiters.brackets "[/*") pieces unread fault ∧
      ∀ marker, Piece.broken marker ∉ pieces := by
  rintro ⟨pieces, unread, fault, hcovering, hbroken⟩
  have hlex : lex Delimiters.brackets "[/*" = [⟨.error, ⟨1, 1⟩, "unclosed comment"⟩] := by
    cbv
  have hitems := hcovering.items_eq
  have hcovered := hcovering.text_eq
  have hplaced := hcovering.placed
  rw [hlex, Scan.items] at hitems
  cases pieces with
  | nil => cases fault <;> simp [lastItem] at hitems
  | cons piece rest =>
    cases piece with
    | broken marker => exact hbroken marker List.mem_cons_self
    | blanks text =>
      -- the blanks would have to start with the bracket
      obtain ⟨⟨hne, hblank, _⟩, _⟩ := hplaced
      obtain ⟨c, more, rfl⟩ := List.exists_cons_of_ne_nil hne
      rw [texts_cons] at hcovered
      have hc : c = '[' := (List.cons.inj hcovered).1.symm
      simpa [hc, isBlank] using hblank c List.mem_cons_self
    | _ => cases fault <;> simp [itemsOf, Piece.item?, lastItem] at hitems

end Pieces

end Stencil.Syntax
