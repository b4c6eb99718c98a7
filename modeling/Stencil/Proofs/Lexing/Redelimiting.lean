import Stencil.Proofs.Lexing.Punctuation

/-!
# Other delimiters

A source is written anew with other delimiters by writing its scan with them (`redelimit`). The new
source has the same scan (`Scans.redelimit`), provided that both pairs of delimiters are made of
punctuation and that no character of either occurs between delimiters. Its items are then the same
as before, but for their offsets and the text of the delimiters (`lex_redelimit`).
-/

set_option autoImplicit false
set_option relaxedAutoImplicit false

namespace Stencil.Syntax

/-- The source with other delimiters in the place of its own, those of comments included. -/
def redelimit (old new : Delimiters) (source : String) : String :=
  String.ofList (texts new (scan old .outside source.toList).pieces)

/-- That the text or comment of a piece, or its lexeme, has no character of delimiters. -/
def Piece.IsFreeOf (delimiters : Delimiters) : Piece → Prop
  | item _ text | comment _ text _ => FreeOf delimiters text
  | _ => True

/-! ### The parts of a text -/

section Parts

variable {old new delimiters : Delimiters}

/-- Blanks have no punctuation. -/
theorem freeOf_of_blanks (hpunctual : delimiters.Punctual) {text : List Char}
    (hblanks : ∀ c ∈ text, isBlank c) : FreeOf delimiters text := by
  intro c hc hmark
  have hblank := hblanks c hc
  rw [(punctuation_spec (hpunctual c hmark)).1] at hblank
  cases hblank

/-- The text before a left delimiter has no character of delimiters that its pieces have not. -/
theorem freeOf_of_headPieces {head : Head} {pieces : List Piece}
    (hfree : ∀ piece ∈ head.pieces ++ pieces, piece.IsFreeOf delimiters) :
    FreeOf delimiters head.value := by
  by_cases hempty : head.value = []
  · rw [hempty]
    intro c hc
    cases hc
  · refine hfree (.item .text head.value) (List.mem_append_left _ (List.mem_append_left _ ?_))
    simp [textPieces, hempty]

/-- The marker of a right delimiter has no punctuation. -/
theorem Closes.freeOf_rightMarker (hpunctual : delimiters.Punctual) {text : List Char}
    {tail : Tail} (hcloses : Closes old text tail) :
    FreeOf delimiters (rightMarker tail.marker) := by
  intro c hc hmark
  obtain ⟨hblank, _, _, _, hdash, _⟩ := punctuation_spec (hpunctual c hmark)
  cases hmarker : tail.marker with
  | none => simp [hmarker, rightMarker] at hc
  | some blank =>
    have hblank' := (hcloses.marked blank hmarker).1
    rw [hmarker, rightMarker, List.mem_cons, List.mem_singleton] at hc
    obtain rfl | rfl := hc
    · simp [hblank] at hblank'
    · exact hdash rfl

/-- The parts of a text around its first left delimiter are the same with another one. -/
theorem Opens.redelimit (hnew : new.Punctual) {text : List Char} {head : Head}
    (hopens : Opens old text head) (hvalue : FreeOf new head.value) {body : List Char}
    (hbody : head.marker = none → markerBlank? body = none) :
    Opens new
      (head.value ++ head.blanks ++ (new.left.toList ++ (leftMarker head.marker ++ body)))
      { head with body := body } := by
  have hbefore : FreeOf new (head.value ++ head.blanks) := by
    intro c hc
    rcases List.mem_append.mp hc with hc | hc
    · exact hvalue c hc
    · exact freeOf_of_blanks hnew hopens.blanks c hc
  exact ⟨rfl, findPattern_left_eq_some hbefore.left _, hopens.blanks,
    fun hmarker ↦ ⟨(hopens.unmarked hmarker).1, hbody hmarker⟩, hopens.marked⟩

/-- The parts of a text after a right delimiter are the same with another one. -/
theorem Closes.redelimit (hnew : new.Punctual) {text : List Char} {tail : Tail}
    (hcloses : Closes old text tail) {rest : List Char}
    (hrest : startsBlank rest = startsBlank tail.rest) :
    Closes new (rightMarker tail.marker ++ (new.right.toList ++ (tail.blanks ++ rest)))
      { tail with rest := rest } := by
  refine ⟨rfl, ?_, hcloses.blanks, hcloses.unmarked, fun blank hmarker ↦
    hrest ▸ hcloses.marked blank hmarker⟩
  rw [closing?_right hnew (hcloses.freeOf_rightMarker hnew)]
  cases hmarker : tail.marker with
  | none => rfl
  | some blank => simp [rightMarker, startsWithRightMarker, trimMarkerLength,
      (hcloses.marked blank hmarker).1]

end Parts

/-! ### The scan -/

section Scan

variable {old new : Delimiters}

/-- The pieces of an action hold the rest of the action, which goes up to the right delimiter. -/
theorem Scans.exists_right {depth : Nat} {text : List Char} {pieces : List Piece}
    (hscans : Scans old (.inside depth) text pieces none) :
    ∃ inner rest,
      (∀ delimiters : Delimiters, delimiters.Punctual →
        (∀ piece ∈ pieces, piece.IsFreeOf delimiters) → FreeOf delimiters inner) ∧
      ∀ delimiters : Delimiters,
        texts delimiters pieces = inner ++ (delimiters.right.toList ++ texts delimiters rest) := by
  generalize hmode : Mode.inside depth = mode at hscans
  generalize hfault : none = fault at hscans
  induction hscans generalizing depth with
  | @close text tail pieces _ hcloses =>
    refine ⟨rightMarker tail.marker, blankPieces tail.blanks ++ pieces,
      fun delimiters hpunctual _ ↦ hcloses.freeOf_rightMarker hpunctual, fun delimiters ↦ ?_⟩
    simp [Piece.text]
  | @item _ deeper c value _ kind pieces _ _ _ _ _ ih =>
    obtain ⟨inner, rest, hfree, htexts⟩ := ih rfl hfault
    refine ⟨c :: value ++ inner, rest, fun delimiters hpunctual hpieces d hd ↦ ?_,
      fun delimiters ↦ ?_⟩
    · rcases List.mem_append.mp hd with hd | hd
      · exact hpieces _ List.mem_cons_self d hd
      · exact hfree delimiters hpunctual
          (fun piece hpiece ↦ hpieces piece (List.mem_cons_of_mem _ hpiece)) d hd
    · simp [Piece.text, htexts]
  | strayParen | stop => cases hfault
  | plain | action | comment | brokenComment => cases hmode

/-- Whether the text after an action starts with a blank does not depend on the delimiters. -/
theorem Scans.startsBlank_redelimit (hold : old.Punctual) (hnew : new.Punctual)
    {text : List Char} {pieces : List Piece} (hscans : Scans old .outside text pieces none) :
    startsBlank (texts new pieces) = startsBlank text := by
  cases hscans with
  | plain => simp
  | action hopens =>
    rw [hopens.text_eq, startsBlank_left hold]
    simp only [texts_append, texts_headPieces, texts_cons, Piece.text, List.append_assoc]
    rw [← List.append_assoc, startsBlank_left hnew]
  | comment hopens =>
    rw [hopens.text_eq, startsBlank_left hold]
    simp only [texts_append, texts_headPieces, texts_cons, Piece.text, List.append_assoc]
    rw [← List.append_assoc, startsBlank_left hnew]

/-- An item of an action is the same item with other delimiters, and as little closes the action.
Assumes: what follows the item up to the right delimiter has no character of either pair. -/
theorem lexeme_redelimit (hold : old.Punctual) (hnew : new.Punctual) {c : Char}
    {value inner more other : List Char} {kind : ItemKind}
    (hfreeOld : FreeOf old (c :: (value ++ inner))) (hfreeNew : FreeOf new (c :: (value ++ inner)))
    (hclosing : closing? old (c :: (value ++ (inner ++ (old.right.toList ++ more)))) = none)
    (hlexeme : lexeme old c (value ++ (inner ++ (old.right.toList ++ more))) =
      .ok (kind, value.length)) :
    closing? new (c :: (value ++ (inner ++ (new.right.toList ++ other)))) = none ∧
      lexeme new c (value ++ (inner ++ (new.right.toList ++ other))) =
        .ok (kind, value.length) := by
  have htail {delimiters : Delimiters} (hfree : FreeOf delimiters (c :: (value ++ inner))) :
      FreeOf delimiters (value ++ inner) :=
    fun d hd ↦ hfree d (List.mem_cons_of_mem c hd)
  constructor
  · rw [← List.append_assoc, ← List.cons_append, closing?_right hold hfreeOld] at hclosing
    rw [← List.append_assoc, ← List.cons_append, closing?_right hnew hfreeNew, hclosing]
  · rw [lexeme_eq_ok_iff] at hlexeme ⊢
    exact hlexeme.redelimit hold hnew other (htail hfreeOld) (htail hfreeNew)

/-- The source with other delimiters has the same scan. Assumes: both pairs are made of
punctuation, and the pieces have no character of either. -/
theorem Scans.redelimit (hold : old.Punctual) (hnew : new.Punctual) {mode : Mode}
    {text : List Char} {pieces : List Piece} {fault : Option String}
    (hscans : Scans old mode text pieces fault) (hfault : fault = none)
    (hfreeOld : ∀ piece ∈ pieces, piece.IsFreeOf old)
    (hfreeNew : ∀ piece ∈ pieces, piece.IsFreeOf new) :
    Scans new mode (texts new pieces) pieces none := by
  induction hscans with
  | @plain text habsent =>
    rw [texts_textPieces]
    refine .plain (findPattern_left_eq_none (FreeOf.left ?_))
    by_cases hempty : text = []
    · rw [hempty]
      intro c hc
      cases hc
    · exact hfreeNew (.item .text text) (by simp [textPieces, hempty])
  | @action text head pieces fault hopens haction hinside ih =>
    subst hfault
    have hmem {piece : Piece} (hpiece : piece ∈ pieces) :
        piece ∈ head.pieces ++ .opening head.marker :: pieces :=
      List.mem_append_right _ (List.mem_cons_of_mem _ hpiece)
    obtain ⟨inner, rest, _, htexts⟩ := hinside.exists_right
    obtain ⟨unread, hbody, hunread⟩ := hinside.text_eq
    rw [hunread rfl, List.append_nil, htexts] at hbody
    have hopensNew : Opens new _ { head with body := texts new pieces } :=
      hopens.redelimit hnew (freeOf_of_headPieces hfreeNew) fun hmarker ↦ by
        have hunmarked := (hopens.unmarked hmarker).2
        rw [hbody, markerBlank?_right hold] at hunmarked
        rw [htexts, markerBlank?_right hnew, hunmarked]
    have hactionNew : ¬ ['/', '*'] <+: texts new pieces := by
      rw [hbody, comment_prefix_right hold] at haction
      rw [htexts, comment_prefix_right hnew]
      exact haction
    have hnewInside := ih rfl (fun piece hpiece ↦ hfreeOld piece (hmem hpiece))
      (fun piece hpiece ↦ hfreeNew piece (hmem hpiece))
    simpa [Piece.text, Head.pieces] using Scans.action hopensNew hactionNew hnewInside
  | @comment text content head tail pieces fault rest hopens hbody hcomment hlength hcloses
      houtside ih =>
    subst hfault
    have hmem {piece : Piece} (hpiece : piece ∈ pieces) :
        piece ∈ head.pieces ++ .comment head.marker content tail.marker ::
          (blankPieces tail.blanks ++ pieces) :=
      List.mem_append_right _ (List.mem_cons_of_mem _ (List.mem_append_right _ hpiece))
    have hclosesNew := hcloses.redelimit hnew (houtside.startsBlank_redelimit hold hnew)
    have hcommentNew (more : List Char) : ['/', '*'] <+: content ++ more :=
      (marks_of_commentLength hbody hcomment hlength).1.trans (List.prefix_append content more)
    have hopensNew (more : List Char) : Opens new _ { head with body := content ++ more } :=
      hopens.redelimit hnew (freeOf_of_headPieces hfreeNew) fun _ ↦ by
        obtain ⟨after, hafter⟩ := hcommentNew more
        rw [← hafter]
        rfl
    have hnewOutside := ih rfl (fun piece hpiece ↦ hfreeOld piece (hmem hpiece))
      (fun piece hpiece ↦ hfreeNew piece (hmem hpiece))
    have hscansNew := Scans.comment (hopensNew _) rfl (hcommentNew _)
      (commentLength_append _ (hbody ▸ hlength)) hclosesNew hnewOutside
    simpa [Piece.text, Head.pieces] using hscansNew
  | brokenComment => cases hfault
  | @close text tail pieces fault hcloses houtside ih =>
    subst hfault
    have hmem {piece : Piece} (hpiece : piece ∈ pieces) :
        piece ∈ .closing tail.marker :: (blankPieces tail.blanks ++ pieces) :=
      List.mem_cons_of_mem _ (List.mem_append_right _ hpiece)
    have hclosesNew := hcloses.redelimit hnew (houtside.startsBlank_redelimit hold hnew)
    have hnewOutside := ih rfl (fun piece hpiece ↦ hfreeOld piece (hmem hpiece))
      (fun piece hpiece ↦ hfreeNew piece (hmem hpiece))
    simpa [Piece.text] using Scans.close hclosesNew hnewOutside
  | @item depth deeper c value rest kind pieces fault hclosing hlexeme hdepth hinside ih =>
    subst hfault
    have hpieces (delimiters : Delimiters)
        (hfree : ∀ piece ∈ .item kind (c :: value) :: pieces, piece.IsFreeOf delimiters) :
        ∀ piece ∈ pieces, piece.IsFreeOf delimiters :=
      fun piece hpiece ↦ hfree piece (List.mem_cons_of_mem _ hpiece)
    obtain ⟨inner, more, hinner, htexts⟩ := hinside.exists_right
    obtain ⟨unread, hrest, hunread⟩ := hinside.text_eq
    rw [hunread rfl, List.append_nil, htexts] at hrest
    have hfree (delimiters : Delimiters) (hpunctual : delimiters.Punctual)
        (hfree : ∀ piece ∈ .item kind (c :: value) :: pieces, piece.IsFreeOf delimiters) :
        FreeOf delimiters (c :: (value ++ inner)) := by
      intro d hd
      rw [← List.cons_append] at hd
      rcases List.mem_append.mp hd with hd | hd
      · exact hfree _ List.mem_cons_self d hd
      · exact hinner delimiters hpunctual (hpieces delimiters hfree) d hd
    have hnewInside := ih rfl (hpieces old hfreeOld) (hpieces new hfreeNew)
    rw [hrest] at hclosing hlexeme
    obtain ⟨hclosingNew, hlexemeNew⟩ := lexeme_redelimit hold hnew (hfree old hold hfreeOld)
      (hfree new hnew hfreeNew) hclosing hlexeme
    rw [← htexts] at hclosingNew hlexemeNew
    simpa [Piece.text] using Scans.item hclosingNew hlexemeNew hdepth hnewInside
  | strayParen | stop => cases hfault

end Scan

/-! ### The items -/

/-- A position without its offset. -/
def Position.plain (position : Position) : Position := ⟨0, position.line⟩

/-- An item without its offset, and without the text of a delimiter. -/
def Item.plain (item : Item) : Item where
  kind := item.kind
  position := item.position.plain
  value := if item.kind = .leftDelim ∨ item.kind = .rightDelim then "" else item.value

@[simp]
theorem Item.kind_plain (item : Item) : item.plain.kind = item.kind := rfl

@[simp]
theorem Item.position_plain (item : Item) : item.plain.position = item.position.plain := rfl

/-- That a source can be written with other delimiters: both pairs are made of punctuation, the
source is read to its end, and no character of either pair stands in a text, in a comment or in an
action. -/
structure Redelimits (old new : Delimiters) (source : String) : Prop where
  old_punctual : old.Punctual
  new_punctual : new.Punctual
  ends : (lex old source).getLast?.map Item.kind = some .eof
  free : ∀ item ∈ lex old source, item.kind ≠ .leftDelim → item.kind ≠ .rightDelim →
    FreeOf old item.value.toList ∧ FreeOf new item.value.toList

section Items

variable {old new : Delimiters}

/-- Delimiters hold no line end. -/
theorem count_newline_of_punctual {delimiters : Delimiters} (hpunctual : delimiters.Punctual) :
    delimiters.left.toList.count '\n' = 0 ∧ delimiters.right.toList.count '\n' = 0 := by
  have hnewline : '\n' ∉ delimiters.chars :=
    fun hmem ↦ absurd (hpunctual '\n' hmem) (by decide)
  simp only [Delimiters.chars, List.mem_append, not_or] at hnewline
  exact ⟨List.count_eq_zero_of_not_mem hnewline.1, List.count_eq_zero_of_not_mem hnewline.2⟩

/-- A piece has as many lines with other delimiters. -/
theorem Piece.line_redelimit (hold : old.Punctual) (hnew : new.Punctual) (piece : Piece)
    {position other : Position} (hline : position.line = other.line) :
    (position.advance (piece.text new)).line = (other.advance (piece.text old)).line := by
  have holdLines := count_newline_of_punctual hold
  have hnewLines := count_newline_of_punctual hnew
  cases piece <;> simp [Position.advance_line, Piece.text, List.count_append, hline, holdLines,
    hnewLines]

/-- A piece gives the same item with other delimiters, but for what `Item.plain` leaves out. -/
theorem Piece.item?_redelimit (hold : old.Punctual) (hnew : new.Punctual) (piece : Piece)
    {position other : Position} (hline : position.line = other.line) :
    (piece.item? new position).map Item.plain = (piece.item? old other).map Item.plain := by
  have holdLines := count_newline_of_punctual hold
  have hnewLines := count_newline_of_punctual hnew
  cases piece <;> simp [Piece.item?, Item.plain, Position.plain, Position.advance_line,
    List.count_append, hline, holdLines, hnewLines]

/-- Pieces give the same items with other delimiters, but for what `Item.plain` leaves out. -/
theorem items_redelimit (hold : old.Punctual) (hnew : new.Punctual) (pieces : List Piece)
    (fault : Option String) {position other : Position} (hline : position.line = other.line) :
    (Scan.items new position ⟨pieces, fault⟩).map Item.plain =
      (Scan.items old other ⟨pieces, fault⟩).map Item.plain := by
  induction pieces generalizing position other with
  | nil => cases fault <;> simp [Scan.items, lastItem, Item.plain, Position.plain, hline]
  | cons piece rest ih =>
    have hpiece := congrArg Option.toList (piece.item?_redelimit hold hnew hline)
    have hrest := ih (piece.line_redelimit hold hnew hline)
    simp only [Option.toList_map] at hpiece
    rw [← List.singleton_append, Scan.items_append, Scan.items_append, List.map_append,
      List.map_append]
    simpa [itemsOf, hpiece] using hrest

variable {source : String}

/-- The scan of a source that can be written with other delimiters stops at its end. -/
theorem Redelimits.fault_eq (hsource : Redelimits old new source) :
    (scan old .outside source.toList).fault = none := by
  have hends := hsource.ends
  rw [lex_eq, Scan.items, List.getLast?_append, List.getLast?_singleton] at hends
  cases hfault : (scan old .outside source.toList).fault with
  | none => rfl
  | some message => simp [hfault, lastItem] at hends

/-- No piece of a source that can be written with other delimiters has a character of either
pair. -/
theorem Redelimits.isFreeOf (hsource : Redelimits old new source) :
    ∀ piece ∈ (scan old .outside source.toList).pieces,
      piece.IsFreeOf old ∧ piece.IsFreeOf new := by
  intro piece hpiece
  obtain ⟨start, hitems⟩ := exists_position_of_mem old {} hpiece
  have hfree (item : Item) (hitem : piece.item? old start = some item) :
      item.kind ≠ .leftDelim → item.kind ≠ .rightDelim →
        FreeOf old item.value.toList ∧ FreeOf new item.value.toList := by
    refine hsource.free item ?_
    rw [lex_eq]
    exact List.mem_append_left _ (hitems item hitem)
  cases piece with
  | item kind text =>
    have hkind : kind ≠ .leftDelim ∧ kind ≠ .rightDelim := by
      have hscans := scans_scan old .outside source.toList
      rcases hscans.lexes_of_mem hpiece with rfl | ⟨_, _, _, _, hlexes⟩
      · simp
      · constructor <;> rintro rfl <;> cases hlexes.isLexeme
    simpa [Piece.IsFreeOf] using hfree _ rfl hkind.1 hkind.2
  | comment left text right => simpa [Piece.IsFreeOf] using hfree _ rfl (by simp) (by simp)
  | opening | closing | broken | blanks => exact ⟨trivial, trivial⟩

/-- A source that can be written with other delimiters is scanned with them as before. -/
theorem Redelimits.scans (hsource : Redelimits old new source) :
    Scans new .outside (redelimit old new source).toList
      (scan old .outside source.toList).pieces none := by
  rw [redelimit, String.toList_ofList]
  have hscans := scans_scan old .outside source.toList
  exact hscans.redelimit hsource.old_punctual hsource.new_punctual hsource.fault_eq
    (fun piece hpiece ↦ (hsource.isFreeOf piece hpiece).1)
    (fun piece hpiece ↦ (hsource.isFreeOf piece hpiece).2)

/-- A source with other delimiters has the same items, but for their offsets and the text of the
delimiters. -/
theorem lex_redelimit (hsource : Redelimits old new source) :
    (lex new (redelimit old new source)).map Item.plain = (lex old source).map Item.plain := by
  have hitems := hsource.scans.lexFrom_eq {}
  change lex new (redelimit old new source) = _ at hitems
  rw [hitems, lex_eq, ← hsource.fault_eq]
  exact items_redelimit hsource.old_punctual hsource.new_punctual _ _ rfl

end Items

end Stencil.Syntax
