import Stencil.Proofs.Lexing.Stream
import Stencil.Proofs.Unfolding.Lookahead
import Stencil.Proofs.Unfolding.Nesting

/-!
# The open structures along the pieces of a source

`Balances` says of the pieces of a source what `Nests` says of its items: which structures are open
at each place of an accepted source. In addition it says how the actions are written that matter for
an else, which the items leave open: an else that goes on with the word of a structure has blanks
between the two words, and an end has nothing but blanks before its right delimiter.

`openBehind` computes the open structures behind some pieces. So it can be asked of any source
whether an else stands in an `if`, and whether an end is the matching one of a word before it: if
no structure is open behind what stands between them, and none from before was ended there.
-/

set_option autoImplicit false
set_option relaxedAutoImplicit false

namespace Stencil.Syntax

/-! ### The kinds of pieces -/

/-- The kinds of the items of pieces in a row, without spaces. -/
def kindsOf (pieces : List Piece) : List ItemKind :=
  (pieces.filterMap Piece.kind?).filter (· ≠ .space)

/-- The word with which an else goes on, if pieces start with an else that does. -/
def furtherWord? (pieces : List Piece) : Option Keyword :=
  match (kindsOf pieces).take 2 with
  | [.keyword .elseWord, .keyword word] => some word
  | _ => none

section Kinds

@[simp]
theorem kindsOf_append (first second : List Piece) :
    kindsOf (first ++ second) = kindsOf first ++ kindsOf second := by
  simp [kindsOf]

/-- The first item of pieces that is no space is the first kind. -/
theorem kindsOf_cons {piece : Piece} {kind : ItemKind} (hkind : piece.kind? = some kind)
    (hspace : kind ≠ .space) (pieces : List Piece) :
    kindsOf (piece :: pieces) = kind :: kindsOf pieces := by
  simp [kindsOf, hkind, hspace]

@[simp]
theorem kindsOf_word (word : Keyword) (pieces : List Piece) :
    kindsOf (wordPiece word :: pieces) = .keyword word :: kindsOf pieces :=
  @kindsOf_cons (wordPiece word) _ rfl nofun pieces

@[simp]
theorem kindsOf_opening (marker : Option Char) (pieces : List Piece) :
    kindsOf (.opening marker :: pieces) = .leftDelim :: kindsOf pieces :=
  @kindsOf_cons (.opening marker) _ rfl nofun pieces

@[simp]
theorem kindsOf_closing (marker : Option Char) (pieces : List Piece) :
    kindsOf (.closing marker :: pieces) = .rightDelim :: kindsOf pieces :=
  @kindsOf_cons (.closing marker) _ rfl nofun pieces

@[simp]
theorem kindsOf_spacePieces (text : List Char) : kindsOf (spacePieces text) = [] := by
  unfold spacePieces
  split <;> rfl

/-- The first item after spaces is the first item that is no space. -/
theorem headOf_eq (pieces : List Piece) : headOf pieces = (kindsOf pieces).headD .eof := by
  rw [headOf, kindsOf]
  induction pieces.filterMap Piece.kind? with
  | nil => rfl
  | cons kind kinds ih =>
    by_cases hspace : kind = .space
    · rw [List.dropWhile_cons_of_pos (by simpa using hspace), ih,
        List.filter_cons_of_neg (by simpa using hspace)]
    · rw [List.dropWhile_cons_of_neg (by simpa using hspace),
        List.filter_cons_of_pos (by simpa using hspace)]
      rfl

/-- An else that goes on starts with its word. -/
theorem headOf_of_furtherWord? {pieces : List Piece} {word : Keyword}
    (hword : furtherWord? pieces = some word) : headOf pieces = .keyword .elseWord := by
  rw [headOf_eq]
  unfold furtherWord? at hword
  split at hword
  next heq =>
    cases hkinds : kindsOf pieces with
    | nil => simp [hkinds] at heq
    | cons kind kinds =>
      rw [hkinds, List.take_succ_cons, List.cons.injEq] at heq
      exact heq.1
  next => cases hword

/-- An else goes on with the word that stands behind it. -/
theorem furtherWord?_else {lead : List Char} {rest : List Piece} {word : Keyword} :
    furtherWord? (spacePieces lead ++ wordPiece .elseWord :: rest) = some word ↔
      headOf rest = .keyword word := by
  have hkinds : kindsOf (spacePieces lead ++ wordPiece .elseWord :: rest) =
      .keyword .elseWord :: kindsOf rest := by simp
  rw [furtherWord?, hkinds, headOf_eq, List.take_succ_cons]
  cases kindsOf rest with
  | nil => simp
  | cons kind kinds =>
    rw [List.take_succ_cons, List.take_zero]
    cases kind <;> simp

end Kinds

/-- Whether a piece is no left delimiter of an action. -/
def Piece.IsInner (piece : Piece) : Prop := piece.kind? ≠ some .leftDelim

theorem isInner_spacePieces (text : List Char) : ∀ piece ∈ spacePieces text, piece.IsInner := by
  unfold spacePieces
  split <;> simp [Piece.IsInner, Piece.kind?]

theorem isInner_wordPiece (word : Keyword) : (wordPiece word).IsInner := by
  simp [wordPiece, Piece.IsInner, Piece.kind?]

theorem isInner_closing (marker : Option Char) : (Piece.closing marker).IsInner := by
  simp [Piece.IsInner, Piece.kind?]

theorem isInner_blankPieces (text : List Char) : ∀ piece ∈ blankPieces text, piece.IsInner := by
  unfold blankPieces
  split <;> simp [Piece.IsInner, Piece.kind?]

theorem isInner_textPieces (text : List Char) : ∀ piece ∈ textPieces text, piece.IsInner := by
  unfold textPieces
  split <;> simp [Piece.IsInner, Piece.kind?]

theorem isInner_headPieces (head : Head) : ∀ piece ∈ head.pieces, piece.IsInner :=
  List.forall_mem_append.mpr ⟨isInner_textPieces _, isInner_blankPieces _⟩

/-! ### Open structures -/

/-- That an else of the innermost structure goes on with the word of this structure. -/
structure GoesOn (word : Keyword) (structures : List Keyword) (pieces : List Piece) : Prop where
  belongs : ∃ outer, structures = word :: outer
  isWord : word = .ifWord ∨ word = .withWord
  written : ∃ lead gap rest, gap ≠ [] ∧ (∀ c ∈ gap, isBlank c) ∧
    pieces = spacePieces lead ++ wordPiece .elseWord :: (spacePieces gap ++ wordPiece word :: rest)

/-- That these structures are open in front of pieces, and none behind them. -/
inductive Balances : List Keyword → List Piece → Prop
  | finished : Balances [] []
  | piece {structures : List Keyword} {piece : Piece} {pieces : List Piece}
    (hinner : piece.IsInner) (hrest : Balances structures pieces) :
    Balances structures (piece :: pieces)
  | action {structures : List Keyword} {marker : Option Char} {pieces : List Piece}
    (hhead : headOf pieces ≠ .keyword .endWord)
    (hfurther : ∀ word, furtherWord? pieces = some word → GoesOn word structures pieces)
    (hrest : Balances (opened (headOf pieces) structures) pieces) :
    Balances structures (.opening marker :: pieces)
  /-- The end of the innermost structure. -/
  | ended {word : Keyword} {structures : List Keyword} {marker closing : Option Char}
    {lead last : List Char} {pieces : List Piece} (hrest : Balances structures pieces) :
    Balances (word :: structures) (.opening marker :: (spacePieces lead ++ wordPiece .endWord ::
      (spacePieces last ++ .closing closing :: pieces)))

section Balances

variable {structures : List Keyword} {pieces rest : List Piece} {marker : Option Char}

/-- Pieces inside an action or between actions leave the open structures as they are. -/
theorem Balances.append (hpieces : ∀ piece ∈ pieces, piece.IsInner)
    (hrest : Balances structures rest) : Balances structures (pieces ++ rest) := by
  induction pieces with
  | nil => exact hrest
  | cons piece more ih =>
    obtain ⟨hpiece, hmore⟩ := List.forall_mem_cons.mp hpieces
    exact .piece hpiece (ih hmore)

theorem Balances.of_cons {piece : Piece} (hpiece : piece.IsInner)
    (hbalances : Balances structures (piece :: rest)) : Balances structures rest := by
  cases hbalances with
  | piece _ hrest => exact hrest
  | action | ended => exact absurd rfl hpiece

theorem Balances.of_append (hpieces : ∀ piece ∈ pieces, piece.IsInner)
    (hbalances : Balances structures (pieces ++ rest)) : Balances structures rest := by
  induction pieces with
  | nil => exact hbalances
  | cons piece more ih =>
    obtain ⟨hpiece, hmore⟩ := List.forall_mem_cons.mp hpieces
    exact ih hmore (hbalances.of_cons hpiece)

theorem Balances.of_lead_word {lead : List Char} {word : Keyword}
    (hbalances : Balances structures (spacePieces lead ++ wordPiece word :: rest)) :
    Balances structures rest :=
  (hbalances.of_append (isInner_spacePieces lead)).of_cons (isInner_wordPiece word)

theorem Balances.of_last_closing {last : List Char} {closing : Option Char}
    (hbalances : Balances structures (spacePieces last ++ .closing closing :: rest)) :
    Balances structures rest :=
  (hbalances.of_append (isInner_spacePieces last)).of_cons (isInner_closing closing)

/-- An end closes the innermost structure. -/
theorem Balances.of_end (hbalances : Balances structures (.opening marker :: rest))
    (hhead : headOf rest = .keyword .endWord) :
    ∃ word outer, structures = word :: outer ∧ Balances outer rest := by
  cases hbalances with
  | piece hinner => exact absurd rfl hinner
  | action hne => exact absurd hhead hne
  | @ended word outer _ closing lead last _ hbehind =>
    refine ⟨word, outer, rfl, .append (isInner_spacePieces lead) (.piece (isInner_wordPiece _) ?_)⟩
    exact .append (isInner_spacePieces last) (.piece (isInner_closing closing) hbehind)

/-- Any other action opens the structure that its word says, if it says one. -/
theorem Balances.of_opening (hbalances : Balances structures (.opening marker :: rest))
    (hhead : headOf rest ≠ .keyword .endWord) :
    (∀ word, furtherWord? rest = some word → GoesOn word structures rest) ∧
      Balances (opened (headOf rest) structures) rest := by
  cases hbalances with
  | piece hinner => exact absurd rfl hinner
  | action _ hfurther hbehind => exact ⟨hfurther, hbehind⟩
  | ended => exact absurd (by simp [headOf_eq]) hhead

end Balances

/-! ### The pieces of an accepted source -/

section Scans

variable {delimiters : Delimiters} {depth : Nat} {text : List Char} {pieces : List Piece}

/-- A keyword other than the dot is written as its word. -/
theorem Scans.eq_wordPiece {piece : Piece} {word : Keyword}
    (hscans : Scans delimiters (.inside depth) text (piece :: pieces) none)
    (hkind : piece.kind? = some (.keyword word)) (hword : word ≠ .dot) :
    piece = wordPiece word := by
  cases piece with
  | item kind value =>
    obtain rfl : kind = .keyword word := Option.some.inj hkind
    obtain ⟨_, c, more, -, rfl, hlexes, -, -⟩ := hscans.of_item
    obtain ⟨hspelled, hlength, -⟩ := hlexes.of_keyword hword
    have hvalue : (more ++ texts delimiters pieces).takeWhile isNameChar = more := by
      rw [List.prefix_iff_eq_take.mp (List.takeWhile_prefix isNameChar), hlength, List.take_left]
    rw [hvalue] at hspelled
    rw [wordPiece, spelling_of_ofWord? hspelled, String.toList_ofList]
  | _ => cases hkind

/-- No run of blanks stands right behind another one. -/
theorem Scans.not_space_space {blanks others : List Char} : ¬ Scans delimiters (.inside depth) text
    (.item .space blanks :: .item .space others :: pieces) none := by
  intro hscans
  obtain ⟨_, c, more, -, -, hlexes, -, hinside⟩ := hscans.of_item
  obtain ⟨_, d, rest, -, rfl, hnext, hclosing, -⟩ := hinside.of_item
  have hblank : startsBlank (texts delimiters (.item .space (d :: rest) :: pieces)) = true :=
    hnext.of_space.1
  cases hclosing.symm.trans (hlexes.closing?_eq hblank)

/-- Inside an action the first item that is no space stands behind at most one run of blanks. -/
theorem Scans.exists_head (hscans : Scans delimiters (.inside depth) text pieces none) :
    ∃ lead piece rest, pieces = spacePieces lead ++ piece :: rest ∧
      piece.kind? = some (headOf pieces) := by
  have hfirst {depth : Nat} {text : List Char} {pieces : List Piece}
      (hscans : Scans delimiters (.inside depth) text pieces none) :
      ∃ piece rest kind, pieces = piece :: rest ∧ piece.kind? = some kind := by
    cases hscans with
    | close | item => exact ⟨_, _, _, rfl, rfl⟩
  obtain ⟨piece, rest, kind, rfl, hkind⟩ := hfirst hscans
  by_cases hspace : kind = .space
  · subst hspace
    cases piece with
    | item kind value =>
      cases hkind
      obtain ⟨_, c, more, -, rfl, -, -, hinside⟩ := hscans.of_item
      obtain ⟨next, behind, kind, rfl, hnext⟩ := hfirst hinside
      have hne : kind ≠ .space := by
        rintro rfl
        cases next <;> cases hnext
        exact hscans.not_space_space
      refine ⟨c :: more, next, behind, rfl, ?_⟩
      have hkinds : kindsOf (.item .space (c :: more) :: next :: behind) = kind :: kindsOf behind :=
        kindsOf_cons hnext hne behind
      rw [headOf_eq, hkinds, hnext, List.headD_cons]
    | _ => cases hkind
  · refine ⟨[], piece, rest, rfl, ?_⟩
    rw [headOf_eq, kindsOf_cons hkind hspace, hkind, List.headD_cons]

/-- What stands behind the item that the items of an action start with are the items of what stands
behind its piece. -/
theorem Scans.of_startsWith (hscans : Scans delimiters (.inside depth) text pieces none)
    {kind : ItemKind} {position : Position} {items : List Item}
    (hstarts : StartsWith kind (Scan.items delimiters position ⟨pieces, none⟩) items) :
    ∃ lead piece rest after, pieces = spacePieces lead ++ piece :: rest ∧
      piece.kind? = some kind ∧ items = Scan.items delimiters after ⟨rest, none⟩ := by
  obtain ⟨lead, piece, rest, hpieces, hkind⟩ := hscans.exists_head
  rw [← headKind_items position, hstarts.headKind_eq] at hkind
  obtain ⟨item, hdrop, -⟩ := hstarts.dropSpaces
  obtain ⟨after, hrest⟩ := startsWith_items piece hkind hstarts.ne_space position lead rest
  rw [← hpieces] at hrest
  obtain ⟨other, hdrop', -⟩ := hrest.dropSpaces
  exact ⟨lead, piece, rest, after, hpieces, hkind, (List.cons.inj (hdrop.symm.trans hdrop')).2⟩

/-- An else goes on with a word behind blanks. -/
theorem Scans.exists_gap (hpunctual : delimiters.Punctual)
    (hscans : Scans delimiters (.inside depth) text (wordPiece .elseWord :: pieces) none)
    {word : Keyword} (hhead : headOf pieces = .keyword word) (hword : word ≠ .dot) :
    ∃ gap rest, gap ≠ [] ∧ (∀ c ∈ gap, isBlank c) ∧
      pieces = spacePieces gap ++ wordPiece word :: rest := by
  obtain ⟨hend, hinside⟩ := hscans.of_word (by simp)
  obtain ⟨gap, piece, rest, rfl, hkind⟩ := hinside.exists_head
  obtain ⟨hblank, hbehind⟩ := hinside.of_spaces
  rw [hhead] at hkind
  obtain rfl := hbehind.eq_wordPiece hkind hword
  refine ⟨gap, rest, ?_, hblank, rfl⟩
  rintro rfl
  -- without blanks the two words would be one
  have htake := takeWhile_of_atTerminator hpunctual hend
  obtain ⟨c, value, hspelling, -, hnamed⟩ := spelling_eq hword
  change (texts delimiters (wordPiece word :: rest)).takeWhile isNameChar = [] at htake
  rw [texts_cons, wordPiece, Piece.text, hspelling, List.cons_append,
    List.takeWhile_cons_of_pos (hnamed c List.mem_cons_self)] at htake
  cases htake

/-- Behind the start of an action, the structures that are open in its items are open in its
pieces. -/
theorem Turns.balances (hpunctual : delimiters.Punctual)
    (hscans : Scans delimiters (.inside 0) text pieces none) {marker : Option Char}
    {position : Position} {before behind : List Keyword}
    (hturns : Turns (Scan.items delimiters position ⟨pieces, none⟩) before behind)
    (hrest : Balances behind pieces) : Balances before (.opening marker :: pieces) := by
  cases hturns with
  | other hend helse =>
    rw [headKind_items] at hend helse hrest
    exact .action hend (fun word hword ↦ absurd (headOf_of_furtherWord? hword) helse) hrest
  | @otherwise word structures items helse hnext =>
    have hhead : headOf pieces = .keyword .elseWord := by
      rw [← headKind_items position, helse.headKind_eq]
    refine .action (by simp [hhead]) (fun next hfurther ↦ ?_) (by rwa [hhead])
    obtain ⟨lead, piece, rest, after, rfl, hkind, rfl⟩ := hscans.of_startsWith helse
    obtain ⟨-, hinside⟩ := hscans.of_spaces
    obtain rfl := hinside.eq_wordPiece hkind nofun
    have hgoes := furtherWord?_else.mp hfurther
    obtain ⟨rfl, hword⟩ := hnext next ((headKind_items after rest).trans hgoes)
    obtain ⟨gap, more, hgap, hblank, rfl⟩ :=
      hinside.exists_gap hpunctual hgoes (by rcases hword with rfl | rfl <;> nofun)
    exact ⟨⟨structures, rfl⟩, hword, lead, gap, more, hgap, hblank, rfl⟩
  | ended hend hclosing =>
    obtain ⟨lead, piece, rest, after, rfl, hkind, rfl⟩ := hscans.of_startsWith hend
    obtain ⟨-, hinside⟩ := hscans.of_spaces
    obtain rfl := hinside.eq_wordPiece hkind nofun
    obtain ⟨-, hbehind⟩ := hinside.of_word (by simp)
    obtain ⟨last, closing, others, after, rfl, hkind, rfl⟩ := hbehind.of_startsWith hclosing
    cases closing with
    | closing => exact .ended hrest.of_lead_word.of_last_closing
    | item kind value =>
      obtain rfl : kind = .rightDelim := Option.some.inj hkind
      obtain ⟨_, _, _, -, -, hlexes, -, -⟩ := hbehind.of_spaces.2.of_item
      cases hlexes.isLexeme
    | _ => cases hkind

/-- Items of pieces with no left delimiter leave the open structures as they are. -/
theorem Nests.of_pieces {structures : List Keyword} {front : List Piece} {position : Position}
    (hfront : ∀ piece ∈ front, piece.IsInner)
    (hnests : Nests structures (Scan.items delimiters position ⟨front ++ pieces, none⟩)) :
    ∃ after, Nests structures (Scan.items delimiters after ⟨pieces, none⟩) := by
  induction front generalizing position with
  | nil => exact ⟨position, hnests⟩
  | cons piece rest ih =>
    obtain ⟨hpiece, hrest⟩ := List.forall_mem_cons.mp hfront
    rw [List.cons_append, items_cons] at hnests
    cases piece with
    | opening => exact absurd rfl hpiece
    | broken | blanks => exact ih hrest hnests
    | item | closing | comment =>
      cases hnests with
      | item _ hrest' => exact ih hrest hrest'
      | action hopening =>
        exact absurd (congrArg some hopening) hpiece

/-- The structures that are open in the items of a scan are open in its pieces. -/
theorem Scans.balances (hpunctual : delimiters.Punctual) {mode : Mode}
    (hscans : Scans delimiters mode text pieces none) {structures : List Keyword}
    {position : Position}
    (hnests : Nests structures (Scan.items delimiters position ⟨pieces, none⟩)) :
    Balances structures pieces := by
  generalize hfault : none = fault at hscans
  induction hscans generalizing structures position with
  | @plain text _ =>
    rw [← List.append_nil (textPieces text)] at hnests ⊢
    obtain ⟨after, hend⟩ := hnests.of_pieces (isInner_textPieces text)
    refine .append (isInner_textPieces text) ?_
    cases hend with
    | item _ hnil =>
      cases hnil
      exact .finished
    | action hopening => cases hopening
  | @action _ head _ _ _ _ hinside ih =>
    subst hfault
    obtain ⟨after, hopens⟩ := hnests.of_pieces (isInner_headPieces head)
    refine .append (isInner_headPieces head) ?_
    rw [items_opening] at hopens
    cases hopens with
    | item hkind => exact absurd rfl hkind
    | action _ hturns hrest => exact hturns.balances hpunctual hinside (ih hrest rfl)
  | @comment _ content head tail _ _ _ _ _ _ _ _ _ ih =>
    have hfront : ∀ piece ∈ head.pieces ++
        .comment head.marker content tail.marker :: blankPieces tail.blanks, piece.IsInner :=
      List.forall_mem_append.mpr ⟨isInner_headPieces head,
        List.forall_mem_cons.mpr ⟨by simp [Piece.IsInner, Piece.kind?], isInner_blankPieces _⟩⟩
    rw [← List.cons_append, ← List.append_assoc] at hnests ⊢
    obtain ⟨after, hrest⟩ := hnests.of_pieces hfront
    exact .append hfront (ih hrest hfault)
  | brokenComment | strayParen | stop => cases hfault
  | @close _ tail _ _ _ _ ih =>
    have hfront : ∀ piece ∈ .closing tail.marker :: blankPieces tail.blanks, piece.IsInner :=
      List.forall_mem_cons.mpr ⟨isInner_closing _, isInner_blankPieces _⟩
    rw [← List.cons_append] at hnests ⊢
    obtain ⟨after, hrest⟩ := hnests.of_pieces hfront
    exact .append hfront (ih hrest hfault)
  | @item _ _ c value _ kind _ _ _ hlexeme _ _ ih =>
    have hlexes := (lexes_of_lexeme hlexeme).isLexeme
    have hinner : (Piece.item kind (c :: value)).IsInner := by
      rintro ⟨⟩
      cases hlexes
    obtain ⟨after, hrest⟩ := @Nests.of_pieces _ _ _ [_] _ (by simpa using hinner) hnests
    exact .piece hinner (ih hrest hfault)

end Scans

/-- An accepted source is scanned to its end, and its pieces open and close structures as they
should. -/
theorem exists_balances_of_parse {delimiters : Delimiters} (hpunctual : delimiters.Punctual)
    {name source : String} {isFunction : String → Bool} {set : TreeSet}
    (hparse : parse name delimiters isFunction source = .ok set) :
    ∃ pieces, scan delimiters .outside source.toList = ⟨pieces, none⟩ ∧ Balances [] pieces := by
  have hscans := scans_scan delimiters .outside source.toList
  have hnests := nests_of_parse hparse
  obtain ⟨nodes, after, hderives, -⟩ := parse_eq_ok_iff.mp hparse
  obtain ⟨items, ending, hlex, hkind, -⟩ := hderives.exists_end
  rw [lex_eq, Scan.items] at hlex
  obtain ⟨-, hlast⟩ := List.append_inj' hlex rfl
  rw [lex_eq] at hnests
  generalize scan delimiters .outside source.toList = scan at hscans hnests hlast
  obtain ⟨pieces, fault⟩ := scan
  cases fault with
  | none => exact ⟨pieces, rfl, hscans.balances hpunctual hnests⟩
  | some message =>
    cases hlast
    cases hkind

end Stencil.Syntax
