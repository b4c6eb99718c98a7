import Stencil.Proofs.Unfolding.Lookahead

/-!
# Rewriting an else and an end

An expansion of a source is read as the pieces that it was made of, and so is the source that an
expansion was made of. Both follow from one relation: `Varies` says that rows of pieces differ in
the words with which some of their actions start, where the last of these words is the same in both
(`Links`). If one of the rows is a scan, then the other one is (`Varies.scans`): the lexer reads
the words one after the other, and the rest of the action behind them as before.
-/

set_option autoImplicit false
set_option relaxedAutoImplicit false

namespace Stencil.Syntax

variable {delimiters : Delimiters}

/-! ### Rows of words -/

/-- That pieces are keywords up to a last one, each in an action of its own or not. -/
inductive Links (last : Keyword) : List Piece → Prop
  | word (hlast : last ≠ .dot) : Links last [wordPiece last]
  /-- Blanks between two words of an action. -/
  | gap {word : Keyword} {gap : List Char} {pieces : List Piece} (hword : word ≠ .dot)
    (hgap : gap ≠ []) (hblank : ∀ c ∈ gap, isBlank c = true) (hrest : Links last pieces) :
    Links last (wordPiece word :: (spacePieces gap ++ pieces))
  /-- The end of an action and the start of another one. -/
  | joint {word : Keyword} {joint : Joint} {pieces : List Piece} (hword : word ≠ .dot)
    (hjoint : joint.IsBlank) (hrest : Links last pieces) :
    Links last (wordPiece word :: (joint.pieces ++ pieces))

section Links

variable {last : Keyword} {words pieces : List Piece}

/-- A row of words starts with a word. -/
theorem Links.exists_cons (hlinks : Links last words) :
    ∃ word rest, words = wordPiece word :: rest ∧ word ≠ .dot := by
  cases hlinks with
  | word hlast => exact ⟨last, [], rfl, hlast⟩
  | gap hword | joint hword => exact ⟨_, _, rfl, hword⟩

/-- Behind a row of words the last action goes on, and a name may end. -/
theorem Links.scans_rest (hlinks : Links last words) {text : List Char}
    (hscans : Scans delimiters (.inside 0) text (words ++ pieces) none) :
    atTerminator delimiters (texts delimiters pieces) = true ∧
      Scans delimiters (.inside 0) (texts delimiters pieces) pieces none := by
  induction hlinks generalizing text with
  | word hlast => exact hscans.of_word hlast
  | gap hword _ _ _ ih =>
    rw [List.cons_append, List.append_assoc] at hscans
    exact ih (hscans.of_word hword).2.of_spaces.2
  | joint hword _ _ ih =>
    rw [List.cons_append, List.append_assoc] at hscans
    exact ih (hscans.of_word hword).2.of_joint

/-- A row of words is read where a name may end behind it. -/
theorem Links.scans (hpunctual : delimiters.Punctual) (hlinks : Links last words)
    (hend : atTerminator delimiters (texts delimiters pieces) = true)
    (hscans : Scans delimiters (.inside 0) (texts delimiters pieces) pieces none) :
    Scans delimiters (.inside 0) (texts delimiters (words ++ pieces)) (words ++ pieces) none := by
  induction hlinks with
  | word hlast => exact hscans.cons_word hpunctual hlast hend
  | gap hword hgap hblank hrest ih =>
    obtain ⟨word, rest, rfl, hnext⟩ := hrest.exists_cons
    rw [List.cons_append, List.append_assoc]
    refine Scans.cons_word hpunctual hword (atTerminator_spacePieces hblank hgap _) ?_
    exact ih.cons_spaces hpunctual hblank (endsSpaces_word hnext _)
  | joint hword hjoint hrest ih =>
    obtain ⟨word, rest, rfl, hnext⟩ := hrest.exists_cons
    rw [List.cons_append, List.append_assoc]
    obtain ⟨hterminator, hjoined⟩ := Scans.cons_joint hpunctual hjoint hnext ih
    exact Scans.cons_word hpunctual hword hterminator hjoined

end Links

/-! ### Rows that vary in their words -/

/-- That pieces differ in the words with which some of their actions start. -/
inductive Varies : List Piece → List Piece → Prop
  | nil : Varies [] []
  | cons {pieces others : List Piece} (piece : Piece) (hrest : Varies pieces others) :
    Varies (piece :: pieces) (piece :: others)
  | words {last : Keyword} {marker : Option Char} {lead : List Char}
    {first second pieces others : List Piece} (hfirst : Links last first)
    (hsecond : Links last second) (hrest : Varies pieces others) :
    Varies (.opening marker :: (spacePieces lead ++ (first ++ pieces)))
      (.opening marker :: (spacePieces lead ++ (second ++ others)))

section Varies

variable {pieces others : List Piece}

theorem Varies.symm (hvaries : Varies pieces others) : Varies others pieces := by
  induction hvaries with
  | nil => exact .nil
  | cons piece _ ih => exact .cons piece ih
  | words hfirst hsecond _ ih => exact .words hsecond hfirst ih

/-- Rows that vary in their words have every other piece in common. -/
theorem Varies.of_cons {piece : Piece} (hopening : ∀ marker, piece ≠ .opening marker)
    (hvaries : Varies (piece :: pieces) others) :
    ∃ rest, others = piece :: rest ∧ Varies pieces rest := by
  cases hvaries with
  | cons _ hrest => exact ⟨_, rfl, hrest⟩
  | words => exact absurd rfl (hopening _)

/-- Rows that vary in their words have in common what stands before an action. -/
theorem Varies.of_append {before : List Piece} (hbefore : ∀ piece ∈ before, piece.isFiller)
    (hvaries : Varies (before ++ pieces) others) :
    ∃ rest, others = before ++ rest ∧ Varies pieces rest := by
  induction before generalizing others with
  | nil => exact ⟨others, rfl, hvaries⟩
  | cons piece before ih =>
    obtain ⟨hpiece, hbefore⟩ := List.forall_mem_cons.mp hbefore
    obtain ⟨behind, rfl, hbehind⟩ := hvaries.of_cons (by rintro marker rfl; cases hpiece)
    obtain ⟨rest, rfl, hrest⟩ := ih hbefore hbehind
    exact ⟨rest, rfl, hrest⟩

/-- Rows that vary in their words start with a blank or not alike. -/
theorem Varies.startsBlank_eq (hvaries : Varies pieces others)
    (htexts : ∀ piece ∈ pieces, piece.text delimiters ≠ []) :
    startsBlank (texts delimiters others) = startsBlank (texts delimiters pieces) := by
  cases hvaries with
  | nil => rfl
  | cons piece =>
    have hpiece := htexts piece List.mem_cons_self
    rw [texts_cons, texts_cons, startsBlank_append hpiece, startsBlank_append hpiece]
  | @words _ marker =>
    have hpiece := htexts (.opening marker) List.mem_cons_self
    rw [texts_cons, texts_cons, startsBlank_append hpiece, startsBlank_append hpiece]

/-- Rows that vary in their words have the same text up to the right delimiter of an action. -/
theorem Varies.exists_right {depth : Nat} {text : List Char} (hvaries : Varies pieces others)
    (hscans : Scans delimiters (.inside depth) text pieces none) :
    ∃ inner more other, texts delimiters pieces = inner ++ (delimiters.right.toList ++ more) ∧
      texts delimiters others = inner ++ (delimiters.right.toList ++ other) := by
  generalize hmode : Mode.inside depth = mode at hscans
  generalize hfault : none = fault at hscans
  induction hscans generalizing depth others with
  | @close _ tail behind =>
    obtain ⟨rest, rfl, -⟩ := hvaries.of_cons (by simp)
    refine ⟨rightMarker tail.marker, texts delimiters (blankPieces tail.blanks ++ behind),
      texts delimiters rest, ?_, ?_⟩
    · rw [texts_cons, Piece.text, List.append_assoc]
    · rw [texts_cons, Piece.text, List.append_assoc]
  | @item _ deeper c value _ kind _ _ _ _ _ _ ih =>
    obtain ⟨rest, rfl, hrest⟩ := hvaries.of_cons (by simp)
    obtain ⟨inner, more, other, hfirst, hsecond⟩ := ih hrest rfl hfault
    refine ⟨c :: value ++ inner, more, other, ?_, ?_⟩
    · rw [texts_cons, hfirst, List.append_assoc, Piece.text]
    · rw [texts_cons, hsecond, List.append_assoc, Piece.text]
  | strayParen | stop => cases hfault
  | plain | action | comment | brokenComment => cases hmode

/-- Where a name may end before an action goes on is the same for rows that vary in their words. -/
theorem Varies.atTerminator_eq {depth : Nat} {text : List Char} (hvaries : Varies pieces others)
    (hscans : Scans delimiters (.inside depth) text pieces none) :
    atTerminator delimiters (texts delimiters others) =
      atTerminator delimiters (texts delimiters pieces) := by
  obtain ⟨inner, more, other, hfirst, hsecond⟩ := hvaries.exists_right hscans
  rw [hfirst, hsecond]
  exact atTerminator_replace inner other more

/-- The start of an action is read as before where something else follows it. -/
theorem Opens.replace {text body : List Char} {head : Head} (hopens : Opens delimiters text head)
    (hbody : head.marker = none → markerBlank? body = none) :
    Opens delimiters
      (head.value ++ head.blanks ++ (delimiters.left.toList ++ (leftMarker head.marker ++ body)))
      { head with body := body } := by
  refine ⟨rfl, ?_, hopens.blanks,
    fun hmarker ↦ ⟨(hopens.unmarked hmarker).1, hbody hmarker⟩, hopens.marked⟩
  have hfirst := hopens.first
  rw [hopens.text_eq, ← List.append_assoc] at hfirst
  rw [← List.append_assoc]
  refine findPattern_append _ hfirst ?_
  rw [← List.length_append]

/-- An action is read as before where something else follows its start that is no comment and has
no trim marker. -/
theorem Scans.replace_body {text : List Char} {head : Head} (hopens : Opens delimiters text head)
    {inside : List Piece}
    (hbody : head.marker = none → markerBlank? (texts delimiters inside) = none)
    (hcomment : ¬ ['/', '*'] <+: texts delimiters inside)
    (hinside : Scans delimiters (.inside 0) (texts delimiters inside) inside none) :
    Scans delimiters .outside (texts delimiters (head.pieces ++ .opening head.marker :: inside))
      (head.pieces ++ .opening head.marker :: inside) none := by
  have haction := Scans.action (hopens.replace hbody) hcomment hinside
  simpa [Piece.text, Head.pieces] using haction

/-- The end of an action or a comment is read as before where what follows it varies in its
words. -/
theorem Closes.replace {text : List Char} {tail : Tail} (hcloses : Closes delimiters text tail)
    (hpunctual : delimiters.Punctual) (hscans : Scans delimiters .outside tail.rest pieces none)
    (hvaries : Varies pieces others) :
    Closes delimiters (rightMarker tail.marker ++ (delimiters.right.toList ++ (tail.blanks ++
      texts delimiters others))) { tail with rest := texts delimiters others } := by
  refine hcloses.redelimit hpunctual ?_
  obtain ⟨unread, hrest, hunread⟩ := hscans.text_eq
  rw [hrest, hunread rfl, List.append_nil]
  exact hvaries.startsBlank_eq hscans.text_ne_nil

/-- A lexeme is read as before where something else stands behind the right delimiter. -/
theorem Scans.replace_item (hpunctual : delimiters.Punctual) {depth deeper : Nat} {c : Char}
    {value inner more other : List Char} {kind : ItemKind} {rest : List Piece}
    (hclosing : closing? delimiters (c :: (value ++ (inner ++ (delimiters.right.toList ++ more)))) =
      none)
    (hlexeme : lexeme delimiters c (value ++ (inner ++ (delimiters.right.toList ++ more))) =
      .ok (kind, value.length))
    (hdepth : nextDepth depth kind = some deeper)
    (hrest : texts delimiters rest = inner ++ (delimiters.right.toList ++ other))
    (hinside : Scans delimiters (.inside deeper) (texts delimiters rest) rest none) :
    Scans delimiters (.inside depth) (texts delimiters (.item kind (c :: value) :: rest))
      (.item kind (c :: value) :: rest) none := by
  rw [← List.append_assoc, ← List.cons_append, closing?_replace hpunctual.compact _ _ other,
    List.cons_append, List.append_assoc, ← hrest] at hclosing
  have hlexes := (lexes_of_lexeme hlexeme).replace hpunctual other
  rw [← hrest] at hlexes
  exact .item hclosing (lexeme_of_lexes hlexes) hdepth hinside

/-- If one of two rows that vary in their words is a scan, then the other one is. -/
theorem Varies.scans (hpunctual : delimiters.Punctual) {mode : Mode} {text : List Char}
    (hvaries : Varies pieces others) (hscans : Scans delimiters mode text pieces none) :
    Scans delimiters mode (texts delimiters others) others none := by
  induction hlength : pieces.length using Nat.strong_induction_on
    generalizing pieces others mode text with
  | _ length ih =>
  have hshorter {mode : Mode} {text : List Char} {shorter rest : List Piece}
      (hlt : shorter.length < pieces.length) (hvaries : Varies shorter rest)
      (hscans : Scans delimiters mode text shorter none) :
      Scans delimiters mode (texts delimiters rest) rest none :=
    ih shorter.length (hlength ▸ hlt) hvaries hscans rfl
  cases hscans with
  | @plain text habsent =>
    have hfiller : ∀ piece ∈ textPieces text, piece.isFiller := by
      unfold textPieces
      split <;> simp [Piece.isFiller]
    rw [← List.append_nil (textPieces text)] at hvaries
    obtain ⟨rest, rfl, hrest⟩ := hvaries.of_append hfiller
    cases hrest
    rw [List.append_nil, texts_textPieces]
    exact .plain habsent
  | @action text head inside _ hopens haction hinside =>
    obtain ⟨rest, rfl, hrest⟩ := hvaries.of_append (isFiller_headPieces head)
    obtain ⟨unread, hbody, hunread⟩ := hinside.text_eq
    rw [hunread rfl, List.append_nil] at hbody
    cases hrest with
    | @cons _ behind _ hbehind =>
      obtain ⟨inner, more, other, hfirst, hsecond⟩ := hbehind.exists_right hinside
      rw [hbody, hfirst, comment_prefix_right hpunctual] at haction
      refine Scans.replace_body hopens (fun hmarker ↦ ?_) ?_
        (hshorter (by simp; omega) hbehind hinside)
      · have hunmarked := (hopens.unmarked hmarker).2
        rw [hbody, hfirst, markerBlank?_right hpunctual] at hunmarked
        rw [hsecond, markerBlank?_right hpunctual, hunmarked]
      · rwa [hsecond, comment_prefix_right hpunctual]
    | @words last _ lead first second _ others hfirst hsecond hbehind =>
      obtain ⟨hlead, hwords⟩ := hinside.of_spaces
      obtain ⟨hend, hrest⟩ := hfirst.scans_rest hwords
      have hend' := (hbehind.atTerminator_eq hrest).trans hend
      have hrest' := hshorter (by simp; omega) hbehind hrest
      have hwords' := hsecond.scans hpunctual hend' hrest'
      obtain ⟨word, more, rfl, hword⟩ := hsecond.exists_cons
      obtain ⟨hunmarked, hcomment⟩ :=
        opens_word delimiters hword hlead (more ++ others)
      exact Scans.replace_body hopens (fun _ ↦ hunmarked) hcomment
        (hwords'.cons_spaces hpunctual hlead (endsSpaces_word hword _))
  | @comment text content head tail pieces _ rest hopens hbody hcomment hmeasured hcloses
      houtside =>
    obtain ⟨afterHead, rfl, hcommented⟩ := hvaries.of_append (isFiller_headPieces head)
    obtain ⟨afterComment, rfl, hblanks⟩ := hcommented.of_cons (by simp)
    obtain ⟨others, rfl, hrest⟩ := hblanks.of_append (isFiller_blankPieces tail.blanks)
    have hclosed := hcloses.replace hpunctual houtside hrest
    have hmarks (more : List Char) : ['/', '*'] <+: content ++ more :=
      (marks_of_commentLength hbody hcomment hmeasured).1.trans (List.prefix_append content more)
    have hopened (more : List Char) : Opens delimiters _ { head with body := content ++ more } :=
      hopens.replace fun _ ↦ by
        obtain ⟨after, hafter⟩ := hmarks more
        rw [← hafter]
        rfl
    have hscans := Scans.comment (hopened _) rfl (hmarks _)
      (commentLength_append _ (hbody ▸ hmeasured)) hclosed
      (hshorter (by simp; omega) hrest houtside)
    simpa [Piece.text, Head.pieces] using hscans
  | @close text tail pieces _ hcloses houtside =>
    obtain ⟨afterClosing, rfl, hblanks⟩ := hvaries.of_cons (by simp)
    obtain ⟨others, rfl, hrest⟩ := hblanks.of_append (isFiller_blankPieces tail.blanks)
    have hscans := Scans.close (hcloses.replace hpunctual houtside hrest)
      (hshorter (by simp) hrest houtside)
    simpa [Piece.text] using hscans
  | @item depth deeper c value rest kind inside _ hclosing hlexeme hdepth hinside =>
    obtain ⟨behind, rfl, hbehind⟩ := hvaries.of_cons (by simp)
    obtain ⟨unread, hrest, hunread⟩ := hinside.text_eq
    obtain ⟨inner, more, other, hfirst, hsecond⟩ := hbehind.exists_right hinside
    rw [hunread rfl, List.append_nil, hfirst] at hrest
    subst hrest
    exact Scans.replace_item hpunctual hclosing hlexeme hdepth hsecond
      (hshorter (by simp) hbehind hinside)

end Varies

/-! ### Expansions -/

/-- The ends that stand for one in an expansion are a row of words. -/
theorem links_furtherEnds {joints : List Joint} (hjoints : ∀ joint ∈ joints, joint.IsBlank) :
    Links .endWord (wordPiece .endWord :: furtherEnds joints) := by
  induction joints with
  | nil => exact .word nofun
  | cons joint rest ih =>
    obtain ⟨hjoint, hrest⟩ := List.forall_mem_cons.mp hjoints
    have hlinks : Links .endWord
        (wordPiece .endWord :: (joint.pieces ++ wordPiece .endWord :: furtherEnds rest)) :=
      .joint nofun hjoint (ih hrest)
    simpa [furtherEnds] using hlinks

/-- What follows in both rows is in common. -/
theorem Varies.append {pieces others : List Piece} (hvaries : Varies pieces others)
    (before : List Piece) : Varies (before ++ pieces) (before ++ others) := by
  induction before with
  | nil => exact hvaries
  | cons piece _ ih => exact .cons piece ih

/-- An expansion varies in the words of its actions. -/
theorem Expands.varies {frames : List Pending} {pieces others : List Piece}
    (hexpands : Expands frames pieces others) : Varies pieces others := by
  induction hexpands with
  | finished => exact .nil
  | piece _ _ ih | action _ _ ih => exact .cons _ ih
  | @expanded word _ _ marker lead gap joint pieces others hword hgap hblank hjoint _ ih =>
    have hlast : word ≠ .dot := by
      rcases hword with rfl | rfl <;> nofun
    have hfirst : Links word (wordPiece .elseWord :: (spacePieces gap ++ [wordPiece word])) :=
      .gap nofun hgap hblank (.word hlast)
    have hsecond : Links word (wordPiece .elseWord :: (joint.pieces ++ [wordPiece word])) :=
      .joint nofun hjoint (.word hlast)
    simpa using @Varies.words _ marker lead _ _ _ _ hfirst hsecond ih
  | @ended word _ marker closing lead last joints pieces others hjoints _ ih =>
    have hfirst : Links .endWord [wordPiece .endWord] := .word nofun
    have hbehind := (ih.cons (.closing closing)).append (spacePieces last)
    simpa using @Varies.words _ marker lead _ _ _ _ hfirst (links_furtherEnds hjoints) hbehind

/-- The text of an expansion is scanned as its pieces. -/
theorem Expands.scans (hpunctual : delimiters.Punctual) {pieces others : List Piece}
    (hexpands : Expands [] pieces others) {text : List Char}
    (hscans : Scans delimiters .outside text pieces none) :
    Scans delimiters .outside (texts delimiters others) others none :=
  hexpands.varies.scans hpunctual hscans

/-- The text that an expansion is made of is scanned as its pieces. -/
theorem Expands.scans_of_expanded (hpunctual : delimiters.Punctual) {pieces others : List Piece}
    (hexpands : Expands [] pieces others) {text : List Char}
    (hscans : Scans delimiters .outside text others none) :
    Scans delimiters .outside (texts delimiters pieces) pieces none :=
  hexpands.varies.symm.scans hpunctual hscans

end Stencil.Syntax
