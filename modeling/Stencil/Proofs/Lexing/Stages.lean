import Stencil.Proofs.Lexing.Scan

/-!
# The stages of the lexer

The lexer told as a machine that goes from stage to stage, each with the text that is left and its
position. A stage gives items and goes on to a further one, or is the last (`Stage.step`). The items
of a source are those of the stages from the first on (`run_text`, `run_action`).

A stage takes something of the text away, or it only finds out what stands at its head and hands
the same text over to a stage that does (`Fits.advances`). So the stages come to an end after at
most two for each character of the source and two more.
-/

set_option autoImplicit false
set_option relaxedAutoImplicit false

namespace Stencil.Syntax.Lexing

/-! ### Stages -/

/-- What the lexer is about to read. -/
inductive Stage
  /-- Text, up to a left delimiter. -/
  | text
  /-- A left delimiter and its trim marker. -/
  | opening
  | comment
  /-- The inside of an action, with so many parentheses open: a lexeme or the end of the action. -/
  | action (depth : Nat)
  | lexeme (depth : Nat)
  /-- A right delimiter and its trim marker, if it has one. -/
  | closing (trimmed : Bool)

/-- Where the lexer is. -/
structure Point where
  stage : Stage
  position : Position
  /-- What is left of the source. -/
  text : List Char

/-- What comes of a stage: items, and where the lexer goes on if it does. -/
abbrev Outcome : Type := List Item × Option Point

/-- How many characters the trim marker of a left delimiter takes, if it has one. -/
def openingMarker (after : List Char) : Nat :=
  if startsWithLeftMarker after then trimMarkerLength else 0

/-- How many parentheses are open behind a lexeme. -/
def depthAfter (depth : Nat) (kind : ItemKind) : Nat :=
  if kind = .leftParen then depth + 1 else if kind = .rightParen then depth - 1 else depth

/-- The error at which the lexer stops. -/
def stop (position : Position) (message : String) : Outcome := ([⟨.error, position, message⟩], none)

/-- What comes of a stage at a position of the source. -/
def Stage.step (delimiters : Delimiters) (position : Position) (text : List Char) :
    Stage → Outcome
  | .text =>
    match findPattern delimiters.left.toList text with
    | none => (textItem position text ++ [⟨.eof, position.advance text, ""⟩], none)
    | some length =>
      let before := text.take length
      let trimmed := startsWithLeftMarker (text.drop (length + delimiters.left.toList.length))
      (textItem position (if trimmed then trimRight before else before),
        some ⟨.opening, position.advance before, text.drop length⟩)
  | .opening =>
    let after := text.drop delimiters.left.toList.length
    let body := after.drop (openingMarker after)
    let start :=
      (position.advance delimiters.left.toList).advance (after.take (openingMarker after))
    if ['/', '*'].isPrefixOf body then ([], some ⟨.comment, start, body⟩)
    else ([⟨.leftDelim, position, delimiters.left⟩], some ⟨.action 0, start, body⟩)
  | .comment =>
    match commentLength text with
    | none => stop position "unclosed comment"
    | some commented =>
      let comment := text.take commented
      let rest := text.drop commented
      match closing? delimiters rest with
      | none => stop position "comment ends before closing delimiter"
      | some closed =>
        let length := closingLength delimiters closed rest
        ([⟨.comment, position, String.ofList comment⟩],
          some ⟨.text, (position.advance comment).advance (rest.take length), rest.drop length⟩)
  | .action depth =>
    match closing? delimiters text with
    | none => ([], some ⟨.lexeme depth, position, text⟩)
    | some trimmed =>
      if depth = 0 then ([], some ⟨.closing trimmed, position, text⟩)
      else stop position "unclosed left paren"
  | .lexeme depth =>
    match text with
    | [] => stop position "unclosed action"
    | c :: rest =>
      match Syntax.lexeme delimiters c rest with
      | .error message => stop position message
      | .ok (kind, length) =>
        let value := c :: rest.take length
        let after := position.advance value
        let item : Item := ⟨kind, position, String.ofList value⟩
        if kind = .rightParen && depth = 0 then
          ([item, ⟨.error, after, "unexpected right paren"⟩], none)
        else ([item], some ⟨.action (depthAfter depth kind), after, rest.drop length⟩)
  | .closing trimmed =>
    let marker := if trimmed then trimMarkerLength else 0
    let length := closingLength delimiters trimmed text
    ([⟨.rightDelim, position.advance (text.take marker), delimiters.right⟩],
      some ⟨.text, position.advance (text.take length), text.drop length⟩)

/-- What comes of the stage at a point. -/
def step (delimiters : Delimiters) (point : Point) : Outcome :=
  point.stage.step delimiters point.position point.text

/-- The items of the stages from a point on, if there are no more stages than so many. -/
def run (delimiters : Delimiters) : Nat → Point → Option (List Item)
  | 0, _ => none
  | count + 1, point =>
    match step delimiters point with
    | (items, none) => some items
    | (items, some next) => (run delimiters count next).map (items ++ ·)

/-- Where the lexer starts. -/
def start (source : String) : Point := ⟨.text, {}, source.toList⟩

/-- That the lexer comes from one point to another. -/
inductive Reaches (delimiters : Delimiters) (point : Point) : Point → Prop
  | refl : Reaches delimiters point point
  | step {middle next : Point} {items : List Item} (hreaches : Reaches delimiters point middle)
    (hstep : step delimiters middle = (items, some next)) : Reaches delimiters point next

/-! ### The items -/

section Run

variable {delimiters : Delimiters} {point next : Point} {items : List Item}

theorem run_last (hstep : step delimiters point = (items, none)) (count : Nat) :
    run delimiters (count + 1) point = some items := by
  rw [run, hstep]

theorem run_next (hstep : step delimiters point = (items, some next)) (count : Nat) :
    run delimiters (count + 1) point = (run delimiters count next).map (items ++ ·) := by
  rw [run, hstep]

end Run

/-- The items from a comment on. -/
def lexComment (delimiters : Delimiters) (position : Position) (text : List Char) : List Item :=
  match commentLength text with
  | none => [⟨.error, position, "unclosed comment"⟩]
  | some commented =>
    let comment := text.take commented
    let rest := text.drop commented
    match closing? delimiters rest with
    | none => [⟨.error, position, "comment ends before closing delimiter"⟩]
    | some closed =>
      let length := closingLength delimiters closed rest
      ⟨.comment, position, String.ofList comment⟩ ::
        lexText delimiters ((position.advance comment).advance (rest.take length))
          (rest.drop length)

/-- The items from a left delimiter on. -/
def lexOpening (delimiters : Delimiters) (position : Position) (text : List Char) : List Item :=
  let after := text.drop delimiters.left.toList.length
  let body := after.drop (openingMarker after)
  let start :=
    (position.advance delimiters.left.toList).advance (after.take (openingMarker after))
  if ['/', '*'].isPrefixOf body then lexComment delimiters start body
  else ⟨.leftDelim, position, delimiters.left⟩ :: lexAction delimiters 0 start body

/-- A text goes on with what a left delimiter starts. -/
theorem lexText_of_findPattern {delimiters : Delimiters} {position : Position} {text : List Char}
    {length : Nat} (hfound : findPattern delimiters.left.toList text = some length) :
    lexText delimiters position text =
      textItem position
        (if startsWithLeftMarker (text.drop (length + delimiters.left.toList.length)) then
          trimRight (text.take length) else text.take length) ++
        lexOpening delimiters (position.advance (text.take length)) (text.drop length) := by
  rw [lexText]
  split
  next hnone =>
    rw [hfound] at hnone
    cases hnone
  next other hother =>
    rw [hfound] at hother
    cases hother
    have hafter : (text.drop length).drop delimiters.left.toList.length =
        text.drop (length + delimiters.left.toList.length) := List.drop_drop
    simp only [lexOpening, hafter]
    rfl

mutual

/-- The stages from a text on give the items of the text. -/
theorem run_text (delimiters : Delimiters) (position : Position) (text : List Char) {count : Nat}
    (hcount : 2 * text.length + 1 < count) :
    run delimiters count ⟨.text, position, text⟩ = some (lexText delimiters position text) := by
  obtain ⟨count, rfl⟩ : ∃ fewer, count = fewer + 1 := ⟨count - 1, by omega⟩
  cases hfound : findPattern delimiters.left.toList text with
  | none =>
    rw [run_last (by simp only [step, Stage.step, hfound]; rfl), lexText]
    split
    next => rfl
    next _ hsome =>
      rw [hfound] at hsome
      cases hsome
  | some length =>
    rw [run_next (by simp only [step, Stage.step, hfound]; rfl), lexText_of_findPattern hfound,
      run_opening delimiters _ _ (drop_findPattern hfound)]
    · rfl
    · rw [List.length_drop]
      omega
termination_by 2 * text.length + 1
decreasing_by
  rw [List.length_drop]
  omega

/-- The stages from a left delimiter on give the items from there on. -/
theorem run_opening (delimiters : Delimiters) (position : Position) (text : List Char)
    (hopening : delimiters.left.toList <+: text) {count : Nat} (hcount : 2 * text.length < count) :
    run delimiters count ⟨.opening, position, text⟩ =
      some (lexOpening delimiters position text) := by
  obtain ⟨count, rfl⟩ : ∃ fewer, count = fewer + 1 := ⟨count - 1, by omega⟩
  have hleft := delimiters.left_length_pos
  have hle := hopening.length_le
  rw [lexOpening]
  split
  next hcomment =>
    rw [run_next (by simp only [step, Stage.step, if_pos hcomment]; rfl), run_comment]
    · rfl
    · simp only [List.length_drop]
      omega
  next hcomment =>
    rw [run_next (by simp only [step, Stage.step, if_neg hcomment]; rfl), run_action]
    · rfl
    · simp only [List.length_drop]
      omega
termination_by 2 * text.length
decreasing_by
  all_goals
    simp only [List.length_drop]
    omega

/-- The stages from a comment on give the items from there on. -/
theorem run_comment (delimiters : Delimiters) (position : Position) (text : List Char)
    {count : Nat} (hcount : 2 * text.length < count) :
    run delimiters count ⟨.comment, position, text⟩ =
      some (lexComment delimiters position text) := by
  obtain ⟨count, rfl⟩ : ∃ fewer, count = fewer + 1 := ⟨count - 1, by omega⟩
  rw [lexComment]
  split
  next hlength => exact run_last (by simp only [step, Stage.step, hlength]; rfl) count
  next commented hlength =>
    dsimp only
    split
    next hclosing => exact run_last (by simp only [step, Stage.step, hlength, hclosing]; rfl) count
    next closed hclosing =>
      have hpos := closingLength_pos delimiters closed (text.drop commented)
      have hrest : commented < text.length := Nat.lt_of_not_le fun hle ↦ by
        rw [List.drop_of_length_le hle, closing?_nil] at hclosing
        cases hclosing
      rw [run_next (by simp only [step, Stage.step, hlength, hclosing]; rfl), run_text]
      · rfl
      · simp only [List.length_drop]
        omega
termination_by 2 * text.length
decreasing_by
  simp only [List.length_drop]
  omega

/-- The stages from inside an action on give the items of what is left. -/
theorem run_action (delimiters : Delimiters) (depth : Nat) (position : Position)
    (text : List Char) {count : Nat} (hcount : 2 * text.length + 1 < count) :
    run delimiters count ⟨.action depth, position, text⟩ =
      some (lexAction delimiters depth position text) := by
  obtain ⟨count, rfl⟩ : ∃ fewer, count = fewer + 2 := ⟨count - 2, by omega⟩
  cases htext : text with
  | nil =>
    rw [lexAction, run_next (by simp only [step, Stage.step, closing?_nil]; rfl),
      run_last (by simp only [step, Stage.step]; rfl)]
    rfl
  | cons c rest =>
    rw [lexAction]
    split
    next trimmed hclosing =>
      split
      next hdepth =>
        have hpos := closingLength_pos delimiters trimmed (c :: rest)
        rw [run_next (by simp only [step, Stage.step, hclosing, if_pos hdepth]; rfl),
          run_next (by simp only [step, Stage.step]; rfl), run_text]
        · rfl
        · simp only [htext, List.length_drop, List.length_cons] at hcount ⊢
          omega
      next hdepth =>
        exact run_last (by simp only [step, Stage.step, hclosing, if_neg hdepth]; rfl) (count + 1)
    next hclosing =>
      rw [run_next (by simp only [step, Stage.step, hclosing]; rfl)]
      split
      next message hlexeme =>
        rw [run_last (by simp only [step, Stage.step, hlexeme]; rfl)]
        rfl
      next kind length hlexeme =>
        dsimp only
        split
        next hparen =>
          rw [run_last (by simp only [step, Stage.step, hlexeme, if_pos hparen]; rfl)]
          rfl
        next hparen =>
          rw [run_next (by simp only [step, Stage.step, hlexeme, if_neg hparen]; rfl), run_action]
          · rfl
          · simp only [htext, List.length_drop, List.length_cons] at hcount ⊢
            omega
termination_by 2 * text.length + 1
decreasing_by
  all_goals
    simp only [htext, List.length_drop, List.length_cons]
    omega

end

/-! ### The ways on -/

/-- The ways from one stage and what is left of the source to the next. -/
inductive Goes (delimiters : Delimiters) : Stage → List Char → Stage → List Char → Prop
  | opening {text : List Char} {length : Nat}
    (hfound : findPattern delimiters.left.toList text = some length) :
    Goes delimiters .text text .opening (text.drop length)
  | inside {text : List Char} {taken : Nat} {stage : Stage}
    (htaken : delimiters.left.toList.length ≤ taken)
    (hstage : stage = .comment ∨ stage = .action 0) :
    Goes delimiters .opening text stage (text.drop taken)
  | behindComment {text : List Char} {taken : Nat} (htaken : 0 < taken) (htext : text ≠ []) :
    Goes delimiters .comment text .text (text.drop taken)
  | lexeme {depth : Nat} {text : List Char} :
    Goes delimiters (.action depth) text (.lexeme depth) text
  | closing {text : List Char} {trimmed : Bool}
    (hclosing : closing? delimiters text = some trimmed) :
    Goes delimiters (.action 0) text (.closing trimmed) text
  | behindLexeme {depth deeper taken : Nat} {c : Char} {rest : List Char} :
    Goes delimiters (.lexeme depth) (c :: rest) (.action deeper) (rest.drop taken)
  | behindAction {text : List Char} {trimmed : Bool} :
    Goes delimiters (.closing trimmed) text .text
      (text.drop (closingLength delimiters trimmed text))

/-- That what stands at a stage is what the stage reads. -/
def Stage.Fits (delimiters : Delimiters) (text : List Char) : Stage → Prop
  | .opening => delimiters.left.toList <+: text
  | .closing trimmed => closing? delimiters text = some trimmed
  | _ => True

/-- Whether a stage may hand over what it finds and take nothing away. -/
def Stage.handsOver : Stage → Bool
  | .text | .action _ => true
  | _ => false

section Goes

variable {delimiters : Delimiters} {point next : Point} {items : List Item}
  {stage after : Stage} {text rest : List Char}

/-- A stage goes on in one of the ways. -/
theorem goes_of_step (hstep : step delimiters point = (items, some next)) :
    Goes delimiters point.stage point.text next.stage next.text := by
  obtain ⟨stage, position, text⟩ := point
  unfold step at hstep
  dsimp only at hstep
  cases stage with
  | text =>
    simp only [Stage.step] at hstep
    split at hstep
    next => cases hstep
    next length hfound =>
      cases hstep
      exact .opening hfound
  | opening =>
    simp only [Stage.step, List.drop_drop] at hstep
    split at hstep
    next =>
      cases hstep
      exact .inside (Nat.le_add_right _ _) (.inl rfl)
    next =>
      cases hstep
      exact .inside (Nat.le_add_right _ _) (.inr rfl)
  | comment =>
    simp only [Stage.step, List.drop_drop] at hstep
    split at hstep
    next => cases hstep
    next commented hlength =>
      split at hstep
      next => cases hstep
      next closed hclosing =>
        cases hstep
        have hpos := closingLength_pos delimiters closed (text.drop commented)
        refine .behindComment (Nat.add_pos_right _ hpos) fun (hnil : text = []) ↦ ?_
        rw [hnil, List.drop_nil, closing?_nil] at hclosing
        cases hclosing
  | action depth =>
    simp only [Stage.step] at hstep
    split at hstep
    next =>
      cases hstep
      exact .lexeme
    next trimmed hclosing =>
      split at hstep
      next hdepth =>
        cases hstep
        cases hdepth
        exact .closing hclosing
      next => cases hstep
  | lexeme depth =>
    cases text with
    | nil => cases hstep
    | cons c rest =>
      simp only [Stage.step] at hstep
      split at hstep
      next => cases hstep
      next kind length hlexeme =>
        split at hstep
        next => cases hstep
        next =>
          cases hstep
          exact .behindLexeme
  | closing trimmed =>
    cases hstep
    exact .behindAction

/-- What is left is the end of what was. -/
theorem Goes.suffix (hgoes : Goes delimiters stage text after rest) : rest <:+ text := by
  cases hgoes with
  | lexeme | closing => exact List.suffix_refl _
  | behindLexeme => exact (List.drop_suffix _ _).trans (List.suffix_cons _ _)
  | _ => exact List.drop_suffix _ _

/-- A stage that hands over hands over to one that fits. -/
theorem Goes.fits (hgoes : Goes delimiters stage text after rest) : after.Fits delimiters rest := by
  cases hgoes with
  | opening hfound => exact drop_findPattern hfound
  | closing hclosing => exact hclosing
  | inside _ hstage => rcases hstage with rfl | rfl <;> trivial
  | _ => trivial

/-- A stage that does not hand over takes something of the text away. -/
theorem Goes.shorter (hgoes : Goes delimiters stage text after rest)
    (hfits : stage.Fits delimiters text) (hstage : stage.handsOver = false) :
    rest.length < text.length := by
  cases hgoes with
  | opening | lexeme | closing => cases hstage
  | inside htaken _ =>
    have hle := List.IsPrefix.length_le hfits
    have hpos := delimiters.left_length_pos
    rw [List.length_drop]
    omega
  | behindComment htaken htext =>
    have hpos := List.length_pos_iff.mpr htext
    rw [List.length_drop]
    omega
  | behindLexeme =>
    rw [List.length_drop, List.length_cons]
    omega
  | @behindAction text trimmed =>
    have hpos := closingLength_pos delimiters trimmed text
    have htext : text ≠ [] := fun hnil ↦ by
      rw [hnil] at hfits
      cases closing?_nil.symm.trans hfits
    have := List.length_pos_iff.mpr htext
    rw [List.length_drop]
    omega

/-- A stage takes something of the text away, or hands all of it over to one that does not hand
over. -/
theorem Goes.advances (hgoes : Goes delimiters stage text after rest)
    (hfits : stage.Fits delimiters text) :
    rest.length < text.length ∨ rest = text ∧ after.handsOver = false := by
  cases hstage : stage.handsOver with
  | false => exact .inl (hgoes.shorter hfits hstage)
  | true =>
    cases hgoes with
    | @opening text length hfound =>
      have hle := findPattern_le text hfound
      have hpos := delimiters.left_length_pos
      rcases Nat.eq_zero_or_pos length with rfl | hlength
      · exact .inr ⟨rfl, rfl⟩
      · rw [List.length_drop]
        exact .inl (by omega)
    | lexeme | closing => exact .inr ⟨rfl, rfl⟩
    | _ => cases hstage

/-- Where the lexer comes to, what stands there is what the stage reads, and it is the end of the
source. -/
theorem Reaches.fits {source : String} (hreaches : Reaches delimiters (start source) point) :
    point.stage.Fits delimiters point.text ∧ point.text <:+ source.toList := by
  induction hreaches with
  | refl => exact ⟨trivial, List.suffix_refl _⟩
  | step _ hstep ih =>
    have hgoes := goes_of_step hstep
    exact ⟨hgoes.fits, hgoes.suffix.trans ih.2⟩

end Goes

/-- How the lexer goes through a source. -/
structure Halts (delimiters : Delimiters) (source : String) : Prop where
  /-- At most two stages for each character and two more give the items. -/
  ends : run delimiters (2 * source.length + 2) (start source) = some (lex delimiters source)
  /-- What a stage leaves is the end of what it found, and it is less, or the next stage leaves
  less if it goes on. -/
  advances : ∀ {point next : Point} {items : List Item}, Reaches delimiters (start source) point →
    step delimiters point = (items, some next) → next.text <:+ point.text ∧
      (next.text.length < point.text.length ∨ next.text = point.text ∧
        ∀ {last : Point} {others : List Item}, step delimiters next = (others, some last) →
          last.text.length < next.text.length)

/-- The lexer comes to an end on every source. -/
theorem halts (delimiters : Delimiters) (source : String) : Halts delimiters source where
  ends := run_text delimiters {} source.toList (by rw [String.length_toList]; omega)
  advances := by
    intro point next items hreaches hstep
    have hgoes := goes_of_step hstep
    refine ⟨hgoes.suffix, ?_⟩
    rcases hgoes.advances hreaches.fits.1 with hshorter | ⟨htext, hstage⟩
    · exact .inl hshorter
    · exact .inr ⟨htext, fun hlast ↦ (goes_of_step hlast).shorter hgoes.fits hstage⟩

end Stencil.Syntax.Lexing
