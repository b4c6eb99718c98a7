import Mathlib.Data.List.Chain
import Stencil.Proofs.Lexing.Scan

/-!
# The shape of the items of a source

The kinds of the items of a source are a word of a small language (`IsStream`). Texts and comments
stand between the actions. An action has lexemes between its delimiters, with balanced parentheses
and no run of blanks right behind another. The last item is the end of the source, outside of
actions, or an error, which may break an action off.

The lexer counts open parentheses; what it reads with `depth` of them open is what remains of an
action (`IsRemainder`), and each lexeme goes in front of what remains behind it
(`IsRemainder.cons`). `isStream_lex` puts these steps together along the scan of a source.
-/

set_option autoImplicit false
set_option relaxedAutoImplicit false

namespace Stencil.Syntax

/-! ### Shapes -/

/-- That kinds stand between two actions: texts and comments, no text right behind another. -/
structure AreBetween (kinds : List ItemKind) : Prop where
  isOutside : ∀ kind ∈ kinds, kind = .text ∨ kind = .comment
  isChain : kinds.IsChain fun first second ↦ ¬ (first = .text ∧ second = .text)

/-- That kinds stand between the delimiters of an action: no texts, comments, delimiters or ends,
and no run of blanks right behind another. -/
structure AreWithin (kinds : List ItemKind) : Prop where
  isInside : ∀ kind ∈ kinds,
    kind ∉ [.text, .comment, .leftDelim, .rightDelim, .eof, .error]
  isChain : kinds.IsChain fun first second ↦ ¬ (first = .space ∧ second = .space)

/-- That parentheses are balanced behind `depth` open ones: at no place more of them are closed than
opened, and at the end as many. -/
structure AreBalanced (depth : Nat) (kinds : List ItemKind) : Prop where
  count_le : ∀ front, front <+: kinds →
    front.count .rightParen ≤ depth + front.count .leftParen
  count_eq : kinds.count .rightParen = depth + kinds.count .leftParen

/-- That kinds are those of the items of a source. -/
inductive IsStream : List ItemKind → Prop
  /-- The end of the source. -/
  | finished {between : List ItemKind} (hbetween : AreBetween between) :
    IsStream (between ++ [.eof])
  /-- An error outside of actions. -/
  | failed {between : List ItemKind} (hbetween : AreBetween between) :
    IsStream (between ++ [.error])
  /-- An action that an error breaks off. -/
  | brokenOff {between within : List ItemKind} (hbetween : AreBetween between)
    (hwithin : AreWithin within) : IsStream (between ++ .leftDelim :: (within ++ [.error]))
  /-- A completed action. -/
  | action {between within rest : List ItemKind} (hbetween : AreBetween between)
    (hwithin : AreWithin within) (hbalanced : AreBalanced 0 within) (hrest : IsStream rest) :
    IsStream (between ++ .leftDelim :: (within ++ .rightDelim :: rest))

/-- That kinds are those of what remains of a source inside an action with `depth` parentheses
open. -/
inductive IsRemainder (depth : Nat) : List ItemKind → Prop
  | brokenOff {within : List ItemKind} (hwithin : AreWithin within) :
    IsRemainder depth (within ++ [.error])
  | closed {within rest : List ItemKind} (hwithin : AreWithin within)
    (hbalanced : AreBalanced depth within) (hrest : IsStream rest) :
    IsRemainder depth (within ++ .rightDelim :: rest)

/-! ### Between actions -/

theorem areBetween_nil : AreBetween [] := ⟨by simp, List.isChain_nil⟩

/-- A comment may stand in front of anything between actions. -/
theorem AreBetween.comment {kinds : List ItemKind} (hkinds : AreBetween kinds) :
    AreBetween (.comment :: kinds) :=
  ⟨List.forall_mem_cons.mpr ⟨.inr rfl, hkinds.isOutside⟩,
    List.isChain_cons.mpr ⟨fun _ _ hboth ↦ ItemKind.noConfusion hboth.1, hkinds.isChain⟩⟩

/-- A text may stand in front of anything between actions but another text. -/
theorem AreBetween.text {kinds : List ItemKind} (hkinds : AreBetween kinds)
    (hhead : kinds.head? ≠ some .text) : AreBetween (.text :: kinds) :=
  ⟨List.forall_mem_cons.mpr ⟨.inl rfl, hkinds.isOutside⟩,
    List.isChain_cons.mpr ⟨fun _ hsecond hboth ↦ hhead (hboth.2 ▸ hsecond), hkinds.isChain⟩⟩

namespace IsStream

variable {kinds : List ItemKind}

/-- What stands in front of a stream, between actions, can be lengthened. -/
theorem lengthen {front : ItemKind} (hkinds : IsStream kinds)
    (hlengthen : ∀ between after, kinds = between ++ after → AreBetween between →
      AreBetween (front :: between)) : IsStream (front :: kinds) := by
  cases hkinds with
  | finished hbetween => exact .finished (hlengthen _ _ rfl hbetween)
  | failed hbetween => exact .failed (hlengthen _ _ rfl hbetween)
  | brokenOff hbetween hwithin => exact .brokenOff (hlengthen _ _ rfl hbetween) hwithin
  | action hbetween hwithin hbalanced hrest =>
    exact .action (hlengthen _ _ rfl hbetween) hwithin hbalanced hrest

/-- A comment may stand in front of a source. -/
theorem comment (hkinds : IsStream kinds) : IsStream (.comment :: kinds) :=
  hkinds.lengthen fun _ _ _ hbetween ↦ hbetween.comment

/-- A text, if there is one, may stand in front of what starts with no text. -/
theorem textItem (hkinds : IsStream kinds) (hhead : kinds.head? ≠ some .text)
    (position : Position) (text : List Char) :
    IsStream ((Syntax.textItem position text).map Item.kind ++ kinds) := by
  unfold Syntax.textItem
  split
  next => exact hkinds
  next =>
    refine hkinds.lengthen fun between after heq hbetween ↦ hbetween.text fun htext ↦ hhead ?_
    rw [heq, List.head?_append, htext, Option.some_or]

/-- An action may stand in front of what remains behind its left delimiter. -/
theorem leftDelim (hkinds : IsRemainder 0 kinds) : IsStream (.leftDelim :: kinds) := by
  cases hkinds with
  | brokenOff hwithin => exact .brokenOff areBetween_nil hwithin
  | closed hwithin hbalanced hrest => exact .action areBetween_nil hwithin hbalanced hrest

end IsStream

/-! ### Inside an action -/

theorem areWithin_nil : AreWithin [] := ⟨by simp, List.isChain_nil⟩

/-- A lexeme goes in front of others, runs of blanks standing apart. -/
theorem AreWithin.cons {kind : ItemKind} {kinds : List ItemKind} (hkinds : AreWithin kinds)
    (hkind : kind.isLexeme = true)
    (hspace : kind = .space → kinds.head? ≠ some .space) : AreWithin (kind :: kinds) := by
  refine ⟨List.forall_mem_cons.mpr ⟨?_, hkinds.isInside⟩,
    List.isChain_cons.mpr ⟨fun _ hsecond hboth ↦ hspace hboth.1 (hboth.2 ▸ hsecond),
      hkinds.isChain⟩⟩
  intro hmem
  simp only [List.mem_cons, List.not_mem_nil, or_false] at hmem
  rcases hmem with rfl | rfl | rfl | rfl | rfl | rfl <;> cases hkind

/-- A parenthesis more or less is open in front of a parenthesis. -/
theorem AreBalanced.cons {depth deeper : Nat} {kind : ItemKind} {kinds : List ItemKind}
    (hkinds : AreBalanced deeper kinds) (hdepth : nextDepth depth kind = some deeper) :
    AreBalanced depth (kind :: kinds) := by
  have hstep (front : List ItemKind) :
      (kind :: front).count .rightParen + (deeper + front.count .leftParen) =
        front.count .rightParen + (depth + (kind :: front).count .leftParen) := by
    unfold nextDepth at hdepth
    split_ifs at hdepth with hleft hright hzero <;> cases hdepth
    · rw [hleft, List.count_cons_of_ne (by decide), List.count_cons_self]
      omega
    · rw [hright, List.count_cons_self, List.count_cons_of_ne (by decide)]
      omega
    · rw [List.count_cons_of_ne hright, List.count_cons_of_ne hleft]
  constructor
  · intro front hfront
    rcases List.prefix_cons_iff.mp hfront with rfl | ⟨shorter, rfl, hshorter⟩
    · simp
    · have hcount := hkinds.count_le shorter hshorter
      have hone := hstep shorter
      omega
  · have hcount := hkinds.count_eq
    have hone := hstep kinds
    omega

/-- A lexeme goes in front of what remains of an action behind it. -/
theorem IsRemainder.cons {depth deeper : Nat} {kind : ItemKind} {kinds : List ItemKind}
    (hkinds : IsRemainder deeper kinds) (hkind : kind.isLexeme = true)
    (hdepth : nextDepth depth kind = some deeper)
    (hspace : kind = .space → kinds.head? ≠ some .space) : IsRemainder depth (kind :: kinds) := by
  have hhead {front back : List ItemKind} (heq : kinds = front ++ back) :
      kind = .space → front.head? ≠ some .space := by
    intro heqSpace hfront
    refine hspace heqSpace ?_
    rw [heq, List.head?_append, hfront, Option.some_or]
  cases hkinds with
  | brokenOff hwithin => exact .brokenOff (hwithin.cons hkind (hhead rfl))
  | closed hwithin hbalanced hrest =>
    exact .closed (hwithin.cons hkind (hhead rfl)) (hbalanced.cons hdepth) hrest

/-! ### Runs of blanks -/

section Blanks

variable {delimiters : Delimiters}

/-- Behind a run of blanks stands no further blank, but for the one of a trim marker. -/
theorem closing?_drop_spaceLength (delimiters : Delimiters) {rest : List Char}
    (hblank : startsBlank (rest.drop (spaceLength delimiters rest)) = true) :
    closing? delimiters (rest.drop (spaceLength delimiters rest)) = some true := by
  obtain ⟨run, hrun⟩ : ∃ run, run = rest.takeWhile isBlank := ⟨_, rfl⟩
  obtain ⟨after, hafter⟩ : ∃ after, after = rest.dropWhile isBlank := ⟨_, rfl⟩
  have hrest : rest = run ++ after := by rw [hrun, hafter, List.takeWhile_append_dropWhile]
  have hstop : startsBlank after = false := by
    have hnot := List.head?_dropWhile_not isBlank rest
    rw [← hafter] at hnot
    cases hhead : after.head? with
    | none => simp [startsBlank, hhead]
    | some c => simpa [startsBlank, hhead] using hnot
  have hdrop : rest.drop run.length = after := by rw [hrest, List.drop_left]
  simp only [spaceLength, ← hrun, hdrop] at hblank ⊢
  split at hblank
  next behind =>
    split at hblank
    next hright =>
      rw [if_pos hright]
      rcases List.eq_nil_or_concat run with rfl | ⟨others, last, rfl⟩
      · rw [hrest, List.nil_append, List.length_nil, List.drop_zero, hstop] at hblank
        cases hblank
      · -- the blank of the marker is the last one of the run
        have hlast : isBlank last = true := by
          refine List.mem_takeWhile_imp (show last ∈ rest.takeWhile isBlank from ?_)
          rw [← hrun]
          simp
        have hmarker : rest.drop ((others.concat last).length - 1) = last :: '-' :: behind := by
          rw [hrest, List.length_concat, Nat.add_sub_cancel, List.concat_eq_append,
            List.append_assoc, List.drop_left, List.singleton_append]
        rw [hmarker, closing?, if_pos]
        simp [startsWithRightMarker, trimMarkerLength, hlast, hright]
    next =>
      rw [hdrop, hstop] at hblank
      cases hblank
  next =>
    rw [hdrop, hstop] at hblank
    cases hblank

/-- If a text starts with a blank behind a run of blanks, this is the one of a trim marker: the run
left it to the marker. -/
theorem Lexes.closing?_eq {c : Char} {value rest : List Char}
    (hlexes : Lexes delimiters c (value ++ rest) .space value.length)
    (hblank : startsBlank rest = true) : closing? delimiters rest = some true := by
  have hrest : (value ++ rest).drop (spaceLength delimiters (value ++ rest)) = rest := by
    rw [← hlexes.of_space.2, List.drop_left]
  have hclosed := closing?_drop_spaceLength delimiters (hrest.symm ▸ hblank)
  rwa [hrest] at hclosed

/-- A run of blanks stands where a text starts with a blank and is not closed. -/
theorem Scans.starts_space {depth : Nat} {text : List Char} {pieces : List Piece}
    {fault : Option String} (hscans : Scans delimiters (.inside depth) text pieces fault)
    {position : Position}
    (hspace : ((Scan.items delimiters position ⟨pieces, fault⟩).map Item.kind).head? =
      some .space) :
    startsBlank text = true ∧ closing? delimiters text = none := by
  cases hscans with
  | close => cases hspace
  | item hclosing hlexeme =>
    cases hspace
    exact ⟨(lexes_of_lexeme hlexeme).of_space.1, hclosing⟩
  | strayParen => cases hspace
  | stop => cases hspace

end Blanks

/-! ### Sources -/

/-- The kinds of items that a scan in this mode may give. -/
def Mode.IsShape : Mode → List ItemKind → Prop
  | .outside, kinds => IsStream kinds
  | .inside depth, kinds => IsRemainder depth kinds

/-- What is scanned has the shape that the mode of the scan asks for. -/
theorem Scans.shape {delimiters : Delimiters} {mode : Mode} {text : List Char}
    {pieces : List Piece} {fault : Option String}
    (hscans : Scans delimiters mode text pieces fault) (position : Position) :
    mode.IsShape ((Scan.items delimiters position ⟨pieces, fault⟩).map Item.kind) := by
  induction hscans generalizing position with
  | plain =>
    dsimp only [Mode.IsShape]
    rw [Scan.items, itemsOf_textPieces, List.map_append]
    exact (IsStream.finished areBetween_nil).textItem (by simp) _ _
  | @action _ head pieces _ _ _ _ ih =>
    dsimp only [Mode.IsShape] at ih ⊢
    rw [Scan.items_headPieces, Scan.items_cons, List.map_append]
    exact (IsStream.leftDelim (ih _)).textItem (by simp) _ _
  | @comment _ content head tail pieces _ _ _ _ _ _ _ _ ih =>
    dsimp only [Mode.IsShape] at ih ⊢
    rw [Scan.items_headPieces, Scan.items_cons, Scan.items_blankPieces, List.map_append]
    exact (ih _).comment.textItem (by simp) _ _
  | brokenComment =>
    dsimp only [Mode.IsShape]
    rw [Scan.items_headPieces, List.map_append]
    exact (IsStream.failed areBetween_nil).textItem (by simp) _ _
  | @close _ tail pieces _ _ _ ih =>
    dsimp only [Mode.IsShape] at ih ⊢
    rw [Scan.items_cons, Scan.items_blankPieces]
    exact .closed areWithin_nil ⟨by simp, rfl⟩ (ih _)
  | @item _ _ c value rest kind pieces _ _ hlexeme hdepth hinside ih =>
    dsimp only [Mode.IsShape] at ih ⊢
    rw [Scan.items_cons]
    refine (ih _).cons (lexes_of_lexeme hlexeme).isLexeme hdepth ?_
    rintro rfl hspace
    obtain ⟨hblank, hclosing⟩ := hinside.starts_space hspace
    cases hclosing.symm.trans ((lexes_of_lexeme hlexeme).closing?_eq hblank)
  | strayParen =>
    have hparen : AreWithin [.rightParen] := areWithin_nil.cons rfl (by simp)
    exact .brokenOff hparen
  | stop => exact .brokenOff areWithin_nil

/-- The kinds of the items of a source have the shape of a stream, whatever the source and its
delimiters are. -/
theorem isStream_lex (delimiters : Delimiters) (source : String) :
    IsStream ((lex delimiters source).map Item.kind) := by
  rw [lex_eq]
  exact (scans_scan delimiters .outside source.toList).shape {}

end Stencil.Syntax
