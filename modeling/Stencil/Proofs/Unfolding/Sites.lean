import Stencil.Proofs.Unfolding.Balance

/-!
# Where an else can be written in two actions

An else may go on with the word of its structure, and it may stand in an action of its own in front
of a structure with the same word, whose end then stands right in front of the end of the outer one.
`ElseSite` tells both by the pieces around the words. That the place is one where they mean the same
is told by `openBehind`, which computes the structures that are open behind some pieces
(`ElseSite.IsNested`).

The second source is an expansion of the first if either of them opens and closes structures as it
should (`ElseSite.IsNested.expands`): pieces that leave open what they leave open are kept in an
expansion, whatever follows them (`Balances.expands_append`). And wherever an else of such a source
goes on, there is a place of this kind (`Balances.exists_site`).
-/

set_option autoImplicit false
set_option relaxedAutoImplicit false

namespace Stencil.Syntax

/-! ### The structures behind some pieces -/

/-- The open structures behind the first item of an action, unless it is an end that closes none. -/
def turned? (kind : ItemKind) (structures : List Keyword) : Option (List Keyword) :=
  if kind = .keyword .endWord then structures.tail? else some (opened kind structures)

/-- The structures that are open behind pieces where these are open in front of them, unless an end
stands there that closes none of them. -/
def openBehind : List Keyword → List Piece → Option (List Keyword)
  | structures, [] => some structures
  | structures, .opening _ :: rest => (turned? (headOf rest) structures).bind (openBehind · rest)
  | structures, _ :: rest => openBehind structures rest

section OpenBehind

variable {structures own outer now : List Keyword} {marker : Option Char}
  {front pieces rest : List Piece}

/-- An action opens a structure or none, whatever is open before. -/
theorem opened_append (kind : ItemKind) (own outer : List Keyword) :
    opened kind (own ++ outer) = opened kind own ++ outer := by
  unfold opened
  split
  · split <;> rfl
  · rfl

/-- What is open farther out stays open behind an action. -/
theorem turned?_append {kind : ItemKind} (hturned : turned? kind own = some now)
    (outer : List Keyword) : turned? kind (own ++ outer) = some (now ++ outer) := by
  unfold turned? at hturned ⊢
  split at hturned
  next hend =>
    cases own with
    | nil => cases hturned
    | cons word own =>
      cases hturned
      rw [if_pos hend]
      rfl
  next hend =>
    cases hturned
    rw [if_neg hend, opened_append]

/-- What is open farther out stays open. -/
theorem openBehind_append (hopen : openBehind own pieces = some now) (outer : List Keyword) :
    openBehind (own ++ outer) pieces = some (now ++ outer) := by
  induction pieces generalizing own with
  | nil =>
    cases hopen
    rfl
  | cons piece rest ih =>
    cases piece with
    | opening marker =>
      obtain ⟨next, hturned, hrest⟩ := Option.bind_eq_some_iff.mp hopen
      refine Option.bind_eq_some_iff.mpr ⟨next ++ outer, turned?_append hturned outer, ih hrest⟩
    | _ => exact ih hopen

/-- The action that follows some pieces is none of their words. -/
theorem headOf_append_opening (front rest : List Piece) (marker : Option Char) :
    headOf (front ++ .opening marker :: rest) = headOf front ∨
      headOf (front ++ .opening marker :: rest) = .leftDelim ∧ headOf front = .eof := by
  simp only [headOf_eq, kindsOf_append, kindsOf_opening]
  cases kindsOf front with
  | nil => exact .inr ⟨rfl, rfl⟩
  | cons => exact .inl rfl

theorem headOf_append_opening_iff {word : Keyword} :
    headOf (front ++ .opening marker :: rest) = .keyword word ↔ headOf front = .keyword word := by
  rcases headOf_append_opening front rest marker with hhead | ⟨hhead, hfront⟩
  · rw [hhead]
  · simp [hhead, hfront]

/-- The action that follows some pieces makes no difference to what they open. -/
theorem opened_append_opening :
    opened (headOf (front ++ .opening marker :: rest)) structures =
      opened (headOf front) structures := by
  rcases headOf_append_opening front rest marker with hhead | ⟨hhead, hfront⟩
  · rw [hhead]
  · rw [hhead, hfront]
    rfl

/-- The structures that are open behind some pieces of a source are the ones that are computed. -/
theorem Balances.exists_openBehind
    (hbalances : Balances structures (front ++ .opening marker :: rest)) :
    ∃ now, openBehind structures front = some now ∧ Balances now (.opening marker :: rest) := by
  induction front generalizing structures with
  | nil => exact ⟨structures, rfl, hbalances⟩
  | cons piece front ih =>
    rw [List.cons_append] at hbalances
    cases piece with
    | opening first =>
      by_cases hhead : headOf front = .keyword .endWord
      · obtain ⟨word, outer, rfl, hrest⟩ := hbalances.of_end (headOf_append_opening_iff.mpr hhead)
        obtain ⟨now, hopen, hnow⟩ := ih hrest
        refine ⟨now, ?_, hnow⟩
        rw [openBehind, turned?, if_pos hhead]
        exact hopen
      · have hrest := (hbalances.of_opening (mt headOf_append_opening_iff.mp hhead)).2
        obtain ⟨now, hopen, hnow⟩ := ih hrest
        rw [opened_append_opening] at hopen
        refine ⟨now, ?_, hnow⟩
        rw [openBehind, turned?, if_neg hhead]
        exact hopen
    | _ =>
      cases hbalances with
      | piece _ hrest => exact ih hrest

/-- Pieces inside an action or between actions leave the open structures as they are. -/
theorem openBehind_append_inner (hfront : ∀ piece ∈ front, piece.IsInner)
    (structures : List Keyword) (rest : List Piece) :
    openBehind structures (front ++ rest) = openBehind structures rest := by
  induction front with
  | nil => rfl
  | cons piece front ih =>
    obtain ⟨hpiece, hfront⟩ := List.forall_mem_cons.mp hfront
    rw [← ih hfront]
    cases piece with
    | opening => exact absurd rfl hpiece
    | _ => rfl

/-- Behind pieces that leave some structures open, these are open besides those from before. -/
theorem Balances.of_openBehind (hbalances : Balances outer (front ++ .opening marker :: rest))
    (hopen : openBehind [] front = some now) :
    Balances (now ++ outer) (.opening marker :: rest) := by
  obtain ⟨next, hnext, hrest⟩ := hbalances.exists_openBehind
  rw [← List.nil_append outer, openBehind_append hopen outer] at hnext
  cases hnext
  exact hrest

end OpenBehind

/-! ### What stays as it is -/

section Kept

variable {structures own outer now : List Keyword} {frames : List Pending}
  {marker first second : Option Char} {front pieces others rest : List Piece}

/-- An end that closes a structure of both sources is kept. -/
theorem Expands.kept_end (word : Keyword) (marker closing : Option Char) (lead last : List Char)
    (hexpands : Expands frames pieces others) :
    Expands ((word, 0) :: frames)
      (.opening marker :: (spacePieces lead ++ wordPiece .endWord ::
        (spacePieces last ++ .closing closing :: pieces)))
      (.opening marker :: (spacePieces lead ++ wordPiece .endWord ::
        (spacePieces last ++ .closing closing :: others))) :=
  @Expands.ended word frames marker closing lead last [] pieces others nofun hexpands

/-- An end that closes a structure of both sources is written with one more behind it. -/
theorem Expands.further_end (word : Keyword) (marker closing : Option Char) (lead last : List Char)
    {joint : Joint} (hjoint : joint.IsBlank) (hexpands : Expands frames pieces others) :
    Expands ((word, 1) :: frames)
      (.opening marker :: (spacePieces lead ++ wordPiece .endWord ::
        (spacePieces last ++ .closing closing :: pieces)))
      (.opening marker :: (spacePieces lead ++ wordPiece .endWord :: (joint.pieces ++
        wordPiece .endWord :: (spacePieces last ++ .closing closing :: others)))) := by
  have hended := @Expands.ended word frames marker closing lead last [joint] pieces others
    (List.forall_mem_singleton.mpr hjoint) hexpands
  simpa [furtherEnds] using hended

/-- The structures that are open in both sources are the ones that are open in one. -/
theorem pushed_map (kind : ItemKind) (own : List Keyword) (frames : List Pending) :
    pushed kind (own.map (·, 0) ++ frames) = (opened kind own).map (·, 0) ++ frames := by
  cases kind with
  | keyword word => cases word <;> rfl
  | _ => rfl

/-- A source is an expansion of itself. -/
theorem Balances.expands_self (hbalances : Balances structures pieces) :
    Expands (structures.map (·, 0)) pieces pieces := by
  induction hbalances with
  | finished => exact .finished
  | piece hinner _ ih => exact .piece hinner ih
  | @action structures _ pieces hhead _ _ ih =>
    refine .action hhead ?_
    have hpushed := pushed_map (headOf pieces) structures []
    rw [List.append_nil, List.append_nil] at hpushed
    rwa [hpushed]
  | ended _ ih => exact ih.kept_end _ _ _ _ _

theorem isInner_end (lead last : List Char) (closing : Option Char) :
    ∀ piece ∈ spacePieces lead ++ wordPiece .endWord :: (spacePieces last ++ [.closing closing]),
      piece.IsInner := by
  refine List.forall_mem_append.mpr ⟨isInner_spacePieces lead,
    List.forall_mem_cons.mpr ⟨isInner_wordPiece _, ?_⟩⟩
  exact List.forall_mem_append.mpr
    ⟨isInner_spacePieces last, List.forall_mem_singleton.mpr (isInner_closing closing)⟩

/-- Pieces without the start of an action that others start with are the start of these. -/
theorem exists_append_of_inner (hpieces : ∀ piece ∈ pieces, piece.IsInner)
    (heq : pieces ++ rest = front ++ .opening marker :: others) :
    ∃ behind, front = pieces ++ behind ∧ rest = behind ++ .opening marker :: others := by
  rcases List.append_eq_append_iff.mp heq with ⟨behind, hfront, hrest⟩ | ⟨behind, hsplit, hrest⟩
  · exact ⟨behind, hfront, hrest⟩
  · cases behind with
    | nil => exact ⟨[], by simpa using hsplit.symm, by simpa using hrest.symm⟩
    | cons piece behind =>
      obtain ⟨rfl, -⟩ := List.cons.inj hrest
      exact absurd rfl (hpieces (.opening marker) (by simp [hsplit]))

/-- Pieces of a source are kept where what follows them is expanded. -/
theorem Balances.expands_append
    (hbalances : Balances structures (front ++ .opening marker :: rest))
    (hopen : openBehind own front = some now) (hstructures : own ++ outer = structures)
    (hexpands : Expands (now.map (·, 0) ++ frames) (.opening first :: pieces)
      (.opening second :: others)) :
    Expands (own.map (·, 0) ++ frames) (front ++ .opening first :: pieces)
      (front ++ .opening second :: others) := by
  generalize hwhole : front ++ .opening marker :: rest = whole at hbalances
  induction hbalances generalizing own front with
  | finished => simp at hwhole
  | @piece _ piece _ hinner _ ih =>
    cases front with
    | nil =>
      obtain ⟨rfl, -⟩ := List.cons.inj hwhole
      exact absurd rfl hinner
    | cons head front =>
      obtain ⟨rfl, hbehind⟩ := List.cons.inj hwhole
      refine .piece hinner (ih ?_ hstructures hbehind)
      rwa [← openBehind_append_inner (List.forall_mem_singleton.mpr hinner)]
  | @action _ _ _ hhead _ _ ih =>
    cases front with
    | nil =>
      cases hopen
      exact hexpands
    | cons head front =>
      rw [List.cons_append] at hwhole
      obtain ⟨rfl, rfl⟩ := List.cons.inj hwhole
      subst hstructures
      have hfront : headOf front ≠ .keyword .endWord := mt headOf_append_opening_iff.mpr hhead
      rw [openBehind, turned?, if_neg hfront] at hopen
      rw [List.cons_append, List.cons_append]
      refine .action (mt headOf_append_opening_iff.mp hfront) ?_
      rw [pushed_map, opened_append_opening]
      exact ih hopen (by rw [opened_append_opening, opened_append]) rfl
  | @ended word _ _ closing lead last _ _ ih =>
    cases front with
    | nil =>
      cases hopen
      exact hexpands
    | cons head front =>
      rw [List.cons_append] at hwhole
      obtain ⟨rfl, hbehind⟩ := List.cons.inj hwhole
      obtain ⟨behind, rfl, hrest⟩ :=
        exists_append_of_inner (isInner_end lead last closing) (by simpa using hbehind.symm)
      have hhead : headOf (spacePieces lead ++ wordPiece .endWord ::
          (spacePieces last ++ [.closing closing]) ++ behind) = .keyword .endWord := by
        simp [headOf_eq]
      rw [openBehind, turned?, if_pos hhead] at hopen
      cases own with
      | nil => cases hopen
      | cons word' own =>
        obtain ⟨rfl, houter⟩ := List.cons.inj hstructures
        replace hopen : openBehind own behind = some now := by
          rwa [← openBehind_append_inner (isInner_end lead last closing)]
        simpa using (ih hopen houter hrest.symm).kept_end word' _ _ _ _

end Kept

/-! ### One else -/

/-- A place in a source where an else starts a structure whose end stands right in front of another
end, or where an else goes on with the word of this structure: the pieces around the words that are
written in one way or in the other. -/
structure ElseSite where
  /-- The word of the structure. -/
  word : Keyword
  before : List Piece
  /-- The start of the else. -/
  marker : Option Char
  lead : List Char
  /-- What stands between the words of an else that goes on. -/
  gap : List Char
  /-- What stands between the words of an else and a structure of its own. -/
  joint : Joint
  /-- The rest of the action behind the word, and the bodies of the structure. -/
  inside : List Piece
  /-- The start of the end. -/
  endMarker : Option Char
  endLead : List Char
  /-- What stands between the words of the two ends. -/
  endJoint : Joint
  /-- The right delimiter of the last end. -/
  last : List Char
  closing : Option Char
  after : List Piece

namespace ElseSite

/-- The pieces of the source where the else goes on with the word. -/
def short (site : ElseSite) : List Piece :=
  site.before ++ .opening site.marker :: (spacePieces site.lead ++ wordPiece .elseWord ::
    (spacePieces site.gap ++ wordPiece site.word :: (site.inside ++
      .opening site.endMarker :: (spacePieces site.endLead ++ wordPiece .endWord ::
        (spacePieces site.last ++ .closing site.closing :: site.after)))))

/-- The pieces of the source where the structure has an action and an end of its own. -/
def long (site : ElseSite) : List Piece :=
  site.before ++ .opening site.marker :: (spacePieces site.lead ++ wordPiece .elseWord ::
    (site.joint.pieces ++ wordPiece site.word :: (site.inside ++
      .opening site.endMarker :: (spacePieces site.endLead ++ wordPiece .endWord ::
        (site.endJoint.pieces ++ wordPiece .endWord ::
          (spacePieces site.last ++ .closing site.closing :: site.after))))))

/-- That the else belongs to a structure with the same word, that the ends are those of the two
structures, and that nothing but blanks stands between the words. -/
structure IsNested (site : ElseSite) : Prop where
  isWord : site.word = .ifWord ∨ site.word = .withWord
  belongs : ∃ outer, openBehind [] site.before = some (site.word :: outer)
  isMatching : openBehind [] site.inside = some []
  gap_ne_nil : site.gap ≠ []
  gap : ∀ c ∈ site.gap, isBlank c
  joint : site.joint.IsBlank
  endJoint : site.endJoint.IsBlank

end ElseSite

theorem Joint.isBlank_none : Joint.IsBlank {} := by
  constructor <;> simp

section Site

variable {site : ElseSite} {structures outer : List Keyword}

/-- Behind the word of an end the structure is closed. -/
theorem Balances.of_endWord {marker : Option Char} {lead : List Char} {rest : List Piece}
    {word : Keyword}
    (hbalances : Balances (word :: outer)
      (.opening marker :: (spacePieces lead ++ wordPiece .endWord :: rest))) :
    Balances outer rest := by
  obtain ⟨_, _, heq, hrest⟩ := hbalances.of_end (by simp [headOf_eq])
  cases heq
  exact hrest.of_lead_word

/-- Behind any other word the structure that it opens is open, if it opens one. -/
theorem Balances.of_word {marker : Option Char} {lead : List Char} {rest : List Piece}
    {word : Keyword} (hword : word ≠ .endWord)
    (hbalances : Balances structures
      (.opening marker :: (spacePieces lead ++ wordPiece word :: rest))) :
    Balances (opened (.keyword word) structures) rest := by
  have hhead : headOf (spacePieces lead ++ wordPiece word :: rest) = .keyword word := by
    simp [headOf_eq]
  have hrest := (hbalances.of_opening (by simpa [hhead] using hword)).2
  rw [hhead] at hrest
  exact hrest.of_lead_word

/-- Behind the words of two actions in a row stands what stands behind the second one. -/
theorem Balances.of_joint {joint : Joint} {rest : List Piece}
    (hbalances : Balances structures (joint.pieces ++ rest)) :
    Balances structures (.opening joint.opening :: (spacePieces joint.after ++ rest)) := by
  simp only [Joint.pieces, List.append_assoc, List.cons_append] at hbalances
  exact ((hbalances.of_append (isInner_spacePieces _)).of_cons (isInner_closing _)).of_append
    (isInner_blankPieces _)

/-- One source of the two is an expansion of the other if what stands around the words is balanced
in some source. -/
theorem ElseSite.IsNested.expands_of (hnested : site.IsNested)
    (hbelongs : openBehind [] site.before = some (site.word :: outer))
    {first second : Option Char} {rest others : List Piece}
    (hbefore : Balances [] (site.before ++ .opening first :: rest))
    (hinside : Balances structures (site.inside ++ .opening second :: others))
    (hafter : Balances outer site.after) : Expands [] site.short site.long := by
  have hends := hafter.expands_self.further_end site.word site.endMarker site.closing site.endLead
    site.last hnested.endJoint
  have hbodies := hinside.expands_append hnested.isMatching rfl hends
  have helse : Expands ((site.word :: outer).map (·, 0))
      (.opening site.marker :: (spacePieces site.lead ++ _))
      (.opening site.marker :: (spacePieces site.lead ++ _)) :=
    .expanded hnested.isWord hnested.gap_ne_nil hnested.gap hnested.joint hbodies
  rw [← List.append_nil ((site.word :: outer).map (·, 0))] at helse
  have hwhole := hbefore.expands_append hbelongs rfl helse
  simpa [ElseSite.short, ElseSite.long] using hwhole

/-- The source with two actions is an expansion of the one with one, if either is balanced. -/
theorem ElseSite.IsNested.expands (hnested : site.IsNested)
    (hbalances : Balances [] site.short ∨ Balances [] site.long) :
    Expands [] site.short site.long := by
  obtain ⟨outer, hbelongs⟩ := hnested.belongs
  rcases hbalances with hshort | hlong
  · have helse := hshort.of_openBehind hbelongs
    rw [List.append_nil] at helse
    have hinside := (helse.of_word (by simp)).of_lead_word
    exact hnested.expands_of hbelongs hshort hinside
      (hinside.of_openBehind hnested.isMatching).of_endWord.of_last_closing
  · have helse := hlong.of_openBehind hbelongs
    rw [List.append_nil] at helse
    have hjoint := (helse.of_word (by simp)).of_joint
    have hinside := hjoint.of_word (by rcases hnested.isWord with hword | hword <;> simp [hword])
    have hopened : opened (.keyword site.word) (opened (.keyword .elseWord) (site.word :: outer)) =
        site.word :: site.word :: outer := by
      rcases hnested.isWord with hword | hword <;> rw [hword] <;> rfl
    have hends := hinside.of_openBehind hnested.isMatching
    rw [List.nil_append, hopened] at hends
    exact hnested.expands_of hbelongs hlong hinside
      hends.of_endWord.of_joint.of_endWord.of_last_closing

/-- The innermost structure that is open, but for these, is closed by an end. -/
theorem Balances.exists_end {own : List Keyword} {word : Keyword} {pieces : List Piece}
    (hbalances : Balances structures pieces) (hstructures : structures = own ++ word :: outer) :
    ∃ inside marker lead last closing after, openBehind own inside = some [] ∧
      pieces = inside ++ .opening marker :: (spacePieces lead ++ wordPiece .endWord ::
        (spacePieces last ++ .closing closing :: after)) := by
  induction hbalances generalizing own with
  | finished => simp at hstructures
  | @piece _ piece _ hinner _ ih =>
    obtain ⟨inside, marker, lead, last, closing, after, hopen, rfl⟩ := ih hstructures
    refine ⟨piece :: inside, marker, lead, last, closing, after, ?_, rfl⟩
    rwa [← List.singleton_append, openBehind_append_inner (List.forall_mem_singleton.mpr hinner)]
  | @action _ first pieces hhead _ _ ih =>
    obtain ⟨inside, marker, lead, last, closing, after, hopen, rfl⟩ :=
      ih ((congrArg _ hstructures).trans (opened_append _ own _))
    refine ⟨.opening first :: inside, marker, lead, last, closing, after, ?_, rfl⟩
    rw [opened_append_opening] at hopen
    rwa [openBehind, turned?, if_neg (mt headOf_append_opening_iff.mpr hhead)]
  | @ended word' _ first closing' lead' last' pieces hrest ih =>
    cases own with
    | nil => exact ⟨[], first, lead', last', closing', pieces, rfl, rfl⟩
    | cons innermost own =>
      obtain ⟨-, hstructures⟩ := List.cons.inj hstructures
      obtain ⟨inside, marker, lead, last, closing, after, hopen, rfl⟩ := ih hstructures
      refine ⟨.opening first :: (spacePieces lead' ++ wordPiece .endWord ::
        (spacePieces last' ++ [.closing closing']) ++ inside), marker, lead, last, closing, after,
        ?_, by simp⟩
      rw [openBehind, turned?, if_pos (by simp [headOf_eq])]
      exact (openBehind_append_inner (isInner_end lead' last' closing') own inside).trans hopen

/-- Where an else of an accepted source goes on, there is a place at which it can be written in two
actions. -/
theorem Balances.exists_site {before rest : List Piece} {marker : Option Char} {word : Keyword}
    (hbalances : Balances [] (before ++ .opening marker :: rest))
    (hword : furtherWord? rest = some word) :
    ∃ site : ElseSite, site.IsNested ∧ site.before = before ∧ site.word = word ∧
      site.short = before ++ .opening marker :: rest := by
  obtain ⟨now, hopen, hnow⟩ := hbalances.exists_openBehind
  have hhead := headOf_of_furtherWord? hword
  obtain ⟨hgoes, hrest⟩ := hnow.of_opening (by simp [hhead])
  obtain ⟨⟨outer, rfl⟩, hisWord, lead, gap, behind, hgap, hblank, rfl⟩ := hgoes word hword
  rw [hhead] at hrest
  obtain ⟨inside, endMarker, endLead, last, closing, after, hinside, rfl⟩ :=
    @Balances.exists_end _ outer [] word _ hrest.of_lead_word.of_lead_word rfl
  refine ⟨{ word, before, marker, lead, gap, inside, endMarker, endLead, last, closing, after,
            joint := {}, endJoint := {} }, ?_, rfl, rfl, rfl⟩
  exact ⟨hisWord, ⟨outer, hopen⟩, hinside, hgap, hblank, Joint.isBlank_none, Joint.isBlank_none⟩

end Site

end Stencil.Syntax
