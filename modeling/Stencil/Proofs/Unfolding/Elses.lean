import Stencil.Proofs.Unfolding.Passages
import Stencil.Proofs.Unfolding.Rewriting
import Stencil.Proofs.Unfolding.Sites

/-!
# An else that goes on is an else with a structure of its own

The parser reads `else if` without a list of its own for the inner structure, and the two structures
share their end. What it makes of it is what it makes of an `else` and an `if` with an end each. Two
facts are put together here: a source and an expansion of it are scanned as their pieces if one of
them is (`Expands.scans`), and two sources whose items are related so are parsed in step
(`accords_parse`). The longer source alone may be too deep, because the inner structure is nested
in the body of the outer one there.

`elsesAreNested` says it of one else, of every number of them at once, and of all that a source has
(`Balances.exists_elsesAlone`), and that an else goes on with no other word.
-/

set_option autoImplicit false
set_option relaxedAutoImplicit false

namespace Stencil.Syntax

/-! ### Every else -/

/-- That no else goes on with a word. -/
def ElsesAlone (pieces : List Piece) : Prop :=
  ∀ marker rest, .opening marker :: rest <:+ pieces → furtherWord? rest = none

section ElsesAlone

variable {front pieces others : List Piece} {frames : List Pending}

theorem elsesAlone_nil : ElsesAlone [] := by
  intro marker rest hsuffix
  cases List.suffix_nil.mp hsuffix

theorem ElsesAlone.cons {piece : Piece} (hinner : piece.IsInner) (halone : ElsesAlone pieces) :
    ElsesAlone (piece :: pieces) := by
  intro marker rest hsuffix
  rcases List.suffix_cons_iff.mp hsuffix with heq | hsuffix
  · obtain ⟨rfl, -⟩ := List.cons.inj heq
    exact absurd rfl hinner
  · exact halone marker rest hsuffix

theorem ElsesAlone.append (hfront : ∀ piece ∈ front, piece.IsInner) (halone : ElsesAlone pieces) :
    ElsesAlone (front ++ pieces) := by
  induction front with
  | nil => exact halone
  | cons piece front ih =>
    obtain ⟨hpiece, hfront⟩ := List.forall_mem_cons.mp hfront
    exact (ih hfront).cons hpiece

/-- An action that is no else which goes on may stand in front. -/
theorem ElsesAlone.opening (marker : Option Char) (hfurther : furtherWord? pieces = none)
    (halone : ElsesAlone pieces) : ElsesAlone (.opening marker :: pieces) := by
  intro other rest hsuffix
  rcases List.suffix_cons_iff.mp hsuffix with heq | hsuffix
  · obtain ⟨-, rfl⟩ := List.cons.inj heq
    exact hfurther
  · exact halone other rest hsuffix

/-- No word of a pipeline, of a structure or of an end is an else. -/
theorem furtherWord?_word {word : Keyword} (hword : word ≠ .elseWord) (lead : List Char)
    (rest : List Piece) : furtherWord? (spacePieces lead ++ wordPiece word :: rest) = none := by
  rw [Option.eq_none_iff_forall_ne_some]
  intro next hnext
  have hhead := headOf_of_furtherWord? hnext
  simp only [headOf_eq, kindsOf_append, kindsOf_spacePieces, kindsOf_word, List.nil_append,
    List.headD_cons, ItemKind.keyword.injEq] at hhead
  exact hword hhead

/-- Further ends have no else. -/
theorem ElsesAlone.furtherEnds (count : Nat) (halone : ElsesAlone pieces) :
    ElsesAlone (furtherEnds (List.replicate count {}) ++ pieces) := by
  induction count with
  | zero => exact halone
  | succ count ih =>
    have hword := (ih.cons (isInner_wordPiece .endWord)).opening none
      (furtherWord?_word (by simp) [] _)
    exact hword.cons (isInner_closing none)

end ElsesAlone

/-- The first two items of an expansion are of the kinds of those that it was made of. -/
theorem Expands.take_kindsOf {frames : List Pending} {pieces others : List Piece}
    (hexpands : Expands frames pieces others) {n : Nat} (hn : n ≤ 2) :
    (kindsOf others).take n = (kindsOf pieces).take n := by
  induction hexpands generalizing n with
  | finished => rfl
  | @piece _ piece pieces others _ _ ih =>
    have hsplit (pieces : List Piece) :
        kindsOf (piece :: pieces) = kindsOf [piece] ++ kindsOf pieces :=
      kindsOf_append [piece] pieces
    rw [hsplit others, hsplit pieces, List.take_append, List.take_append, ih (by omega)]
  | action _ _ ih =>
    rw [kindsOf_opening, kindsOf_opening]
    cases n with
    | zero => rfl
    | succ n => rw [List.take_succ_cons, List.take_succ_cons, ih (by omega)]
  | expanded | ended => interval_cases n <;> simp

/-- An expansion starts with an else that goes on where the source does that it was made of. -/
theorem Expands.furtherWord?_eq {frames : List Pending} {pieces others : List Piece}
    (hexpands : Expands frames pieces others) : furtherWord? others = furtherWord? pieces := by
  rw [furtherWord?, furtherWord?, hexpands.take_kindsOf le_rfl]

/-- The structures that are open behind an action, in both sources. -/
theorem map_fst_pushed (kind : ItemKind) (frames : List Pending) :
    (pushed kind frames).map Prod.fst = opened kind (frames.map Prod.fst) := by
  cases kind with
  | keyword word => cases word <;> rfl
  | _ => rfl

theorem exists_frame {word : Keyword} {outer : List Keyword} {frames : List Pending}
    (hframes : frames.map Prod.fst = word :: outer) :
    ∃ count rest, frames = (word, count) :: rest ∧ rest.map Prod.fst = outer := by
  obtain ⟨⟨_, count⟩, rest, rfl, rfl, hrest⟩ := List.map_eq_cons_iff.mp hframes
  exact ⟨count, rest, rfl, hrest⟩

/-- Every source that opens and closes structures as it should has an expansion in which no else
goes on. -/
theorem Balances.exists_elsesAlone {structures : List Keyword} {pieces : List Piece}
    (hbalances : Balances structures pieces) {frames : List Pending}
    (hframes : frames.map Prod.fst = structures) :
    ∃ others, Expands frames pieces others ∧ ElsesAlone others := by
  induction hlength : pieces.length using Nat.strong_induction_on
    generalizing structures pieces frames with
  | _ length ih =>
  cases hbalances with
  | finished =>
    obtain rfl := List.map_eq_nil_iff.mp hframes
    exact ⟨[], .finished, elsesAlone_nil⟩
  | @piece _ piece pieces hinner hrest =>
    obtain ⟨others, hexpands, halone⟩ := ih pieces.length (by simp [← hlength]) hrest hframes rfl
    exact ⟨piece :: others, .piece hinner hexpands, halone.cons hinner⟩
  | @action _ marker pieces hhead hfurther hrest =>
    cases hword : furtherWord? pieces with
    | none =>
      obtain ⟨others, hexpands, halone⟩ := ih pieces.length (by simp [← hlength]) hrest
        ((map_fst_pushed _ frames).trans (by rw [hframes])) rfl
      exact ⟨.opening marker :: others, .action hhead hexpands,
        halone.opening marker (hexpands.furtherWord?_eq.trans hword)⟩
    | some word =>
      obtain ⟨⟨outer, rfl⟩, hisWord, lead, gap, rest, hgap, hblank, rfl⟩ := hfurther word hword
      obtain ⟨count, frames, rfl, houter⟩ := exists_frame hframes
      rw [headOf_of_furtherWord? hword] at hrest
      obtain ⟨others, hexpands, halone⟩ := @ih rest.length (by simp [← hlength]; omega) _ _
        hrest.of_lead_word.of_lead_word ((word, count + 1) :: frames) (congrArg (word :: ·) houter)
        rfl
      refine ⟨_, .expanded hisWord hgap hblank Joint.isBlank_none hexpands, ?_⟩
      refine .opening marker ?_ (.append (isInner_spacePieces _) (.cons (isInner_wordPiece _)
        (.cons (isInner_closing none) (.opening none (furtherWord?_word ?_ [] _)
          (halone.cons (isInner_wordPiece _))))))
      · rw [Option.eq_none_iff_forall_ne_some]
        intro next hnext
        have hhead := furtherWord?_else.mp hnext
        simp [headOf_eq, Joint.pieces] at hhead
      · rcases hisWord with rfl | rfl <;> simp
  | @ended word structures marker closing lead last pieces hrest =>
    obtain ⟨count, frames, rfl, houter⟩ := exists_frame hframes
    obtain ⟨others, hexpands, halone⟩ := ih pieces.length (by simp [← hlength]; omega) hrest
      houter rfl
    have hends := @Expands.ended word frames marker closing lead last (List.replicate count {}) _ _
      (fun joint hjoint ↦ List.eq_of_mem_replicate hjoint ▸ Joint.isBlank_none) hexpands
    rw [List.length_replicate] at hends
    refine ⟨_, hends, .opening marker (furtherWord?_word (by simp) lead _) ?_⟩
    refine .append (isInner_spacePieces lead) (.cons (isInner_wordPiece _) (.furtherEnds count ?_))
    exact .append (isInner_spacePieces last) (halone.cons (isInner_closing closing))

/-! ### Sources -/

/-- The source that pieces tell. -/
def sourceOf (delimiters : Delimiters) (pieces : List Piece) : String :=
  String.ofList (texts delimiters pieces)

/-- That a source is accepted with the same trees up to positions. -/
def ParsesAlike (set : TreeSet) (result : Except ParseError TreeSet) : Prop :=
  ∃ other, result = .ok other ∧ other.unplaced = set.unplaced

/-- That a source is accepted with the same trees up to positions, or refused for being too deep. -/
def ParsesAlikeUnlessDeep (set : TreeSet) (result : Except ParseError TreeSet) : Prop :=
  ParsesAlike set result ∨ ∃ error, result = .error error ∧ error.fault = .tooDeep

section Sources

variable {delimiters : Delimiters} {source : String} {pieces others : List Piece} {set : TreeSet}

theorem scans_of_scan_eq {fault : Option String}
    (hscan : scan delimiters .outside source.toList = ⟨pieces, fault⟩) :
    Scans delimiters .outside source.toList pieces fault := by
  have hscans := scans_scan delimiters .outside source.toList
  rwa [hscan] at hscans

theorem toList_sourceOf (pieces : List Piece) :
    (sourceOf delimiters pieces).toList = texts delimiters pieces :=
  String.toList_ofList

/-- A source and an expansion of it are parsed in step. -/
theorem Expands.accords (hexpands : Expands [] pieces others) {short long : String}
    (hshort : Scans delimiters .outside short.toList pieces none)
    (hlong : Scans delimiters .outside long.toList others none) (name : String)
    (isFunction : String → Bool) :
    Parse.Accords (fun trees trees' ↦ trees.unplaced = trees'.unplaced)
      (some (parse name delimiters isFunction short)) (parse name delimiters isFunction long) := by
  refine accords_parse ?_ name isFunction
  have hfirst : lex delimiters short = _ := hshort.lexFrom_eq {}
  have hsecond : lex delimiters long = _ := hlong.lexFrom_eq {}
  rw [hfirst, hsecond]
  exact hexpands.unfolds {} {}

/-- An expansion of an accepted source is accepted with the same trees, unless it is too deep. -/
theorem Expands.parses_long (hpunctual : delimiters.Punctual) (hexpands : Expands [] pieces others)
    (hscan : scan delimiters .outside source.toList = ⟨pieces, none⟩) {name : String}
    {isFunction : String → Bool} (hparse : parse name delimiters isFunction source = .ok set) :
    ParsesAlikeUnlessDeep set
      (parse name delimiters isFunction (sourceOf delimiters others)) := by
  have hshort := scans_of_scan_eq hscan
  have hlong := hexpands.scans hpunctual hshort
  rw [← toList_sourceOf] at hlong
  have haccords := hexpands.accords hshort hlong name isFunction
  rw [hparse] at haccords
  cases hresult : parse name delimiters isFunction (sourceOf delimiters others) with
  | ok other =>
    rw [hresult] at haccords
    exact .inl ⟨other, rfl, Eq.symm haccords⟩
  | error error =>
    rw [hresult] at haccords
    exact .inr ⟨error, rfl, haccords⟩

/-- A source is accepted with the trees of an expansion of it, if this is accepted. -/
theorem Expands.parses_short (hpunctual : delimiters.Punctual) (hexpands : Expands [] pieces others)
    (hscan : scan delimiters .outside source.toList = ⟨others, none⟩) {name : String}
    {isFunction : String → Bool} (hparse : parse name delimiters isFunction source = .ok set) :
    ParsesAlike set (parse name delimiters isFunction (sourceOf delimiters pieces)) := by
  have hlong := scans_of_scan_eq hscan
  have hshort := hexpands.scans_of_expanded hpunctual hlong
  rw [← toList_sourceOf] at hshort
  have haccords := hexpands.accords hshort hlong name isFunction
  rw [hparse] at haccords
  cases hresult : parse name delimiters isFunction (sourceOf delimiters pieces) with
  | ok other =>
    rw [hresult] at haccords
    exact ⟨other, rfl, haccords⟩
  | error error =>
    rw [hresult] at haccords
    exact haccords.elim

/-- The pieces of an accepted source open and close structures as they should. -/
theorem balances_of_parse (hpunctual : delimiters.Punctual) {fault : Option String}
    (hscan : scan delimiters .outside source.toList = ⟨pieces, fault⟩) {name : String}
    {isFunction : String → Bool} (hparse : parse name delimiters isFunction source = .ok set) :
    Balances [] pieces := by
  obtain ⟨found, hfound, hbalances⟩ := exists_balances_of_parse hpunctual hparse
  rw [hscan] at hfound
  cases hfound
  exact hbalances

end Sources

/-- What an else that goes on with a word has to do with an else and a structure of its own. -/
structure ElsesAreNested (delimiters : Delimiters) (name : String) (isFunction : String → Bool) :
    Prop where
  /-- An accepted source in which an else and a structure of the same kind stand in two actions, and
  the two ends in a row, is accepted too with the words in one action and one end. -/
  folds : ∀ (site : ElseSite) {source : String} {set : TreeSet}, site.IsNested →
    scan delimiters .outside source.toList = ⟨site.long, none⟩ →
    parse name delimiters isFunction source = .ok set →
    ParsesAlike set (parse name delimiters isFunction (sourceOf delimiters site.short))
  /-- An accepted source in which an else goes on with the word of its structure is accepted too
  with two actions and two ends, unless this is too deep. -/
  unfolds : ∀ (site : ElseSite) {source : String} {set : TreeSet}, site.IsNested →
    scan delimiters .outside source.toList = ⟨site.short, none⟩ →
    parse name delimiters isFunction source = .ok set →
    ParsesAlikeUnlessDeep set (parse name delimiters isFunction (sourceOf delimiters site.long))
  /-- Every else that goes on stands at such a place. -/
  exists_site : ∀ {source : String} {set : TreeSet} {before rest : List Piece}
    {marker : Option Char} {word : Keyword}, parse name delimiters isFunction source = .ok set →
    scan delimiters .outside source.toList = ⟨before ++ .opening marker :: rest, none⟩ →
    furtherWord? rest = some word →
    ∃ site : ElseSite, site.IsNested ∧ site.before = before ∧ site.word = word ∧
      site.short = before ++ .opening marker :: rest
  /-- The same is true of any number of elses at once, in one structure or in many. -/
  contracts : ∀ {pieces others : List Piece} {source : String} {set : TreeSet},
    Expands [] pieces others → scan delimiters .outside source.toList = ⟨others, none⟩ →
    parse name delimiters isFunction source = .ok set →
    ParsesAlike set (parse name delimiters isFunction (sourceOf delimiters pieces))
  expands : ∀ {pieces others : List Piece} {source : String} {set : TreeSet},
    Expands [] pieces others → scan delimiters .outside source.toList = ⟨pieces, none⟩ →
    parse name delimiters isFunction source = .ok set →
    ParsesAlikeUnlessDeep set (parse name delimiters isFunction (sourceOf delimiters others))
  /-- Every accepted source has an expansion in which no else goes on. -/
  exists_alone : ∀ {source : String} {set : TreeSet},
    parse name delimiters isFunction source = .ok set →
    ∃ pieces others, scan delimiters .outside source.toList = ⟨pieces, none⟩ ∧
      Expands [] pieces others ∧ ElsesAlone others
  /-- An else goes on with no word but that of the innermost structure. -/
  rejects : ∀ {source : String} {before rest : List Piece} {marker : Option Char} {word : Keyword}
    {fault : Option String},
    scan delimiters .outside source.toList = ⟨before ++ .opening marker :: rest, fault⟩ →
    furtherWord? rest = some word → (∀ outer, openBehind [] before ≠ some (word :: outer)) →
    ∃ error, parse name delimiters isFunction source = .error error

/-- With delimiters made of punctuation, such as braces or brackets, an else that goes on with the
word of its structure is an else with a structure of its own, and it goes on with no other word.
Other delimiters may hold letters or blanks, so that the word that follows one is no longer told
apart from it, and then the law need not hold. -/
theorem elsesAreNested {delimiters : Delimiters} (hpunctual : delimiters.Punctual) (name : String)
    (isFunction : String → Bool) : ElsesAreNested delimiters name isFunction where
  folds site _ _ hnested hscan hparse :=
    (hnested.expands (.inr (balances_of_parse hpunctual hscan hparse))).parses_short hpunctual hscan
      hparse
  unfolds site _ _ hnested hscan hparse :=
    (hnested.expands (.inl (balances_of_parse hpunctual hscan hparse))).parses_long hpunctual hscan
      hparse
  exists_site hparse hscan hword := (balances_of_parse hpunctual hscan hparse).exists_site hword
  contracts hexpands hscan hparse := hexpands.parses_short hpunctual hscan hparse
  expands hexpands hscan hparse := hexpands.parses_long hpunctual hscan hparse
  exists_alone hparse := by
    obtain ⟨pieces, hscan, hbalances⟩ := exists_balances_of_parse hpunctual hparse
    obtain ⟨others, hexpands, halone⟩ := @Balances.exists_elsesAlone _ _ hbalances [] rfl
    exact ⟨pieces, others, hscan, hexpands, halone⟩
  rejects {source before rest _ word _} hscan hword hforeign := by
    cases hresult : parse name delimiters isFunction source with
    | error error => exact ⟨error, rfl⟩
    | ok set =>
      obtain ⟨now, hopen, hbalances⟩ :=
        (balances_of_parse hpunctual hscan hresult).exists_openBehind
      have hhead : headOf rest ≠ .keyword .endWord := by
        rw [headOf_of_furtherWord? hword]
        simp
      obtain ⟨outer, rfl⟩ := ((hbalances.of_opening hhead).1 word hword).belongs
      exact absurd hopen (hforeign outer)

/-- An else of an `if`, with blanks that a trim marker takes away in front of the inner `if`. -/
def ifSite : ElseSite where
  word := .ifWord
  before := [.opening none, wordPiece .ifWord, .item .space [' '], .item .field ['.', 'A'],
    .closing none, .item .text ['a']]
  marker := none
  lead := []
  gap := [' ']
  joint := { blanks := [' '], opening := some ' ' }
  inside := [.item .space [' '], .item .field ['.', 'B'], .closing none, .item .text ['b']]
  endMarker := none
  endLead := []
  endJoint := {}
  last := []
  closing := none
  after := [.item .text ['c']]

/-- A source with two actions and two ends is accepted, and so is the one with one of each. -/
theorem elsesAreNested_if : Delimiters.brackets.Punctual ∧ ∃ set,
    parse "page" Delimiters.brackets (fun _ ↦ false) "[if .A]a[else] [- if .B]b[end][end]c" =
      .ok set ∧
    ParsesAlike set
      (parse "page" Delimiters.brackets (fun _ ↦ false) "[if .A]a[else if .B]b[end]c") := by
  have hpunctual : Delimiters.brackets.Punctual := by decide
  have hnested : ifSite.IsNested :=
    ⟨.inl rfl, ⟨[], by cbv⟩, by cbv, by simp [ifSite], by simp [ifSite, isBlank],
      by constructor <;> simp [ifSite, isBlank], Joint.isBlank_none⟩
  have hscan : scan Delimiters.brackets .outside
      "[if .A]a[else] [- if .B]b[end][end]c".toList = ⟨ifSite.long, none⟩ := by
    cbv
  have hsource : sourceOf Delimiters.brackets ifSite.short = "[if .A]a[else if .B]b[end]c" := by
    cbv
  have haccepted : (parse "page" Delimiters.brackets (fun _ ↦ false)
      "[if .A]a[else] [- if .B]b[end][end]c").isOk = true := by
    cbv
  cases hparse : parse "page" Delimiters.brackets (fun _ ↦ false)
      "[if .A]a[else] [- if .B]b[end][end]c" with
  | error error =>
    rw [hparse] at haccepted
    cases haccepted
  | ok set =>
    refine ⟨hpunctual, set, rfl, ?_⟩
    rw [← hsource]
    exact (elsesAreNested hpunctual "page" fun _ ↦ false).folds ifSite hnested hscan hparse

end Stencil.Syntax
