import Stencil.Proofs.Lexing.Concatenation
import Stencil.Proofs.Lexing.Redelimiting
import Stencil.Proofs.Unfolding.Pieces

/-!
# Words, blanks and delimiters that are written

With delimiters made of punctuation, the lexer looks ahead inside an action at most up to the right
delimiter (`Lexes.replace`). So an action can be taken apart behind each of its words
(`Scans.of_word`, `Scans.of_joint`) and put together again with other words in front of the rest of
it: a word where a name may end (`Scans.cons_word`), blanks (`Scans.cons_spaces`), or what stands
between the words of two actions (`Scans.cons_joint`).
-/

set_option autoImplicit false
set_option relaxedAutoImplicit false

namespace Stencil.Syntax

variable {delimiters : Delimiters}

/-- Punctuation has no blanks and no dashes. -/
theorem Delimiters.Punctual.compact (hpunctual : delimiters.Punctual) : delimiters.Compact :=
  fun c hc ↦
    have hspec := punctuation_spec (hpunctual c hc)
    ⟨hspec.1, hspec.2.2.2.2.1⟩

/-! ### Looking ahead up to the right delimiter -/

section Replace

variable {inner more : List Char} {kind : ItemKind}

/-- Whether a right delimiter follows is told by the text up to one. -/
theorem closing?_replace (hcompact : delimiters.Compact) (inner more other : List Char) :
    closing? delimiters (inner ++ (delimiters.right.toList ++ more)) =
      closing? delimiters (inner ++ (delimiters.right.toList ++ other)) := by
  have hright := List.suffix_append inner delimiters.right.toList
  rw [← List.append_assoc, closing?_append hcompact hright, ← List.append_assoc,
    closing?_append hcompact hright]

/-- Whether a name may end is told by the text up to the right delimiter. -/
theorem atTerminator_replace (inner more other : List Char) :
    atTerminator delimiters (inner ++ (delimiters.right.toList ++ more)) =
      atTerminator delimiters (inner ++ (delimiters.right.toList ++ other)) := by
  have hright := List.suffix_append inner delimiters.right.toList
  rw [← List.append_assoc, atTerminator_append hright, ← List.append_assoc,
    atTerminator_append hright]

/-- How many blanks are a run is told by the text up to the right delimiter. -/
theorem spaceLength_replace (hcompact : delimiters.Compact) (inner more other : List Char) :
    spaceLength delimiters (inner ++ (delimiters.right.toList ++ more)) =
      spaceLength delimiters (inner ++ (delimiters.right.toList ++ other)) := by
  have hright := List.suffix_append inner delimiters.right.toList
  rw [← List.append_assoc, spaceLength_append hcompact hright, ← List.append_assoc,
    spaceLength_append hcompact hright]

/-- A name is told by the text up to the right delimiter. -/
theorem nameLexeme_replace (hpunctual : delimiters.Punctual) (other : List Char)
    {named : ItemKind} {n : Nat}
    (hname : nameLexeme delimiters named (inner ++ (delimiters.right.toList ++ more)) =
      .ok (kind, n)) :
    nameLexeme delimiters named (inner ++ (delimiters.right.toList ++ other)) = .ok (kind, n) := by
  have hstops : ∀ c ∈ punctuation, isNameChar c = false := fun c hc ↦ (punctuation_spec hc).2.1
  rw [nameLexeme_eq_ok_iff, takeWhile_right hpunctual hstops] at hname ⊢
  obtain ⟨hkind, hlength, hend⟩ := hname
  have hle : n ≤ inner.length := hlength ▸ length_takeWhile_le isNameChar inner
  rw [List.drop_append_of_le_length hle] at hend ⊢
  exact ⟨hkind, hlength, by rwa [atTerminator_replace _ other more]⟩

/-- A name behind a sign is told by the text up to the right delimiter. -/
theorem signedName_replace (hpunctual : delimiters.Punctual) (other : List Char)
    {bare named : ItemKind} {n : Nat}
    (hname : signedName delimiters bare named (inner ++ (delimiters.right.toList ++ more)) =
      .ok (kind, n)) :
    signedName delimiters bare named (inner ++ (delimiters.right.toList ++ other)) =
      .ok (kind, n) := by
  rw [signedName_eq_ok_iff, atTerminator_replace _ more other] at hname
  rw [signedName_eq_ok_iff]
  exact hname.imp_right fun ⟨hstart, hname⟩ ↦ ⟨hstart, nameLexeme_replace hpunctual other hname⟩

/-- A lexeme is told by the text up to the right delimiter. -/
theorem Lexes.replace (hpunctual : delimiters.Punctual) {c : Char} {value : List Char}
    (other : List Char)
    (hlexes : Lexes delimiters c (value ++ (inner ++ (delimiters.right.toList ++ more))) kind
      value.length) :
    Lexes delimiters c (value ++ (inner ++ (delimiters.right.toList ++ other))) kind
      value.length := by
  have hsplit (more : List Char) : value ++ (inner ++ (delimiters.right.toList ++ more)) =
      (value ++ inner) ++ (delimiters.right.toList ++ more) := (List.append_assoc _ _ _).symm
  generalize htext : value ++ (inner ++ (delimiters.right.toList ++ more)) = text at hlexes
  generalize hlength : value.length = length at hlexes
  cases hlexes with
  | space hblank =>
    rw [← htext, hsplit more, hsplit other,
      spaceLength_replace hpunctual.compact (value ++ inner) more other]
    exact .space hblank
  | assign => exact .assign
  | declare =>
    obtain ⟨d, hd⟩ := List.length_eq_one_iff.mp hlength
    rw [hd, List.singleton_append, List.cons.injEq] at htext
    rw [hd, htext.1]
    exact .declare
  | bar => exact .bar
  | string hquoted =>
    rw [← htext, ← hlength] at hquoted
    exact .string (hlength ▸ quotedLength_append _ (by decide) hquoted)
  | rawString hraw =>
    rw [← htext, ← hlength] at hraw
    exact .rawString (hlength ▸ rawLength_append _ hraw)
  | variableName hname =>
    rw [← htext, hsplit] at hname
    rw [hsplit]
    exact .variableName (signedName_replace hpunctual other hname)
  | charConstant hquoted =>
    rw [← htext, ← hlength] at hquoted
    exact .charConstant (hlength ▸ quotedLength_append _ (by decide) hquoted)
  | field hnext hname =>
    rw [← htext, hsplit] at hname
    have hother := signedName_replace hpunctual other hname
    rw [hsplit] at htext ⊢
    obtain ⟨next, rest, hcons, hdigit⟩ :=
      @exists_cons_redelimit delimiters delimiters hpunctual _ _ other _ _ htext hnext
    rw [hcons] at hother ⊢
    exact .field hdigit hother
  | number hstart hnumber =>
    rw [← htext, hsplit] at hnumber hstart
    rw [hsplit]
    refine .number ?_ (numberLexeme_redelimit hpunctual hpunctual c _ more other ▸ hnumber)
    exact hstart.imp_left fun ⟨hdot, hdigit⟩ ↦
      ⟨hdot, all_isDigit_redelimit hpunctual other hdigit⟩
  | word hc hdigit hname =>
    have hstops : ∀ c ∈ punctuation, isNameChar c = false := fun c hc ↦ (punctuation_spec hc).2.1
    rw [← htext, hsplit, takeWhile_right hpunctual hstops] at hname
    rw [hsplit]
    refine .word hc hdigit ?_
    rw [takeWhile_right hpunctual hstops]
    exact nameLexeme_replace hpunctual other hname
  | leftParen => exact .leftParen
  | rightParen => exact .rightParen
  | mark hmark hblank hname hleader => exact .mark hmark hblank hname hleader

end Replace

/-! ### Words -/

/-- A keyword is the word that it is written as. -/
theorem ofWord?_spelling {word : Keyword} (hword : word ≠ .dot) :
    Keyword.ofWord? word.spelling = some word := by
  cases word <;> first | exact absurd rfl hword | rfl

/-- A keyword is written as the word that it is. -/
theorem spelling_of_ofWord? {text : String} {word : Keyword}
    (hword : Keyword.ofWord? text = some word) : word.spelling = text := by
  unfold Keyword.ofWord? at hword
  split at hword <;> cases hword <;> rfl

/-- A keyword is written with letters. -/
theorem spelling_eq {word : Keyword} (hword : word ≠ .dot) :
    ∃ c value, word.spelling.toList = c :: value ∧ c.isDigit = false ∧
      ∀ d ∈ c :: value, isNameChar d = true := by
  cases word with
  | dot => exact absurd rfl hword
  | _ => exact ⟨_, _, rfl, by decide, List.all_iff_forall_prop.mp (by decide)⟩

/-- No name goes on where one may end. -/
theorem takeWhile_of_atTerminator (hpunctual : delimiters.Punctual) {text : List Char}
    (hend : atTerminator delimiters text = true) : text.takeWhile isNameChar = [] := by
  cases text with
  | nil => rfl
  | cons c rest =>
    refine List.takeWhile_cons_of_neg ?_
    simp only [atTerminator, Bool.or_eq_true] at hend
    rcases hend with (hblank | hmark) | hright
    · intro hname
      rw [isBlank_of_isNameChar hname] at hblank
      cases hblank
    · simp only [List.contains_eq_mem, List.mem_cons, List.not_mem_nil, or_false,
        decide_eq_true_eq] at hmark
      rcases hmark with rfl | rfl | rfl | rfl | rfl | rfl <;> decide
    · obtain ⟨mark, tail, hchars, -, hmark⟩ := exists_right_eq hpunctual
      rw [hchars, List.isPrefixOf_iff_prefix] at hright
      rw [← (List.cons_prefix_cons.mp hright).1, (punctuation_spec hmark).2.1]
      exact Bool.false_ne_true

/-- No right delimiter starts with a character that is no punctuation and no blank. -/
theorem closing?_cons (hpunctual : delimiters.Punctual) {c : Char} (hc : c ∉ punctuation)
    {rest : List Char} (hblank : isBlank c = false ∨ rest.head? ≠ some '-') :
    closing? delimiters (c :: rest) = none := by
  obtain ⟨mark, tail, hright, -, hmark⟩ := exists_right_eq hpunctual
  have hprefix : delimiters.right.toList.isPrefixOf (c :: rest) = false := by
    rw [hright, Bool.eq_false_iff, Ne, List.isPrefixOf_iff_prefix]
    intro hprefix
    exact hc ((List.cons_prefix_cons.mp hprefix).1 ▸ hmark)
  have hmarker : startsWithRightMarker (c :: rest) = false := by
    rw [startsWithRightMarker_cons, Bool.and_eq_false_iff, decide_eq_false_iff_not]
    exact hblank
  simp [closing?, hmarker, hprefix]

/-- A character of a name is no punctuation. -/
theorem not_mem_punctuation_of_isNameChar {c : Char} (hname : isNameChar c = true) :
    c ∉ punctuation := by
  intro hc
  rw [(punctuation_spec hc).2.1] at hname
  cases hname

/-- A blank is no punctuation. -/
theorem not_mem_punctuation_of_isBlank {c : Char} (hblank : isBlank c = true) :
    c ∉ punctuation := by
  intro hc
  rw [(punctuation_spec hc).1] at hblank
  cases hblank

/-- A word is read where a name may end behind it. -/
theorem Scans.cons_word (hpunctual : delimiters.Punctual) {word : Keyword} (hword : word ≠ .dot)
    {depth : Nat} {pieces : List Piece}
    (hend : atTerminator delimiters (texts delimiters pieces) = true)
    (hscans : Scans delimiters (.inside depth) (texts delimiters pieces) pieces none) :
    Scans delimiters (.inside depth) (texts delimiters (wordPiece word :: pieces))
      (wordPiece word :: pieces) none := by
  obtain ⟨c, value, hspelling, hdigit, hnamed⟩ := spelling_eq hword
  have hname := hnamed c List.mem_cons_self
  have htake : (value ++ texts delimiters pieces).takeWhile isNameChar = value := by
    rw [List.takeWhile_append_of_pos fun d hd ↦ hnamed d (List.mem_cons_of_mem c hd),
      takeWhile_of_atTerminator hpunctual hend, List.append_nil]
  have hkind : wordKind (String.ofList (c :: value)) = .keyword word := by
    rw [wordKind, ← hspelling, String.ofList_toList, ofWord?_spelling hword]
  rw [texts_cons, wordPiece, Piece.text, hspelling]
  refine .item (closing?_cons hpunctual (not_mem_punctuation_of_isNameChar hname)
    (.inl (isBlank_of_isNameChar hname))) ?_ (by simp [nextDepth]) hscans
  refine lexeme_of_lexes (.word hname hdigit ?_)
  rw [nameLexeme_eq_ok_iff, htake, List.drop_left]
  exact ⟨hkind, rfl, hend⟩

/-- What is read from an item on is the item and what is read behind it. -/
theorem Scans.of_item {depth : Nat} {text value : List Char} {kind : ItemKind}
    {pieces : List Piece}
    (hscans : Scans delimiters (.inside depth) text (.item kind value :: pieces) none) :
    ∃ deeper c more, nextDepth depth kind = some deeper ∧ value = c :: more ∧
      Lexes delimiters c (more ++ texts delimiters pieces) kind more.length ∧
      closing? delimiters (c :: (more ++ texts delimiters pieces)) = none ∧
      Scans delimiters (.inside deeper) (texts delimiters pieces) pieces none := by
  cases hscans with
  | @item _ deeper c more rest _ _ _ hclosing hlexeme hdepth hinside =>
    obtain ⟨unread, hrest, hunread⟩ := hinside.text_eq
    rw [hunread rfl, List.append_nil] at hrest
    subst hrest
    exact ⟨deeper, c, more, hdepth, rfl, lexes_of_lexeme hlexeme, hclosing, hinside⟩

/-- A keyword other than the dot is a whole name, behind which a name may end. -/
theorem Lexes.of_keyword {c : Char} {rest : List Char} {word : Keyword} {length : Nat}
    (hlexes : Lexes delimiters c rest (.keyword word) length) (hword : word ≠ .dot) :
    Keyword.ofWord? (String.ofList (c :: rest.takeWhile isNameChar)) = some word ∧
      (rest.takeWhile isNameChar).length = length ∧
      atTerminator delimiters (rest.drop length) = true := by
  generalize hkind : ItemKind.keyword word = kind at hlexes
  cases hlexes with
  | variableName hname =>
    subst hkind
    rcases signedName_eq_ok_iff.mp hname with ⟨-, habsurd, -⟩ | ⟨-, hname⟩
    · cases habsurd
    · cases (nameLexeme_eq_ok_iff.mp hname).1
  | field _ hname =>
    subst hkind
    rcases signedName_eq_ok_iff.mp hname with ⟨-, hdot, -⟩ | ⟨-, hname⟩
    · cases hdot
      exact absurd rfl hword
    · cases (nameLexeme_eq_ok_iff.mp hname).1
  | number _ hnumber =>
    rw [kind_of_numberLexeme hnumber] at hkind
    cases hkind
  | word _ _ hname =>
    subst hkind
    obtain ⟨hnamed, hlength, hend⟩ := nameLexeme_eq_ok_iff.mp hname
    refine ⟨?_, hlength, hend⟩
    unfold wordKind at hnamed
    split at hnamed
    next heq =>
      cases hnamed
      exact heq
    next => split at hnamed <;> cases hnamed
  | _ => cases hkind

/-- Behind a word the action goes on, and a name may end. -/
theorem Scans.of_word {depth : Nat} {text : List Char} {word : Keyword} (hword : word ≠ .dot)
    {pieces : List Piece}
    (hscans : Scans delimiters (.inside depth) text (wordPiece word :: pieces) none) :
    atTerminator delimiters (texts delimiters pieces) = true ∧
      Scans delimiters (.inside depth) (texts delimiters pieces) pieces none := by
  obtain ⟨deeper, c, more, hdepth, -, hlexes, -, hinside⟩ := hscans.of_item
  have hdeeper : deeper = depth := by simpa [nextDepth, eq_comm] using hdepth
  subst hdeeper
  have hend := (hlexes.of_keyword hword).2.2
  rw [List.drop_left] at hend
  exact ⟨hend, hinside⟩

/-! ### Blanks -/

theorem texts_spacePieces (text : List Char) : texts delimiters (spacePieces text) = text := by
  unfold spacePieces
  split <;> simp_all [Piece.text]

/-- Behind a run of blanks in an action stands something else: no blank, unless it is that of a
trim marker, and no dash. -/
def EndsSpaces (delimiters : Delimiters) (text : List Char) : Prop :=
  (∃ c rest, text = c :: rest ∧ isBlank c = false ∧ c ≠ '-') ∨
    ∃ blank rest, text = blank :: '-' :: (delimiters.right.toList ++ rest) ∧ isBlank blank = true

/-- A run of blanks is as long as there are blanks before what ends it. -/
theorem spaceLength_append_of_endsSpaces {blanks text : List Char}
    (hblanks : ∀ c ∈ blanks, isBlank c = true) (htext : EndsSpaces delimiters text) :
    spaceLength delimiters (blanks ++ text) = blanks.length := by
  obtain ⟨c, rest, rfl, hblank, hdash⟩ | ⟨blank, rest, rfl, hblank⟩ := htext
  · have htake : (blanks ++ c :: rest).takeWhile isBlank = blanks := by
      rw [List.takeWhile_append_of_pos hblanks, List.takeWhile_cons_of_neg (by simp [hblank]),
        List.append_nil]
    simp [spaceLength, htake, hdash]
  · have htake : (blanks ++ blank :: '-' :: (delimiters.right.toList ++ rest)).takeWhile isBlank =
        blanks ++ [blank] := by
      rw [List.takeWhile_append_of_pos hblanks, List.takeWhile_cons_of_pos hblank,
        List.takeWhile_cons_of_neg (by decide)]
    simp [spaceLength, htake, List.isPrefixOf_iff_prefix]

/-- Blanks are read in front of what ends a run of them. -/
theorem Scans.cons_spaces (hpunctual : delimiters.Punctual) {blanks : List Char}
    (hblanks : ∀ c ∈ blanks, isBlank c = true) {depth : Nat} {pieces : List Piece}
    (hends : EndsSpaces delimiters (texts delimiters pieces))
    (hscans : Scans delimiters (.inside depth) (texts delimiters pieces) pieces none) :
    Scans delimiters (.inside depth) (texts delimiters (spacePieces blanks ++ pieces))
      (spacePieces blanks ++ pieces) none := by
  cases blanks with
  | nil => exact hscans
  | cons c rest =>
    obtain ⟨hc, hrest⟩ := List.forall_mem_cons.mp hblanks
    have hdash : (rest ++ texts delimiters pieces).head? ≠ some '-' := by
      cases rest with
      | nil =>
        obtain ⟨d, more, heq, -, hne⟩ | ⟨blank, more, heq, hblank⟩ := hends
        · simpa [heq] using hne
        · rw [heq]
          rintro ⟨⟩
          cases hblank
      | cons d more =>
        rintro ⟨⟩
        cases hrest '-' List.mem_cons_self
    have hclosing := closing?_cons hpunctual (not_mem_punctuation_of_isBlank hc) (.inr hdash)
    have hlexeme : lexeme delimiters c (rest ++ texts delimiters pieces) =
        .ok (.space, rest.length) := by
      refine lexeme_of_lexes ?_
      rw [← spaceLength_append_of_endsSpaces hrest hends]
      exact .space hc
    exact .item hclosing hlexeme (by simp [nextDepth]) hscans

/-- A name may end in front of blanks. -/
theorem atTerminator_spacePieces {blanks : List Char} (hblanks : ∀ c ∈ blanks, isBlank c = true)
    (hne : blanks ≠ []) (pieces : List Piece) :
    atTerminator delimiters (texts delimiters (spacePieces blanks ++ pieces)) = true := by
  cases blanks with
  | nil => exact absurd rfl hne
  | cons c rest =>
    rw [texts_append, texts_spacePieces, List.cons_append]
    simp [atTerminator, hblanks c List.mem_cons_self]

/-- A name may end in front of a right delimiter. -/
theorem atTerminator_closing (delimiters : Delimiters) {marker : Option Char}
    (hmarker : ∀ c ∈ marker, isBlank c = true) (text : List Char) :
    atTerminator delimiters (rightMarker marker ++ (delimiters.right.toList ++ text)) = true := by
  cases marker with
  | none =>
    have hprefix : delimiters.right.toList.isPrefixOf (delimiters.right.toList ++ text) = true := by
      simp [List.isPrefixOf_iff_prefix]
    change atTerminator delimiters (delimiters.right.toList ++ text) = true
    obtain ⟨mark, rest, hright⟩ := List.exists_cons_of_length_pos delimiters.right_length_pos
    rw [hright] at hprefix
    simp only [List.cons_append] at hprefix
    rw [hright, List.cons_append]
    simp [atTerminator, hright, hprefix]
  | some blank =>
    change atTerminator delimiters (blank :: _) = true
    simp [atTerminator, hmarker blank rfl]

/-- A right delimiter ends a run of blanks. -/
theorem endsSpaces_closing (hpunctual : delimiters.Punctual) {marker : Option Char}
    (hmarker : ∀ c ∈ marker, isBlank c = true) (text : List Char) :
    EndsSpaces delimiters (rightMarker marker ++ (delimiters.right.toList ++ text)) := by
  cases marker with
  | none =>
    obtain ⟨mark, rest, hright, -, hmark⟩ := exists_right_eq hpunctual
    have hspec := punctuation_spec hmark
    exact .inl ⟨mark, rest ++ text, by rw [hright]; rfl, hspec.1, hspec.2.2.2.2.1⟩
  | some blank => exact .inr ⟨blank, text, rfl, hmarker blank rfl⟩

/-- A word ends a run of blanks. -/
theorem endsSpaces_word {word : Keyword} (hword : word ≠ .dot) (pieces : List Piece) :
    EndsSpaces delimiters (texts delimiters (wordPiece word :: pieces)) := by
  obtain ⟨c, value, hspelling, -, hnamed⟩ := spelling_eq hword
  have hname := hnamed c List.mem_cons_self
  refine .inl ⟨c, value ++ texts delimiters pieces, ?_, isBlank_of_isNameChar hname,
    ne_of_isNameChar hname (by decide)⟩
  rw [texts_cons, wordPiece, Piece.text, hspelling, List.cons_append]

/-- A run of blanks holds blanks alone. -/
theorem spaceLength_le_takeWhile (delimiters : Delimiters) (text : List Char) :
    spaceLength delimiters text ≤ (text.takeWhile isBlank).length := by
  simp only [spaceLength]
  split
  · split <;> omega
  · exact le_rfl

/-- Behind blanks the action goes on. -/
theorem Scans.of_spaces {depth : Nat} {text blanks : List Char} {pieces : List Piece}
    (hscans : Scans delimiters (.inside depth) text (spacePieces blanks ++ pieces) none) :
    (∀ c ∈ blanks, isBlank c = true) ∧
      Scans delimiters (.inside depth) (texts delimiters pieces) pieces none := by
  unfold spacePieces at hscans
  split at hscans
  next hnil =>
    refine ⟨by simp [hnil], ?_⟩
    obtain ⟨unread, htext, hunread⟩ := hscans.text_eq
    rw [hunread rfl, List.append_nil] at htext
    exact htext ▸ hscans
  next =>
    obtain ⟨deeper, c, more, hdepth, rfl, hlexes, -, hinside⟩ := hscans.of_item
    have hdeeper : deeper = depth := by simpa [nextDepth, eq_comm] using hdepth
    subst hdeeper
    refine ⟨?_, hinside⟩
    obtain ⟨hc, hlength⟩ := hlexes.of_space
    refine List.forall_mem_cons.mpr ⟨hc, fun d hd ↦ ?_⟩
    have hstart := List.prefix_of_prefix_length_le (List.prefix_append more _)
      (List.takeWhile_prefix isBlank) (hlength.trans_le (spaceLength_le_takeWhile _ _))
    exact List.mem_takeWhile_imp (hstart.subset hd)

/-! ### Two actions in a row -/

/-- A text that starts with a blank or a word starts no comment and has no trim marker. -/
theorem opens_word (delimiters : Delimiters) {word : Keyword} (hword : word ≠ .dot)
    {lead : List Char} (hlead : ∀ c ∈ lead, isBlank c = true) (pieces : List Piece) :
    markerBlank? (texts delimiters (spacePieces lead ++ wordPiece word :: pieces)) = none ∧
      ¬ ['/', '*'] <+: texts delimiters (spacePieces lead ++ wordPiece word :: pieces) := by
  have hhead : ∃ c rest, texts delimiters (spacePieces lead ++ wordPiece word :: pieces) =
      c :: rest ∧ c ≠ '-' ∧ c ≠ '/' := by
    rw [texts_append, texts_spacePieces]
    cases lead with
    | nil =>
      obtain ⟨c, value, hspelling, -, hnamed⟩ := spelling_eq hword
      have hname := hnamed c List.mem_cons_self
      refine ⟨c, value ++ texts delimiters pieces, ?_, ne_of_isNameChar hname (by decide),
        ne_of_isNameChar hname (by decide)⟩
      rw [List.nil_append, texts_cons, wordPiece, Piece.text, hspelling, List.cons_append]
    | cons c rest =>
      have hblank := hlead c List.mem_cons_self
      refine ⟨c, _, rfl, ?_, ?_⟩ <;> rintro rfl <;> cases hblank
  obtain ⟨c, rest, htext, hdash, hslash⟩ := hhead
  rw [htext]
  constructor
  · unfold markerBlank?
    split
    next heq => exact absurd (List.cons.inj heq).1 hdash
    next => rfl
  · exact fun hcomment ↦ hslash (List.cons_prefix_cons.mp hcomment).1.symm

/-- The start of an action is read behind blanks that its trim marker takes away. -/
theorem Scans.cons_opening (hpunctual : delimiters.Punctual) {blanks : List Char}
    (hblanks : ∀ c ∈ blanks, isBlank c = true) {marker : Option Char}
    (hmarker : ∀ c ∈ marker, isBlank c = true) (hunmarked : marker = none → blanks = [])
    {pieces : List Piece} (hbody : markerBlank? (texts delimiters pieces) = none)
    (hcomment : ¬ ['/', '*'] <+: texts delimiters pieces)
    (hscans : Scans delimiters (.inside 0) (texts delimiters pieces) pieces none) :
    Scans delimiters .outside (texts delimiters (blankPieces blanks ++ .opening marker :: pieces))
      (blankPieces blanks ++ .opening marker :: pieces) none := by
  have hopens : Opens delimiters
      (texts delimiters (blankPieces blanks ++ .opening marker :: pieces))
      ⟨[], blanks, marker, texts delimiters pieces⟩ :=
    ⟨by simp [Piece.text], by
      simpa [Piece.text] using findPattern_left_eq_some (freeOf_of_blanks hpunctual hblanks).left
        (leftMarker marker ++ texts delimiters pieces), hblanks,
      fun hnone ↦ ⟨hunmarked hnone, hbody⟩, fun blank hsome ↦ ⟨hmarker blank hsome, rfl⟩⟩
  exact .action hopens hcomment hscans

/-- The end of an action is read in front of blanks that its trim marker takes away. -/
theorem Scans.cons_closing (hpunctual : delimiters.Punctual) {blanks : List Char}
    (hblanks : ∀ c ∈ blanks, isBlank c = true) {marker : Option Char}
    (hmarker : ∀ c ∈ marker, isBlank c = true) (hunmarked : marker = none → blanks = [])
    {pieces : List Piece} (hstart : marker ≠ none → startsBlank (texts delimiters pieces) = false)
    (hscans : Scans delimiters .outside (texts delimiters pieces) pieces none) :
    Scans delimiters (.inside 0)
      (texts delimiters (.closing marker :: (blankPieces blanks ++ pieces)))
      (.closing marker :: (blankPieces blanks ++ pieces)) none := by
  have hfree : FreeOf delimiters (rightMarker marker) := by
    intro c hc hmark
    have hspec := punctuation_spec (hpunctual c hmark)
    cases marker with
    | none => cases hc
    | some blank =>
      rw [rightMarker, List.mem_cons, List.mem_singleton] at hc
      rcases hc with rfl | rfl
      · rw [hmarker c rfl] at hspec
        cases hspec.1
      · exact hspec.2.2.2.2.1 rfl
  have hclosing : closing? delimiters (rightMarker marker ++ (delimiters.right.toList ++
      (blanks ++ texts delimiters pieces))) = some marker.isSome := by
    rw [closing?_right hpunctual hfree]
    cases marker with
    | none => rfl
    | some blank => simp [rightMarker, startsWithRightMarker, trimMarkerLength, hmarker blank rfl]
  have hcloses : Closes delimiters
      (texts delimiters (.closing marker :: (blankPieces blanks ++ pieces)))
      ⟨marker, blanks, texts delimiters pieces⟩ :=
    ⟨by simp [Piece.text], by simpa [Piece.text] using hclosing, hblanks, hunmarked,
      fun blank hsome ↦ ⟨hmarker blank hsome, hstart (hsome.trans_ne (Option.some_ne_none blank))⟩⟩
  exact .close hcloses hscans

/-- The words of two actions in a row are read where the second of them is. -/
theorem Scans.cons_joint (hpunctual : delimiters.Punctual) {joint : Joint}
    (hjoint : joint.IsBlank) {word : Keyword} (hword : word ≠ .dot) {pieces : List Piece}
    (hscans : Scans delimiters (.inside 0) (texts delimiters (wordPiece word :: pieces))
      (wordPiece word :: pieces) none) :
    atTerminator delimiters (texts delimiters (joint.pieces ++ wordPiece word :: pieces)) = true ∧
      Scans delimiters (.inside 0) (texts delimiters (joint.pieces ++ wordPiece word :: pieces))
        (joint.pieces ++ wordPiece word :: pieces) none := by
  obtain ⟨hbody, hcomment⟩ := opens_word delimiters hword hjoint.after pieces
  have hinside := hscans.cons_spaces hpunctual hjoint.after (endsSpaces_word hword pieces)
  -- the blanks between the actions belong to the trim marker that takes them away
  have hclosed : Scans delimiters (.inside 0)
      (texts delimiters (.closing joint.closing :: (blankPieces joint.blanks ++
        .opening joint.opening :: (spacePieces joint.after ++ wordPiece word :: pieces))))
      (.closing joint.closing :: (blankPieces joint.blanks ++
        .opening joint.opening :: (spacePieces joint.after ++ wordPiece word :: pieces))) none := by
    cases hclosing : joint.closing with
    | none =>
      have houtside := hinside.cons_opening hpunctual hjoint.blanks hjoint.opening
        (hjoint.trimmed hclosing) hbody hcomment
      exact @Scans.cons_closing _ hpunctual [] (by simp) none (by simp) (fun _ ↦ rfl) _
        (fun hne ↦ absurd rfl hne) houtside
    | some blank =>
      have houtside := @Scans.cons_opening _ hpunctual [] (by simp) _ hjoint.opening
        (fun _ ↦ rfl) _ hbody hcomment hinside
      have hmarker : ∀ c ∈ some blank, isBlank c = true := hclosing ▸ hjoint.closing
      refine houtside.cons_closing hpunctual hjoint.blanks hmarker (by simp) fun _ ↦ ?_
      obtain ⟨mark, rest, hleft, -, hmark⟩ := exists_left_eq hpunctual
      simp [Piece.text, hleft, startsBlank, (punctuation_spec hmark).1]
  have hsplit : joint.pieces ++ wordPiece word :: pieces = spacePieces joint.before ++
      (.closing joint.closing :: (blankPieces joint.blanks ++
        .opening joint.opening :: (spacePieces joint.after ++ wordPiece word :: pieces))) := by
    simp [Joint.pieces]
  rw [hsplit]
  constructor
  · by_cases hbefore : joint.before = []
    · rw [hbefore, spacePieces, if_pos rfl, List.nil_append, texts_cons, Piece.text,
        List.append_assoc]
      exact atTerminator_closing delimiters hjoint.closing _
    · exact atTerminator_spacePieces hjoint.before hbefore _
  · refine hclosed.cons_spaces hpunctual hjoint.before ?_
    rw [texts_cons, Piece.text, List.append_assoc]
    exact endsSpaces_closing hpunctual hjoint.closing _

/-- Whether a piece may stand before the first left delimiter of a text. -/
def Piece.isFiller : Piece → Bool
  | item .. | blanks _ => true
  | _ => false

theorem isFiller_blankPieces (text : List Char) : ∀ piece ∈ blankPieces text, piece.isFiller := by
  unfold blankPieces
  split <;> simp [Piece.isFiller]

theorem isFiller_headPieces (head : Head) : ∀ piece ∈ head.pieces, piece.isFiller := by
  intro piece hpiece
  rcases List.mem_append.mp hpiece with htext | hblanks
  · unfold textPieces at htext
    split at htext <;> simp_all [Piece.isFiller]
  · exact isFiller_blankPieces _ piece hblanks

/-- Behind the first left delimiter of a text stands what the action holds. -/
theorem Scans.of_opening {text : List Char} {pieces rest : List Piece} {marker : Option Char}
    (hscans : Scans delimiters .outside text pieces none)
    (hopening : pieces.dropWhile Piece.isFiller = .opening marker :: rest) :
    Scans delimiters (.inside 0) (texts delimiters rest) rest none := by
  cases hscans with
  | @plain text =>
    have hfiller : ∀ piece ∈ textPieces text, piece.isFiller := by
      unfold textPieces
      split <;> simp [Piece.isFiller]
    rw [List.dropWhile_eq_nil_iff.mpr hfiller] at hopening
    cases hopening
  | @action text head pieces _ _ _ hinside =>
    rw [List.dropWhile_append_of_pos (isFiller_headPieces head)] at hopening
    obtain ⟨-, rfl⟩ := List.cons.inj hopening
    obtain ⟨unread, hbody, hunread⟩ := hinside.text_eq
    rw [hunread rfl, List.append_nil] at hbody
    exact hbody ▸ hinside
  | @comment _ _ head =>
    rw [List.dropWhile_append_of_pos (isFiller_headPieces head)] at hopening
    cases hopening

/-- Behind a right delimiter stand the blanks that its trim marker takes away and what follows. -/
theorem Scans.of_closing {depth : Nat} {text : List Char} {marker : Option Char}
    {pieces : List Piece}
    (hscans : Scans delimiters (.inside depth) text (.closing marker :: pieces) none) :
    ∃ blanks others, pieces = blankPieces blanks ++ others ∧
      Scans delimiters .outside (texts delimiters others) others none := by
  cases hscans with
  | @close _ tail others _ _ houtside =>
    obtain ⟨unread, hrest, hunread⟩ := houtside.text_eq
    rw [hunread rfl, List.append_nil] at hrest
    exact ⟨tail.blanks, others, rfl, hrest ▸ houtside⟩

/-- Behind two actions in a row the second one goes on. -/
theorem Scans.of_joint {depth : Nat} {text : List Char} {joint : Joint} {pieces : List Piece}
    (hscans : Scans delimiters (.inside depth) text (joint.pieces ++ pieces) none) :
    Scans delimiters (.inside 0) (texts delimiters pieces) pieces none := by
  have hsplit : joint.pieces ++ pieces = spacePieces joint.before ++
      (.closing joint.closing :: (blankPieces joint.blanks ++
        .opening joint.opening :: (spacePieces joint.after ++ pieces))) := by
    simp [Joint.pieces]
  rw [hsplit] at hscans
  obtain ⟨blanks, others, heq, houtside⟩ := hscans.of_spaces.2.of_closing
  have hbehind := congrArg (List.dropWhile Piece.isFiller) heq
  rw [List.dropWhile_append_of_pos (isFiller_blankPieces _),
    List.dropWhile_append_of_pos (isFiller_blankPieces _)] at hbehind
  exact (houtside.of_opening hbehind.symm).of_spaces.2

end Stencil.Syntax
