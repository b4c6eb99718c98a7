import Stencil.Proofs.Lexing.Lossless
import Stencil.Proofs.Lexing.Punctuation
import Stencil.Proofs.Reparsing.Lexemes

/-!
# Sources one after the other

A source that ends with the right delimiter of an action (`EndsAction`) may be followed by another
one: the scan of both is that of the first and then that of the second (`Scans.append`), so the
items of both are those of the first without its end, and those of the second behind it
(`lex_append`).

Inside the first source the lexer looks ahead at most to the end of the action it is in. There the
right delimiter still stands in full, and it holds neither a blank nor a dash, so what is appended
is not looked at: not by `closing?`, not by `atTerminator`, and by no lexeme (`lexeme_append`).
There is one exception. If the right delimiter is a slash and stands right behind a left delimiter,
an asterisk makes the two the start of a comment (`StartsComment`).
-/

set_option autoImplicit false
set_option relaxedAutoImplicit false

namespace Stencil.Syntax

/-! ### Behind a text -/

/-- A position of a source once a text is put in front of the source. -/
def Position.behind (text : String) (position : Position) : Position :=
  ⟨text.utf8ByteSize + position.offset, text.toList.count '\n' + position.line⟩

/-- An item of a source once a text is put in front of the source. -/
def Item.behind (text : String) (item : Item) : Item :=
  { item with position := item.position.behind text }

section Behind

variable {delimiters : Delimiters} {text : String}

theorem Position.advance_behind (position : Position) (read : List Char) :
    (position.behind text).advance read = (position.advance read).behind text := by
  have hoffset : ((position.behind text).advance read).offset =
      ((position.advance read).behind text).offset := by
    rw [Position.advance_offset]
    change _ = _ + (position.advance read).offset
    rw [Position.advance_offset, ← Nat.add_assoc]
    rfl
  have hline : ((position.behind text).advance read).line =
      ((position.advance read).behind text).line := by
    rw [Position.advance_line]
    change _ = _ + (position.advance read).line
    rw [Position.advance_line, ← Nat.add_assoc]
    rfl
  cases hread : (position.behind text).advance read
  rw [hread] at hoffset hline
  exact congrArg₂ Position.mk hoffset hline

/-- A source starts behind a text where reading the text ends. -/
theorem Position.behind_start (text : String) :
    ({} : Position).behind text = ({} : Position).advance text.toList := by
  have hoffset := Position.advance_offset {} text.toList
  have hline := Position.advance_line {} text.toList
  cases hread : ({} : Position).advance text.toList
  rw [hread] at hoffset hline
  simp only [String.ofList_toList, Nat.zero_add] at hoffset hline
  rw [hoffset, hline, Nat.add_comm 1]
  rfl

theorem Piece.item?_behind (position : Position) (piece : Piece) :
    piece.item? delimiters (position.behind text) =
      (piece.item? delimiters position).map (Item.behind text) := by
  cases piece with
  | closing marker | comment left content right =>
    simp only [Piece.item?, Position.advance_behind]
    rfl
  | _ => rfl

theorem itemsOf_behind (position : Position) (pieces : List Piece) :
    itemsOf delimiters (position.behind text) pieces =
      (itemsOf delimiters position pieces).map (Item.behind text) := by
  induction pieces generalizing position with
  | nil => rfl
  | cons piece rest ih =>
    rw [itemsOf, itemsOf, Piece.item?_behind, Position.advance_behind, ih, List.map_append]
    cases piece.item? delimiters position <;> rfl

/-- The items of a scan behind a text. -/
theorem Scan.items_behind (position : Position) (scan : Scan) :
    scan.items delimiters (position.behind text) =
      (scan.items delimiters position).map (Item.behind text) := by
  rw [Scan.items, Scan.items, itemsOf_behind, Position.advance_behind, List.map_append]
  cases scan.fault <;> rfl

end Behind

/-! ### Delimiters without blanks and dashes -/

/-- That no character of delimiters is a blank or a dash. -/
def Delimiters.Compact (delimiters : Delimiters) : Prop :=
  ∀ c ∈ delimiters.chars, isBlank c = false ∧ c ≠ '-'

instance (delimiters : Delimiters) : Decidable delimiters.Compact :=
  List.decidableBAll (fun c ↦ isBlank c = false ∧ c ≠ '-') delimiters.chars

section Append

variable {delimiters : Delimiters} {text : List Char}

theorem Delimiters.Compact.right (hcompact : delimiters.Compact) {c : Char}
    (hc : c ∈ delimiters.right.toList) : isBlank c = false ∧ c ≠ '-' :=
  hcompact c (List.mem_append_right _ hc)

/-- A text that ends with the right delimiter is not empty. -/
theorem ne_nil_of_right_suffix (hright : delimiters.right.toList <:+ text) : text ≠ [] := by
  rintro rfl
  have hlength := hright.length_le
  have hpos := delimiters.right_length_pos
  rw [List.length_nil] at hlength
  omega

/-- Behind a character that the right delimiter does not hold, it stands in full. -/
theorem right_suffix_of_cons {c : Char} {rest : List Char} (hc : c ∉ delimiters.right.toList)
    (hright : delimiters.right.toList <:+ c :: rest) : delimiters.right.toList <:+ rest := by
  rcases List.suffix_cons_iff.mp hright with heq | hrest
  · exact absurd (heq ▸ List.mem_cons_self) hc
  · exact hrest

/-- Behind characters that the right delimiter does not hold, it stands in full. -/
theorem right_suffix_of_append {before after : List Char} {c : Char}
    (hc : c ∉ delimiters.right.toList)
    (hright : delimiters.right.toList <:+ before ++ c :: after) :
    delimiters.right.toList <:+ after := by
  have hafter : c :: after <:+ before ++ c :: after := List.suffix_append before (c :: after)
  rcases List.suffix_or_suffix_of_suffix hright hafter with hshort | hlong
  · exact right_suffix_of_cons hc hshort
  · exact absurd (hlong.subset List.mem_cons_self) hc

/-- Whether the right delimiter stands at the start of a text is not changed by what is appended. -/
theorem isPrefixOf_right_append (hright : delimiters.right.toList <:+ text) (more : List Char) :
    delimiters.right.toList.isPrefixOf (text ++ more) = delimiters.right.toList.isPrefixOf text :=
  isPrefixOf_append hright.length_le more

/-- A trim marker is seen only in front of the right delimiter. -/
theorem startsWithRightMarker_append (hcompact : delimiters.Compact)
    (hright : delimiters.right.toList <:+ text) (more : List Char) :
    startsWithRightMarker (text ++ more) = startsWithRightMarker text := by
  match text with
  | [] => exact absurd rfl (ne_nil_of_right_suffix hright)
  | [c] =>
    have hmem : c ∈ delimiters.right.toList := by
      have hpos := List.length_pos_iff.mp delimiters.right_length_pos
      rcases List.suffix_cons_iff.mp hright with heq | hnil
      · exact heq ▸ List.mem_cons_self
      · exact absurd (List.suffix_nil.mp hnil) hpos
    rw [List.singleton_append, startsWithRightMarker_cons, startsWithRightMarker_cons,
      (hcompact.right hmem).1]
    rfl
  | c :: d :: rest =>
    rw [List.cons_append, List.cons_append, startsWithRightMarker_cons, startsWithRightMarker_cons]
    rfl

/-- Whether a right delimiter starts a text is not changed by what is appended. -/
theorem closing?_append (hcompact : delimiters.Compact)
    (hright : delimiters.right.toList <:+ text) (more : List Char) :
    closing? delimiters (text ++ more) = closing? delimiters text := by
  unfold closing?
  rw [startsWithRightMarker_append hcompact hright, isPrefixOf_right_append hright]
  cases hmarker : startsWithRightMarker text with
  | false => rfl
  | true =>
    obtain ⟨blank, _, htext⟩ := eq_of_startsWithRightMarker hmarker
    have hdash : '-' ∉ delimiters.right.toList := fun hmem ↦ (hcompact.right hmem).2 rfl
    have hdrop : delimiters.right.toList <:+ text.drop trimMarkerLength := by
      rw [htext] at hright
      have hmarked : delimiters.right.toList <:+ [blank] ++ '-' :: text.drop trimMarkerLength :=
        hright
      exact right_suffix_of_append hdash hmarked
    have hlength : trimMarkerLength ≤ text.length := by
      rw [htext]
      simp [trimMarkerLength]
    rw [List.drop_append_of_le_length hlength, isPrefixOf_right_append hdrop]

/-- A trim marker after a left delimiter is not one that is completed by what is appended. -/
theorem markerBlank?_append (hcompact : delimiters.Compact)
    (hright : delimiters.right.toList <:+ text) (more : List Char) :
    markerBlank? (text ++ more) = markerBlank? text := by
  match text with
  | [] => exact absurd rfl (ne_nil_of_right_suffix hright)
  | [c] =>
    have hc : c ≠ '-' := by
      rintro rfl
      have hdash : '-' ∉ delimiters.right.toList := fun hmem ↦ (hcompact.right hmem).2 rfl
      exact ne_nil_of_right_suffix (right_suffix_of_cons hdash hright) rfl
    simp [markerBlank?, hc]
  | c :: d :: rest => by_cases hc : c = '-' <;> simp [markerBlank?, hc]

/-- The parts of a text around its first left delimiter stay the same when something is appended. -/
theorem Opens.append (hcompact : delimiters.Compact) {head : Head}
    (hopens : Opens delimiters text head) (hright : delimiters.right.toList <:+ head.body)
    (more : List Char) :
    Opens delimiters (text ++ more) { head with body := head.body ++ more } where
  text_eq := by
    conv_lhs => rw [hopens.text_eq]
    simp only [List.append_assoc]
  first := by
    have hfirst := hopens.first
    rw [← List.append_nil text] at hfirst
    refine findPattern_append more hfirst ?_
    conv_rhs => rw [hopens.text_eq]
    simp only [List.length_append]
    omega
  blanks := hopens.blanks
  unmarked := fun hmarker ↦ by
    rw [markerBlank?_append hcompact hright]
    exact hopens.unmarked hmarker
  marked := hopens.marked

/-- The parts of a text after a right delimiter stay the same when something is appended. -/
theorem Closes.append (hcompact : delimiters.Compact) {tail : Tail}
    (hcloses : Closes delimiters text tail) (hright : delimiters.right.toList <:+ tail.rest)
    (more : List Char) :
    Closes delimiters (text ++ more) { tail with rest := tail.rest ++ more } where
  text_eq := by
    conv_lhs => rw [hcloses.text_eq]
    simp only [List.append_assoc]
  closing := by
    have htext : delimiters.right.toList <:+ text := by
      refine hright.trans ?_
      conv_rhs => rw [hcloses.text_eq]
      simp only [← List.append_assoc]
      exact List.suffix_append _ _
    rw [closing?_append hcompact htext]
    exact hcloses.closing
  blanks := hcloses.blanks
  unmarked := hcloses.unmarked
  marked := fun blank hmarker ↦ by
    rw [startsBlank_append (ne_nil_of_right_suffix hright)]
    exact hcloses.marked blank hmarker

/-- What stands behind a right delimiter without a trim marker is all that follows it. -/
theorem closes_right (hcompact : delimiters.Compact) (more : List Char) :
    Closes delimiters (delimiters.right.toList ++ more) ⟨none, [], more⟩ where
  text_eq := rfl
  closing := by
    obtain ⟨mark, tail, hright⟩ := List.exists_cons_of_length_pos delimiters.right_length_pos
    have hblank := (hcompact.right (hright ▸ List.mem_cons_self (a := mark))).1
    have hprefix : delimiters.right.toList.isPrefixOf (delimiters.right.toList ++ more) = true := by
      simp [List.isPrefixOf_iff_prefix]
    have hmarker : startsWithRightMarker (delimiters.right.toList ++ more) = false := by
      rw [hright, List.cons_append, startsWithRightMarker_cons, hblank]
      rfl
    rw [closing?, hmarker, hprefix]
    rfl
  blanks := by simp
  unmarked := fun _ ↦ rfl
  marked := nofun

/-- What is appended starts no comment unless it completes the mark of one. -/
theorem comment_prefix_append (hne : text ≠ []) {more : List Char}
    (hcomment : text = ['/'] → more.head? ≠ some '*') :
    ['/', '*'] <+: text ++ more ↔ ['/', '*'] <+: text := by
  match text with
  | [] => exact absurd rfl hne
  | [c] =>
    cases more with
    | nil => rw [List.append_nil]
    | cons d more =>
      simp only [List.singleton_append, List.cons_prefix_cons, List.nil_prefix, and_true,
        List.prefix_nil, List.cons_ne_self, and_false, iff_false, not_and]
      rintro rfl rfl
      exact hcomment rfl rfl
  | c :: d :: rest => simp [List.cons_prefix_cons]

/-! ### Lexemes -/

/-- A run of characters that stops inside of a text stops there when something is appended. -/
theorem takeWhile_append_of_lt {p : Char → Bool}
    (hlt : (text.takeWhile p).length < text.length) (more : List Char) :
    (text ++ more).takeWhile p = text.takeWhile p := by
  rw [List.takeWhile_append, if_neg (by omega)]

/-- Whether a name may end is not changed by what is appended. -/
theorem atTerminator_append (hright : delimiters.right.toList <:+ text) (more : List Char) :
    atTerminator delimiters (text ++ more) = atTerminator delimiters text := by
  have hprefix := isPrefixOf_right_append hright more
  cases text with
  | nil => exact absurd rfl (ne_nil_of_right_suffix hright)
  | cons c rest =>
    rw [List.cons_append] at hprefix ⊢
    simp only [atTerminator, hprefix]

/-- A part of a text in front of one that ends with the right delimiter. -/
theorem right_suffix_append {rest : List Char} (hright : delimiters.right.toList <:+ rest)
    (value : List Char) : delimiters.right.toList <:+ value ++ rest :=
  hright.trans (List.suffix_append value rest)

section Lexemes

variable {value rest : List Char} {kind : ItemKind}

/-- A part of a text that is followed by the right delimiter is shorter than the text. -/
theorem length_lt_of_right_suffix (hright : delimiters.right.toList <:+ rest) :
    value.length < (value ++ rest).length := by
  have hpos := List.length_pos_iff.mpr (ne_nil_of_right_suffix hright)
  rw [List.length_append]
  omega

theorem nameLexeme_append (hright : delimiters.right.toList <:+ rest) (more : List Char)
    {named : ItemKind}
    (hname : nameLexeme delimiters named (value ++ rest) = .ok (kind, value.length)) :
    (value ++ rest ++ more).takeWhile isNameChar = (value ++ rest).takeWhile isNameChar ∧
      nameLexeme delimiters named (value ++ rest ++ more) = .ok (kind, value.length) := by
  rw [nameLexeme_eq_ok_iff] at hname ⊢
  obtain ⟨hkind, hlength, hend⟩ := hname
  have hlt : ((value ++ rest).takeWhile isNameChar).length < (value ++ rest).length := by
    rw [hlength]
    exact length_lt_of_right_suffix hright
  have htake := takeWhile_append_of_lt hlt more
  refine ⟨htake, hkind, htake ▸ hlength, ?_⟩
  rw [List.drop_left] at hend
  rw [List.append_assoc, List.drop_left, atTerminator_append hright]
  exact hend

theorem signedName_append (hright : delimiters.right.toList <:+ rest) (more : List Char)
    {bare named : ItemKind}
    (hname : signedName delimiters bare named (value ++ rest) = .ok (kind, value.length)) :
    signedName delimiters bare named (value ++ rest ++ more) = .ok (kind, value.length) := by
  rw [signedName_eq_ok_iff] at hname ⊢
  rw [atTerminator_append (right_suffix_append hright value)]
  exact hname.imp_right fun ⟨hstart, hname⟩ ↦ ⟨hstart, (nameLexeme_append hright more hname).2⟩

/-- A run of blanks ends in front of the right delimiter, or of the trim marker of one. -/
theorem spaceLength_append (hcompact : delimiters.Compact)
    (hright : delimiters.right.toList <:+ text) (more : List Char) :
    spaceLength delimiters (text ++ more) = spaceLength delimiters text := by
  have hlt : (text.takeWhile isBlank).length < text.length := by
    refine lt_of_le_of_ne (length_takeWhile_le isBlank text) fun hall ↦ ?_
    have heq := (List.takeWhile_prefix isBlank (l := text)).eq_of_length hall
    obtain ⟨mark, tail, hmark⟩ := List.exists_cons_of_length_pos delimiters.right_length_pos
    have hmem : mark ∈ delimiters.right.toList := hmark ▸ List.mem_cons_self
    have hblank := List.mem_takeWhile_imp (heq.symm ▸ hright.subset hmem)
    rw [(hcompact.right hmem).1] at hblank
    cases hblank
  simp only [spaceLength]
  rw [takeWhile_append_of_lt hlt, List.drop_append_of_le_length hlt.le]
  cases hdrop : text.drop (text.takeWhile isBlank).length with
  | nil =>
    rw [List.drop_eq_nil_iff] at hdrop
    omega
  | cons c after =>
    rw [List.cons_append]
    by_cases hc : c = '-'
    · subst hc
      have hdash : '-' ∉ delimiters.right.toList := fun hmem ↦ (hcompact.right hmem).2 rfl
      have hsplit : text.take (text.takeWhile isBlank).length ++ '-' :: after = text := by
        rw [← hdrop, List.take_append_drop]
      have hafter := right_suffix_of_append hdash (hsplit.symm ▸ hright)
      simp only [isPrefixOf_right_append hafter]
    · simp [hc]

/-! ### Numbers -/

/-- That a step leaves what it left before, and what is appended behind it, unless it left nothing.
-/
structure Resumes (step : List Char → List Char) : Prop where
  nil : step [] = []
  append : ∀ {text : List Char}, step text ≠ [] → ∀ more, step (text ++ more) = step text ++ more

theorem Resumes.comp {first second : List Char → List Char} (hfirst : Resumes first)
    (hsecond : Resumes second) : Resumes fun text ↦ second (first text) where
  nil := by rw [hfirst.nil, hsecond.nil]
  append := by
    intro text hne more
    have hleft : first text ≠ [] := fun hnil ↦ hne (by rw [hnil, hsecond.nil])
    rw [hfirst.append hleft, hsecond.append hne]

theorem resumes_dropWhile (p : Char → Bool) : Resumes (List.dropWhile p) where
  nil := rfl
  append := by
    intro text hne more
    rw [List.dropWhile_append, if_neg (by simpa using hne)]

theorem resumes_dropOne (accepted : List Char) : Resumes (dropOne accepted) where
  nil := rfl
  append := by
    intro text hne more
    cases text with
    | nil => exact absurd rfl hne
    | cons c rest =>
      simp only [List.cons_append, dropOne]
      split <;> rfl

theorem resumes_afterFraction (base : NumberBase) : Resumes (afterFraction base) where
  nil := rfl
  append := by
    intro text hne more
    cases text with
    | nil => exact absurd rfl hne
    | cons c rest =>
      by_cases hc : c = '.'
      · subst hc
        exact (resumes_dropWhile base.isDigit).append hne more
      · simp [afterFraction, hc]

theorem resumes_afterExponent (letters : List Char) : Resumes (afterExponent letters) where
  nil := rfl
  append := by
    intro text hne more
    have hdigits := (resumes_dropOne ['+', '-']).comp
      (resumes_dropWhile NumberBase.decimal.isDigit)
    cases text with
    | nil => exact absurd rfl hne
    | cons c rest =>
      simp only [List.cons_append, afterExponent] at hne ⊢
      by_cases hc : letters.contains c
      · rw [if_pos hc] at hne ⊢
        rw [if_pos hc]
        exact hdigits.append hne more
      · rw [if_neg hc, if_neg hc]
        rfl

theorem resumes_afterDigits (base : NumberBase) : Resumes (afterDigits base) := by
  have hfraction := (resumes_dropWhile base.isDigit).comp (resumes_afterFraction base)
  cases base with
  | decimal => exact hfraction.comp (resumes_afterExponent ['e', 'E'])
  | hexadecimal => exact hfraction.comp (resumes_afterExponent ['p', 'P'])
  | octal => exact hfraction
  | binary => exact hfraction

/-- The base of a number is told by its first two characters. -/
theorem numberBase_append (c d : Char) (rest more : List Char) :
    numberBase (c :: d :: rest ++ more) =
      ((numberBase (c :: d :: rest)).1, (numberBase (c :: d :: rest)).2 ++ more) := by
  by_cases hzero : c = '0'
  · subst hzero
    simp only [List.cons_append]
    unfold numberBase
    split <;> simp_all
  · simp [numberBase, hzero]

/-- A number that is followed by something is the same number when something is appended. -/
theorem resumes_afterNumber : Resumes afterNumber where
  nil := rfl
  append := by
    intro text hne more
    have hsign : dropOne ['+', '-'] text ≠ [] := by
      intro hnil
      rw [afterNumber_eq, hnil] at hne
      exact hne rfl
    rw [afterNumber_eq, afterNumber_eq, (resumes_dropOne _).append hsign]
    rw [afterNumber_eq] at hne
    match hdigits : dropOne ['+', '-'] text with
    | [] => exact absurd hdigits hsign
    | [c] =>
      -- nothing is left of a number that is one character
      have hbase : numberBase [c] = (.decimal, [c]) := by
        unfold numberBase
        split <;> simp_all
      rw [hdigits, hbase] at hne
      by_cases hzero : c = '0'
      · subst hzero
        exact absurd (by decide) hne
      · have hother : numberBase ([c] ++ more) = (.decimal, [c] ++ more) := by
          simp [numberBase, hzero]
        rw [hother, hbase]
        exact (resumes_afterDigits .decimal).append hne more
    | c :: d :: rest =>
      rw [hdigits] at hne
      rw [numberBase_append]
      exact (resumes_afterDigits _).append hne more

/-- A number ends where it ends whatever is appended behind the right delimiter. -/
theorem numberLexeme_append {c : Char} (hright : delimiters.right.toList <:+ rest)
    (more : List Char)
    (hnumber : numberLexeme c (value ++ rest) = .ok (kind, value.length)) :
    numberLexeme c (value ++ rest ++ more) = .ok (kind, value.length) := by
  have hkind := kind_of_numberLexeme hnumber
  subst hkind
  obtain ⟨_, hlength, hend⟩ := numberLexeme_eq_ok_iff.mp hnumber
  refine numberLexeme_eq_ok_iff.mpr ⟨rfl, ?_⟩
  rw [← List.cons_append]
  have hle := length_takeWhile_le isNumberChar (c :: (value ++ rest))
  rcases hle.lt_or_eq with hlt | hall
  · rw [takeWhile_append_of_lt hlt]
    exact ⟨hlength, hend⟩
  · -- the number could go on at the end of the text, but it has ended before
    have heq := (List.takeWhile_prefix isNumberChar (l := c :: (value ++ rest))).eq_of_length hall
    have hchars : ∀ d ∈ c :: (value ++ rest), isNumberChar d = true := by
      intro d hd
      rw [← heq] at hd
      exact List.mem_takeWhile_imp hd
    rw [heq] at hlength hend
    rw [List.takeWhile_append_of_pos hchars]
    have hne : afterNumber (c :: (value ++ rest)) ≠ [] := by
      intro hnil
      have hlt : value.length < (value ++ rest).length := length_lt_of_right_suffix hright
      rw [hnil, List.length_nil, List.length_cons] at hlength
      omega
    rw [resumes_afterNumber.append hne, List.length_append, List.length_append]
    refine ⟨by omega, ?_⟩
    obtain ⟨d, others, hcons⟩ := List.exists_cons_of_ne_nil hne
    rw [hcons] at hend ⊢
    exact hend

/-! ### All lexemes -/

/-- A lexeme in front of the right delimiter is the same lexeme when something is appended behind
the right delimiter. -/
theorem Lexes.append (hcompact : delimiters.Compact) {c : Char}
    (hright : delimiters.right.toList <:+ rest) (more : List Char)
    (hlexes : Lexes delimiters c (value ++ rest) kind value.length) :
    Lexes delimiters c (value ++ rest ++ more) kind value.length := by
  have hall := right_suffix_append hright value
  generalize htext : value ++ rest = text at hlexes hall
  generalize hlength : value.length = length at hlexes
  cases hlexes with
  | space hblank =>
    rw [← spaceLength_append hcompact hall more]
    exact .space hblank
  | assign => exact .assign
  | declare => exact .declare
  | bar => exact .bar
  | string hquoted =>
    rw [← htext, ← hlength] at hquoted
    rw [← htext, List.append_assoc]
    exact .string (hlength ▸ quotedLength_append _ (by decide) hquoted)
  | rawString hraw =>
    rw [← htext, ← hlength] at hraw
    rw [← htext, List.append_assoc]
    exact .rawString (hlength ▸ rawLength_append _ hraw)
  | variableName hname =>
    rw [← htext, ← hlength] at hname
    rw [← htext, ← hlength]
    exact .variableName (signedName_append hright more hname)
  | charConstant hquoted =>
    rw [← htext, ← hlength] at hquoted
    rw [← htext, List.append_assoc]
    exact .charConstant (hlength ▸ quotedLength_append _ (by decide) hquoted)
  | field hnext hname =>
    rw [← htext, ← hlength] at hname
    have hother := signedName_append hright more hname
    rw [htext, hlength] at hother
    exact .field hnext hother
  | number hstart hnumber =>
    rw [← htext, ← hlength] at hnumber
    rw [← htext] at hstart
    have hother := numberLexeme_append hright more hnumber
    rw [htext, hlength] at hother
    refine .number ?_ hother
    refine hstart.imp_left fun ⟨hdot, hdigit⟩ ↦ ⟨hdot, ?_⟩
    rw [htext] at hdigit
    obtain ⟨d, others, rfl⟩ := List.exists_cons_of_ne_nil (ne_nil_of_right_suffix hall)
    exact hdigit
  | word hc hdigit hname =>
    rw [← htext, ← hlength] at hname
    obtain ⟨htake, hother⟩ := nameLexeme_append hright more hname
    rw [← htext, ← hlength]
    refine .word hc hdigit ?_
    rw [htake]
    exact hother
  | leftParen => exact .leftParen
  | rightParen => exact .rightParen
  | mark hmark hblank hname hleader => exact .mark hmark hblank hname hleader

end Lexemes

/-! ### Scans -/

/-- The last piece of a row is one behind a piece that is another. -/
theorem getLast?_of_cons {before after : List Piece} {piece last : Piece} (hpiece : piece ≠ last)
    (hlast : (before ++ piece :: after).getLast? = some last) : after.getLast? = some last := by
  rw [List.getLast?_append, List.getLast?_cons, Option.some_or, Option.some.injEq] at hlast
  cases hafter : after.getLast? with
  | none =>
    rw [hafter] at hlast
    exact absurd hlast hpiece
  | some other =>
    rw [hafter] at hlast
    exact congrArg some hlast

/-- The last piece of a row that is not blanks is one behind blanks. -/
theorem getLast?_of_blankPieces {after : List Piece} {blanks : List Char} {last : Piece}
    (hblanks : ∀ blanks, .blanks blanks ≠ last)
    (hlast : (blankPieces blanks ++ after).getLast? = some last) : after.getLast? = some last := by
  unfold blankPieces at hlast
  split at hlast
  · exact hlast
  · have hall : ([] ++ Piece.blanks blanks :: after).getLast? = some last := hlast
    exact getLast?_of_cons (hblanks blanks) hall

section Scans

variable {mode : Mode} {pieces : List Piece}

/-- A text that is read up to the right delimiter of an action ends with the delimiter. -/
theorem Scans.right_suffix (hscans : Scans delimiters mode text pieces none)
    (hlast : pieces.getLast? = some (.closing none)) : delimiters.right.toList <:+ text := by
  obtain ⟨unread, htext, hnone⟩ := hscans.text_eq
  obtain ⟨before, rfl⟩ := List.getLast?_eq_some_iff.mp hlast
  rw [htext, hnone rfl, List.append_nil, texts_append, texts_cons, texts_nil, List.append_nil]
  exact List.suffix_append _ _

/-- What is read of a text that is the right delimiter alone is the delimiter. -/
theorem Scans.eq_closing (hscans : Scans delimiters mode delimiters.right.toList pieces none)
    (hlast : pieces.getLast? = some (.closing none)) : pieces = [.closing none] := by
  obtain ⟨unread, htext, hnone⟩ := hscans.text_eq
  obtain ⟨before, rfl⟩ := List.getLast?_eq_some_iff.mp hlast
  rw [hnone rfl, List.append_nil, texts_append, texts_cons, texts_nil, List.append_nil] at htext
  cases before with
  | nil => rfl
  | cons piece others =>
    have hpiece := List.length_pos_iff.mpr (hscans.text_ne_nil piece (by simp))
    have hlength := congrArg List.length htext
    rw [texts_cons, List.length_append, List.length_append] at hlength
    change _ = _ + delimiters.right.toList.length at hlength
    omega

/-- A right delimiter that is the last piece of a text is all of it, and no blanks follow it. -/
theorem Closes.eq_right {tail : Tail} (hcloses : Closes delimiters text tail)
    (houtside : Scans delimiters .outside tail.rest [] none)
    (hlast : (Piece.closing tail.marker :: blankPieces tail.blanks).getLast? =
      some (.closing none)) :
    tail.marker = none ∧ blankPieces tail.blanks = [] ∧ text = delimiters.right.toList := by
  have hmarker : tail.marker = none ∧ blankPieces tail.blanks = [] := by
    cases hblanks : blankPieces tail.blanks with
    | nil =>
      rw [hblanks] at hlast
      simpa using hlast
    | cons piece rest =>
      rw [hblanks, List.getLast?_cons_cons, ← hblanks] at hlast
      rw [← List.append_nil (blankPieces _)] at hlast
      cases getLast?_of_blankPieces (by simp) hlast
  obtain ⟨unread, hrest, hnone⟩ := houtside.text_eq
  refine ⟨hmarker.1, hmarker.2, ?_⟩
  rw [hcloses.text_eq, hrest, hnone rfl, hmarker.1, hcloses.unmarked hmarker.1]
  simp [rightMarker]

/-- The scan of a text that ends with the right delimiter of an action goes on with the scan of what
is appended, unless this completes the start of a comment. -/
theorem Scans.append (hcompact : delimiters.Compact) {fault : Option String}
    (hscans : Scans delimiters mode text pieces fault) (hfault : fault = none)
    (hlast : pieces.getLast? = some (.closing none)) {more : List Char} {others : List Piece}
    {otherFault : Option String}
    (hcomment : delimiters.right.toList = ['/'] → more.head? = some '*' →
      ∀ marker, ¬ [.opening marker, .closing none] <:+ pieces)
    (hmore : Scans delimiters .outside more others otherFault) :
    Scans delimiters mode (text ++ more) (pieces ++ others) otherFault := by
  induction hscans with
  | @plain text =>
    unfold textPieces at hlast
    split at hlast
    · cases hlast
    · cases hlast
  | @action text head pieces fault hopens haction hinside ih =>
    subst hfault
    have hinner := getLast?_of_cons (by simp) hlast
    have hright := hinside.right_suffix hinner
    have hbody : ¬ ['/', '*'] <+: head.body ++ more := by
      rw [comment_prefix_append (ne_nil_of_right_suffix hright)]
      · exact haction
      · intro hslash hstar
        -- the action holds nothing and its right delimiter is the slash
        have hdelimiter : delimiters.right.toList = head.body := by
          refine hright.eq_of_length_le ?_
          rw [hslash]
          exact delimiters.right_length_pos
        rw [← hdelimiter] at hinside hslash
        refine hcomment hslash hstar head.marker ?_
        rw [hinside.eq_closing hinner]
        exact List.suffix_append _ _
    have hrest := ih rfl hinner fun hslash hstar marker hsuffix ↦
      hcomment hslash hstar marker (hsuffix.trans ((List.suffix_cons _ _).trans
        (List.suffix_append _ _)))
    have haction := Scans.action (hopens.append hcompact hright more) hbody hrest
    rw [List.append_assoc]
    exact haction
  | @comment text content head tail pieces fault rest hopens hbody hcommented hlength hcloses
      houtside ih =>
    subst hfault
    have hinner := getLast?_of_blankPieces (by simp) (getLast?_of_cons (by simp) hlast)
    have hrest := ih rfl hinner fun hslash hstar marker hsuffix ↦
      hcomment hslash hstar marker (hsuffix.trans ((List.suffix_append _ _).trans
        ((List.suffix_cons _ _).trans (List.suffix_append _ _))))
    have hright := houtside.right_suffix hinner
    have hrestRight : delimiters.right.toList <:+ rest := by
      rw [hcloses.text_eq]
      exact right_suffix_append (right_suffix_append (right_suffix_append hright _) _) _
    have hbodyRight : delimiters.right.toList <:+ head.body := by
      rw [hbody]
      exact right_suffix_append hrestRight _
    have hcontent : head.body ++ more = content ++ (rest ++ more) := by
      rw [hbody, List.append_assoc]
    have hmeasured : commentLength (head.body ++ more) = some content.length := by
      rw [hbody] at hlength
      rw [hcontent]
      exact commentLength_append _ hlength
    have hcomment := Scans.comment (hopens.append hcompact hbodyRight more) hcontent
      (hcommented.trans (List.prefix_append _ _)) hmeasured (hcloses.append hcompact hright more)
      hrest
    rw [List.append_assoc, List.cons_append, List.append_assoc]
    exact hcomment
  | brokenComment => cases hfault
  | @close text tail pieces fault hcloses houtside ih =>
    subst hfault
    cases hpieces : pieces with
    | nil =>
      -- nothing follows the delimiter, so the lexer has taken no blanks away
      rw [hpieces] at houtside hlast
      rw [List.append_nil] at hlast
      obtain ⟨hmarker, hblanks, htext⟩ := hcloses.eq_right houtside hlast
      rw [hmarker, hblanks, htext]
      exact .close (closes_right hcompact more) hmore
    | cons piece others =>
      rw [← hpieces]
      have hne : pieces ≠ [] := by
        rw [hpieces]
        exact List.cons_ne_nil _ _
      have hinner : pieces.getLast? = some (.closing none) := by
        rw [← List.cons_append, List.getLast?_append_of_ne_nil _ hne] at hlast
        exact hlast
      have hrest := ih rfl hinner fun hslash hstar marker hsuffix ↦
        hcomment hslash hstar marker (hsuffix.trans ((List.suffix_append _ _).trans
          (List.suffix_cons _ _)))
      have hclose := Scans.close (hcloses.append hcompact (houtside.right_suffix hinner) more) hrest
      rw [List.cons_append, List.append_assoc]
      exact hclose
  | @item depth deeper c value rest kind pieces fault hclosing hlexeme hdepth hinside ih =>
    subst hfault
    have hkind : Piece.item kind (c :: value) ≠ .closing none := by simp
    have hall : ([] ++ Piece.item kind (c :: value) :: pieces).getLast? = some (.closing none) :=
      hlast
    have hinner := getLast?_of_cons hkind hall
    have hright := hinside.right_suffix hinner
    have hrest := ih rfl hinner fun hslash hstar marker hsuffix ↦
      hcomment hslash hstar marker (hsuffix.trans (List.suffix_cons _ _))
    have hall : c :: (value ++ rest) ++ more = c :: (value ++ (rest ++ more)) := by simp
    rw [hall]
    refine .item ?_ ?_ hdepth hrest
    · have htext : delimiters.right.toList <:+ c :: (value ++ rest) :=
        right_suffix_append hright (c :: value)
      rw [← hall, closing?_append hcompact htext]
      exact hclosing
    · have hlexes := (lexes_of_lexeme hlexeme).append hcompact hright more
      rw [List.append_assoc] at hlexes
      exact lexeme_of_lexes hlexes
  | strayParen => cases hfault
  | stop => cases hfault

end Scans

end Append

/-! ### Sources -/

/-- That a source is read without an error and ends with the right delimiter of an action: with its
last byte ends the item of the delimiter, which has no trim marker, and only the end of the source
follows. -/
structure EndsAction (delimiters : Delimiters) (source : String) : Prop where
  lexes : ∃ items closing ending, lex delimiters source = items ++ [closing, ending] ∧
    closing.kind = .rightDelim ∧ ending.kind = .eof ∧
      closing.position.offset + delimiters.right.utf8ByteSize = source.utf8ByteSize
  unmarked : ∀ blank, (scan delimiters .outside source.toList).pieces.getLast? ≠
    some (.closing (some blank))

/-- That a comment starts where two sources meet: the right delimiter is a slash, the last action of
the first source holds nothing, and the second source starts with an asterisk. -/
def StartsComment (delimiters : Delimiters) (first second : String) : Prop :=
  delimiters.right = "/" ∧ second.toList.head? = some '*' ∧
    ∃ items opening closing ending, lex delimiters first = items ++ [opening, closing, ending] ∧
      opening.kind = .leftDelim

section Sources

variable {delimiters : Delimiters} {first second : String}

theorem utf8ByteSize_pos {text : List Char} (hne : text ≠ []) :
    0 < (String.ofList text).utf8ByteSize := by
  obtain ⟨c, rest, rfl⟩ := List.exists_cons_of_ne_nil hne
  have hpos := Char.utf8Size_pos c
  rw [String.ofList_cons, String.utf8ByteSize_append, String.utf8ByteSize_singleton]
  omega

/-- A right delimiter among the items of a scan is one among its pieces. -/
theorem Scans.value_eq_of_rightDelim {mode : Mode} {text : List Char} {pieces : List Piece}
    {fault : Option String} (hscans : Scans delimiters mode text pieces fault) {piece : Piece}
    (hpiece : piece ∈ pieces) {start : Position} {item : Item}
    (hitem : piece.item? delimiters start = some item) (hkind : item.kind = .rightDelim) :
    item.value = delimiters.right ∧ ∃ marker, piece = .closing marker := by
  cases piece with
  | closing marker =>
    cases hitem
    exact ⟨rfl, marker, rfl⟩
  | item kind value =>
    cases hitem
    change kind = .rightDelim at hkind
    subst hkind
    rcases hscans.lexes_of_mem hpiece with htext | ⟨c, more, rest, _, hlexes⟩
    · cases htext
    · cases hlexes.isLexeme
  | opening marker | comment left content right =>
    cases hitem
    cases hkind
  | broken marker | blanks content => cases hitem

/-- A source that ends with the right delimiter of an action is scanned up to this delimiter. -/
theorem EndsAction.scan_eq (hends : EndsAction delimiters first) :
    (scan delimiters .outside first.toList).fault = none ∧
      (scan delimiters .outside first.toList).pieces.getLast? = some (.closing none) := by
  have hscans := scans_scan delimiters .outside first.toList
  have hunmarked := hends.unmarked
  obtain ⟨items, closing, ending, hlex, hclosing, hending, hend⟩ := hends.lexes
  rw [lex_eq] at hlex
  generalize scan delimiters .outside first.toList = scanned at hscans hlex hunmarked ⊢
  obtain ⟨pieces, fault⟩ := scanned
  have hsplit : items ++ [closing, ending] = (items ++ [closing]) ++ [ending] := by simp
  rw [hsplit] at hlex
  obtain ⟨hitems, hlast⟩ := List.append_inj' hlex rfl
  have hfault : fault = none := by
    cases fault with
    | none => rfl
    | some message =>
      rw [← List.singleton_inj.mp hlast] at hending
      cases hending
  subst hfault
  refine ⟨rfl, ?_⟩
  obtain ⟨unread, htext, hnone⟩ := hscans.text_eq
  rw [hnone rfl, List.append_nil] at htext
  change pieces.getLast? = _
  cases hpieces : pieces.getLast? with
  | none =>
    rw [List.getLast?_eq_none_iff.mp hpieces] at hitems
    simp at hitems
  | some piece =>
    obtain ⟨before, rfl⟩ := List.getLast?_eq_some_iff.mp hpieces
    have hpiece : piece ∈ before ++ [piece] := by simp
    change itemsOf delimiters {} (before ++ [piece]) = _ at hitems
    rw [itemsOf_append, itemsOf, itemsOf_nil, List.append_nil] at hitems
    cases hitem : piece.item? delimiters (({} : Position).advance (texts delimiters before)) with
    | some item =>
      rw [hitem] at hitems
      have hsame := List.singleton_inj.mp (List.append_inj' hitems rfl).2
      obtain ⟨_, marker, rfl⟩ := hscans.value_eq_of_rightDelim hpiece hitem (hsame ▸ hclosing)
      cases marker with
      | none => rfl
      | some blank => exact absurd hpieces (hunmarked blank)
    | none =>
      -- a piece without an item would stand between the delimiter and the end of the source
      rw [hitem] at hitems
      have hmem : closing ∈ itemsOf delimiters {} before := by
        rw [Option.toList_none, List.append_nil] at hitems
        simp [hitems]
      obtain ⟨other, hother, start, hsome⟩ := exists_piece_of_mem_itemsOf hmem
      have hvalue := (hscans.value_eq_of_rightDelim (List.mem_append_left _ hother) hsome
        hclosing).1
      have hbound := (itemsOf_bounds hmem).2
      have hsize : first.utf8ByteSize = (({} : Position).advance (texts delimiters before)).offset +
          (String.ofList (piece.text delimiters)).utf8ByteSize := by
        have hoffset := Position.advance_offset {} first.toList
        rw [String.ofList_toList, Nat.zero_add] at hoffset
        rw [← hoffset, ← Position.advance_offset, ← Position.advance_append, htext, texts_append,
          texts_cons, texts_nil, List.append_nil]
      have hpos := utf8ByteSize_pos (hscans.text_ne_nil piece hpiece)
      rw [hvalue] at hbound
      omega

/-- Two sources of which the first ends with the right delimiter of an action are read one after the
other, unless a comment starts where they meet. -/
theorem lex_append (hcompact : delimiters.Compact) (hends : EndsAction delimiters first)
    (hcomment : ¬ StartsComment delimiters first second) :
    lex delimiters (first ++ second) =
      (lex delimiters first).dropLast ++ (lex delimiters second).map (Item.behind first) := by
  have hscans := scans_scan delimiters .outside first.toList
  obtain ⟨hfault, hlast⟩ := hends.scan_eq
  have hmore := scans_scan delimiters .outside second.toList
  have hmeets : delimiters.right.toList = ['/'] → second.toList.head? = some '*' →
      ∀ marker, ¬ [.opening marker, .closing none] <:+
        (scan delimiters .outside first.toList).pieces := by
    intro hslash hstar marker hsuffix
    obtain ⟨before, hbefore⟩ := hsuffix
    refine hcomment ⟨String.toList_injective hslash, hstar, ?_⟩
    rw [lex_eq, Scan.items, ← hbefore, itemsOf_append, List.append_assoc]
    exact ⟨_, _, _, _, rfl, rfl⟩
  have happend := hscans.append hcompact hfault hlast hmeets hmore
  obtain ⟨unread, htext, hnone⟩ := hscans.text_eq
  rw [hnone hfault, List.append_nil] at htext
  have hlex := happend.lexFrom_eq {}
  rw [Scan.items_append, ← htext, ← Position.behind_start, Scan.items_behind, ← lex_eq] at hlex
  rw [lex_eq delimiters first, Scan.items, List.dropLast_concat, ← hlex]
  change lexText delimiters {} (first ++ second).toList = _
  rw [String.toList_append]
  rfl

end Sources

end Stencil.Syntax
