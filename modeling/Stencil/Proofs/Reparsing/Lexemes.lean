import Stencil.Proofs.Lexing.Punctuation

/-!
# Lexemes that stand alone

How far a lexeme goes depends on what follows it in the source. Between double braces, what a
canonical text puts behind a lexeme is little: a blank and a further lexeme, a parenthesis, a right
delimiter, and behind a name also a dot or a comma (`EndsOperand`, `EndsName`). A lexeme of any
source is the same lexeme in front of these (`Lexes.standalone_name`, `Lexes.standalone_literal`,
`Lexes.standalone_number`), whatever followed it where it was read first.

`Solid` is said of a text that starts with a lexeme which is taken neither for blanks, nor for a
trim marker or a comment, nor for a right delimiter.
-/

set_option autoImplicit false
set_option relaxedAutoImplicit false

namespace Stencil.Syntax

open Delimiters

theorem left_braces : braces.left.toList = ['\x7b', '\x7b'] := by decide

theorem right_braces : braces.right.toList = ['\x7d', '\x7d'] := by decide

/-! ### The start of a text -/

/-- That a text starts with no blank, no right delimiter, no comment and no trim marker. -/
inductive Solid : List Char → Prop
  | plain {c : Char} {rest : List Char} (hblank : isBlank c = false)
    (hmark : c ∉ ['\x7d', '/', '-']) : Solid (c :: rest)
  | signed {d : Char} {rest : List Char} (hblank : isBlank d = false) (hbrace : d ≠ '\x7d') :
    Solid ('-' :: d :: rest)

namespace Solid

variable {text : List Char}

/-- What follows does not matter to how a text starts. -/
theorem append (hsolid : Solid text) (more : List Char) : Solid (text ++ more) := by
  cases hsolid with
  | plain hblank hmark => exact .plain hblank hmark
  | signed hblank hbrace => exact .signed hblank hbrace

theorem startsBlank_eq (hsolid : Solid text) : startsBlank text = false := by
  cases hsolid with
  | plain hblank => exact hblank
  | signed => rfl

/-- No right delimiter starts a solid text. -/
theorem closing?_eq (hsolid : Solid text) : closing? braces text = none := by
  have hdash : isBlank '-' = false := by decide
  cases hsolid with
  | plain hblank hmark =>
    simp only [List.mem_cons, not_or] at hmark
    simp [closing?, startsWithRightMarker_cons, hblank, right_braces, List.isPrefixOf,
      Ne.symm hmark.1]
  | signed hblank hbrace =>
    simp [closing?, startsWithRightMarker_cons, hdash, right_braces, List.isPrefixOf]

/-- No right delimiter starts at a blank before a solid text. -/
theorem closing?_space (hsolid : Solid text) : closing? braces (' ' :: text) = none := by
  cases hsolid with
  | plain hblank hmark =>
    simp only [List.mem_cons, not_or] at hmark
    simp [closing?, startsWithRightMarker_cons, right_braces, List.isPrefixOf, hmark.2.2.1]
  | signed hblank hbrace =>
    simp [closing?, trimMarkerLength, right_braces, List.isPrefixOf, Ne.symm hbrace]

/-- A single blank before a solid text is a run of its own. -/
theorem spaceLength_eq (hsolid : Solid text) : spaceLength braces text = 0 := by
  have htake : text.takeWhile isBlank = [] := by
    cases hsolid with
    | plain hblank => simp [hblank]
    | signed => rfl
  simp only [spaceLength, htake, List.length_nil, List.drop_zero]
  split
  next => split <;> rfl
  next => rfl

/-- No trim marker starts a solid text. -/
theorem markerBlank?_eq (hsolid : Solid text) : markerBlank? text = none := by
  cases hsolid with
  | plain hblank hmark =>
    simp only [List.mem_cons, not_or] at hmark
    unfold markerBlank?
    split
    next heq =>
      cases heq
      exact absurd rfl hmark.2.2.1
    next => rfl
  | signed hblank => simp [markerBlank?, hblank]

/-- No comment starts a solid text. -/
theorem not_comment (hsolid : Solid text) : ¬ ['/', '*'] <+: text := by
  cases hsolid with
  | plain hblank hmark =>
    simp only [List.mem_cons, not_or] at hmark
    exact fun hprefix ↦ hmark.2.1 (List.cons_prefix_cons.mp hprefix).1.symm
  | signed => simp [List.cons_prefix_cons]

end Solid

/-! ### The end of a lexeme -/

/-- That an operand may end in front of a text: at a blank with more behind it, at a right
parenthesis or at a right delimiter. -/
inductive EndsOperand : List Char → Prop
  | blank {rest : List Char} (hsolid : Solid rest) : EndsOperand (' ' :: rest)
  | paren {rest : List Char} : EndsOperand (')' :: rest)
  | delimiter {rest : List Char} : EndsOperand ('\x7d' :: '\x7d' :: rest)

/-- That a name may end in front of a text: where an operand may, at a field or at a comma. -/
inductive EndsName : List Char → Prop
  | operand {text : List Char} (hends : EndsOperand text) : EndsName text
  | field {rest : List Char} : EndsName ('.' :: rest)
  | comma {rest : List Char} : EndsName (',' :: rest)

/-- A number does not go on where an operand may end. -/
theorem EndsOperand.takeWhile_eq {text : List Char} (hends : EndsOperand text) :
    text.takeWhile isNumberChar = [] := by
  have hblank : isNumberChar ' ' = false := by decide
  have hparen : isNumberChar ')' = false := by decide
  have hbrace : isNumberChar '\x7d' = false := by decide
  cases hends <;> simp [hblank, hparen, hbrace]

/-- A name does not go on where it may end. -/
theorem EndsName.takeWhile_eq {text : List Char} (hends : EndsName text) :
    text.takeWhile isNameChar = [] := by
  have hblank : isNameChar ' ' = false := by decide
  have hparen : isNameChar ')' = false := by decide
  have hbrace : isNameChar '\x7d' = false := by decide
  have hdot : isNameChar '.' = false := by decide
  have hcomma : isNameChar ',' = false := by decide
  cases hends with
  | operand hends => cases hends <;> simp [hblank, hparen, hbrace]
  | field => simp [hdot]
  | comma => simp [hcomma]

/-- The lexer lets a name end where it may. -/
theorem EndsName.atTerminator {text : List Char} (hends : EndsName text) :
    atTerminator braces text = true := by
  have hblank : isBlank ' ' = true := by decide
  cases hends with
  | operand hends =>
    cases hends <;> simp [Syntax.atTerminator, hblank, right_braces, List.isPrefixOf]
  | field => simp [Syntax.atTerminator]
  | comma => simp [Syntax.atTerminator]

/-- No digit stands where a name may end. -/
theorem EndsName.exists_cons {text : List Char} (hends : EndsName text) :
    ∃ c rest, text = c :: rest ∧ c.isDigit = false := by
  cases hends with
  | operand hends => cases hends <;> exact ⟨_, _, rfl, by decide⟩
  | field => exact ⟨_, _, rfl, by decide⟩
  | comma => exact ⟨_, _, rfl, by decide⟩

/-- That anything may follow. -/
def Anything (_ : List Char) : Prop := True

/-- That a text is read as a lexeme of a kind wherever something of a sort follows it. -/
structure Standalone (kind : ItemKind) (follows : List Char → Prop) (text : List Char) : Prop where
  solid : Solid text
  lexes : ∀ more, follows more → ∃ c value, text = c :: value ∧
    lexeme braces c (value ++ more) = .ok (kind, value.length)

/-- What stands alone in front of more stands alone in front of less. -/
theorem Standalone.mono {kind : ItemKind} {follows fewer : List Char → Prop} {text : List Char}
    (hstands : Standalone kind follows text) (hfewer : ∀ more, fewer more → follows more) :
    Standalone kind fewer text :=
  ⟨hstands.solid, fun more hmore ↦ hstands.lexes more (hfewer more hmore)⟩

/-! ### Names -/

/-- As much of a text as a run of characters is long is the run. -/
theorem takeWhile_of_length {p : Char → Bool} {value rest : List Char}
    (hlength : ((value ++ rest).takeWhile p).length = value.length) :
    (value ++ rest).takeWhile p = value := by
  rw [List.prefix_iff_eq_take.mp (List.takeWhile_prefix p), hlength, List.take_left]

/-- A name that is read is the same name wherever it may end. -/
theorem nameLexeme_before {named kind : ItemKind} {value rest more : List Char}
    (hname : nameLexeme braces named (value ++ rest) = .ok (kind, value.length))
    (hmore : EndsName more) :
    (∀ c ∈ value, isNameChar c = true) ∧
      nameLexeme braces named (value ++ more) = .ok (kind, value.length) := by
  rw [nameLexeme_eq_ok_iff] at hname ⊢
  obtain ⟨rfl, hlength, _⟩ := hname
  have hvalue := takeWhile_of_length hlength
  have hnamed : ∀ c ∈ value, isNameChar c = true := by
    intro c hc
    rw [← hvalue] at hc
    exact List.mem_takeWhile_imp hc
  refine ⟨hnamed, rfl, ?_, ?_⟩
  · rw [List.takeWhile_append_of_pos hnamed, hmore.takeWhile_eq, List.append_nil]
  · rw [List.drop_left]
    exact hmore.atTerminator

/-- No name may end before a character of a name. -/
theorem atTerminator_cons {c : Char} (hname : isNameChar c = true) (rest : List Char) :
    atTerminator braces (c :: rest) = false := by
  have hne {mark : Char} (hmark : isNameChar mark = false) : c ≠ mark :=
    ne_of_isNameChar hname hmark
  have hbrace : '\x7d' ≠ c := (hne (by decide)).symm
  simp only [atTerminator, isBlank_of_isNameChar hname, right_braces, List.isPrefixOf,
    List.contains_cons, List.contains_nil, Bool.or_eq_false_iff, Bool.and_eq_false_iff,
    beq_eq_false_iff_ne]
  exact ⟨⟨trivial, hne (by decide), hne (by decide), hne (by decide), hne (by decide),
    hne (by decide), hne (by decide), trivial⟩, .inl hbrace⟩

/-- A name behind a sign that is read is the same name wherever it may end. -/
theorem signedName_before {bare named kind : ItemKind} {value rest more : List Char}
    (hname : signedName braces bare named (value ++ rest) = .ok (kind, value.length))
    (hmore : EndsName more) :
    signedName braces bare named (value ++ more) = .ok (kind, value.length) := by
  rw [signedName_eq_ok_iff] at hname ⊢
  rcases hname with ⟨_, hkind, hlength⟩ | ⟨hstart, hname⟩
  · rw [List.length_eq_zero_iff] at hlength
    subst hlength
    exact .inl ⟨hmore.atTerminator, hkind, rfl⟩
  · obtain ⟨hnamed, hother⟩ := nameLexeme_before hname hmore
    refine .inr ⟨?_, hother⟩
    cases value with
    | nil =>
      have hend := (nameLexeme_eq_ok_iff.mp hname).2.2
      exact absurd (hstart.symm.trans hend) Bool.false_ne_true
    | cons c value => exact atTerminator_cons (hnamed c List.mem_cons_self) _

/-- Whether an item of this kind is a name, a word or a sign before one. -/
def ItemKind.isName : ItemKind → Bool
  | bool | identifier | field | «variable» | keyword _ => true
  | _ => false

theorem isName_wordKind (word : String) : (wordKind word).isName = true := by
  unfold wordKind
  split
  · rfl
  · split <;> rfl

/-- A name behind a sign is one kind of name or the other. -/
theorem isName_of_signedName {delimiters : Delimiters} {bare named kind : ItemKind}
    {rest : List Char} {n : Nat} (hname : signedName delimiters bare named rest = .ok (kind, n))
    (hbare : bare.isName = true) (hnamed : named.isName = true) : kind.isName = true := by
  rcases signedName_eq_ok_iff.mp hname with ⟨_, rfl, _⟩ | ⟨_, hname⟩
  · exact hbare
  · exact (nameLexeme_eq_ok_iff.mp hname).1 ▸ hnamed

/-- A word of characters of names stands alone. -/
theorem standalone_word {c : Char} {value : List Char}
    (hnamed : ∀ d ∈ c :: value, isNameChar d = true) (hdigit : c.isDigit = false) :
    Standalone (wordKind (String.ofList (c :: value))) EndsName (c :: value) := by
  have hc := hnamed c List.mem_cons_self
  refine ⟨.plain (isBlank_of_isNameChar hc) ?_, fun more hmore ↦ ⟨c, value, rfl, ?_⟩⟩
  · simp only [List.mem_cons, List.not_mem_nil, or_false, not_or]
    exact ⟨ne_of_isNameChar hc (by decide), ne_of_isNameChar hc (by decide),
      ne_of_isNameChar hc (by decide)⟩
  · have htake : (value ++ more).takeWhile isNameChar = value := by
      rw [List.takeWhile_append_of_pos fun d hd ↦ hnamed d (List.mem_cons_of_mem c hd),
        hmore.takeWhile_eq, List.append_nil]
    refine lexeme_eq_ok_iff.mpr (.word hc hdigit ?_)
    rw [nameLexeme_eq_ok_iff, htake, List.drop_left]
    exact ⟨rfl, rfl, hmore.atTerminator⟩

/-- A name of a source stands alone. -/
theorem Lexes.standalone_name {c : Char} {value rest : List Char} {kind : ItemKind}
    (hlexes : Lexes braces c (value ++ rest) kind value.length) (hkind : kind.isName = true) :
    Standalone kind EndsName (c :: value) := by
  generalize htext : value ++ rest = text at hlexes
  generalize hlength : value.length = length at hlexes
  cases hlexes with
  | variableName hname =>
    subst htext hlength
    refine ⟨.plain (by decide) (by decide), fun more hmore ↦ ⟨_, value, rfl, ?_⟩⟩
    exact lexeme_eq_ok_iff.mpr (.variableName (signedName_before hname hmore))
  | field hnext hname =>
    rw [← htext, ← hlength] at hname
    refine ⟨.plain (by decide) (by decide), fun more hmore ↦ ⟨_, value, rfl, ?_⟩⟩
    have hother := signedName_before hname hmore
    have hcons : ∃ d tail, value ++ more = d :: tail ∧ d.isDigit = false := by
      cases value with
      | nil => exact hmore.exists_cons
      | cons d value =>
        cases htext
        exact ⟨_, _, rfl, hnext⟩
    obtain ⟨d, tail, heq, hdigit⟩ := hcons
    rw [heq] at hother ⊢
    exact lexeme_eq_ok_iff.mpr (.field hdigit hother)
  | number _ hnumber =>
    rw [kind_of_numberLexeme hnumber] at hkind
    cases hkind
  | word hc hdigit hname =>
    have hname' := nameLexeme_eq_ok_iff.mp hname
    obtain ⟨hword, hrun, _⟩ := hname'
    rw [← htext, ← hlength] at hrun
    have hvalue := takeWhile_of_length hrun
    rw [← htext, hvalue] at hword
    rw [← hword]
    refine standalone_word (fun d hd ↦ ?_) hdigit
    rcases List.mem_cons.mp hd with rfl | hd
    · exact hc
    · rw [← hvalue] at hd
      exact List.mem_takeWhile_imp hd
  | _ => cases hkind

/-- A lexeme that does not start with a blank is no space. -/
theorem Lexes.kind_ne_space {c : Char} {rest : List Char} {kind : ItemKind} {n : Nat}
    (hlexes : Lexes braces c rest kind n) (hblank : isBlank c = false) : kind ≠ .space := by
  rintro rfl
  exact absurd hlexes.of_space.1 (by simp [hblank])

/-! ### Quoted literals -/

/-- Whether an item of this kind is a literal between marks. -/
def ItemKind.isQuoted : ItemKind → Bool
  | charConstant | string | rawString => true
  | _ => false

/-- A literal between marks stands alone in front of anything. -/
theorem Lexes.standalone_quoted {c : Char} {value rest : List Char} {kind : ItemKind}
    (hlexes : Lexes braces c (value ++ rest) kind value.length) (hkind : kind.isQuoted = true) :
    Standalone kind Anything (c :: value) := by
  generalize htext : value ++ rest = text at hlexes
  generalize hlength : value.length = length at hlexes
  cases hlexes with
  | string hquoted =>
    subst htext hlength
    refine ⟨.plain (by decide) (by decide), fun more _ ↦ ⟨_, value, rfl, ?_⟩⟩
    exact lexeme_eq_ok_iff.mpr (.string (quotedLength_append more (by decide) hquoted))
  | rawString hraw =>
    subst htext hlength
    refine ⟨.plain (by decide) (by decide), fun more _ ↦ ⟨_, value, rfl, ?_⟩⟩
    exact lexeme_eq_ok_iff.mpr (.rawString (rawLength_append more hraw))
  | charConstant hquoted =>
    subst htext hlength
    refine ⟨.plain (by decide) (by decide), fun more _ ↦ ⟨_, value, rfl, ?_⟩⟩
    exact lexeme_eq_ok_iff.mpr (.charConstant (quotedLength_append more (by decide) hquoted))
  | variableName hname =>
    have hnamed := isName_of_signedName hname rfl rfl
    cases kind <;> simp_all [ItemKind.isName, ItemKind.isQuoted]
  | field _ hname =>
    have hnamed := isName_of_signedName hname rfl rfl
    cases kind <;> simp_all [ItemKind.isName, ItemKind.isQuoted]
  | number _ hnumber =>
    rw [kind_of_numberLexeme hnumber] at hkind
    cases hkind
  | word _ _ hname =>
    have hnamed : kind.isName = true := (nameLexeme_eq_ok_iff.mp hname).1 ▸ isName_wordKind _
    cases kind <;> simp_all [ItemKind.isName, ItemKind.isQuoted]
  | _ => cases hkind

/-! ### Numbers -/

/-- That a step takes characters off the front of a text, and the same ones if the rest is cut off
anywhere. -/
def TakesOff (step : List Char → List Char) : Prop :=
  ∀ text, ∃ taken, text = taken ++ step text ∧
    ∀ more, more <+: step text → step (taken ++ more) = more

/-- Steps one after the other take off what each of them does. -/
theorem TakesOff.comp {first second : List Char → List Char} (hfirst : TakesOff first)
    (hsecond : TakesOff second) : TakesOff fun text ↦ second (first text) := by
  intro text
  obtain ⟨taken, htext, hcut⟩ := hfirst text
  obtain ⟨further, hrest, hcut'⟩ := hsecond (first text)
  refine ⟨taken ++ further, by rw [List.append_assoc, ← hrest, ← htext], fun more hmore ↦ ?_⟩
  have hprefix : further ++ more <+: first text := by
    conv_rhs => rw [hrest]
    exact (List.prefix_append_right_inj further).mpr hmore
  change second (first (taken ++ further ++ more)) = more
  rw [List.append_assoc, hcut _ hprefix, hcut' more hmore]

theorem takesOff_dropWhile (p : Char → Bool) : TakesOff (List.dropWhile p) := by
  intro text
  refine ⟨text.takeWhile p, List.takeWhile_append_dropWhile.symm, fun more hmore ↦ ?_⟩
  rw [List.dropWhile_append_of_pos fun c hc ↦ List.mem_takeWhile_imp hc]
  cases more with
  | nil => rfl
  | cons c more =>
    obtain ⟨rest, hrest⟩ := hmore
    rw [List.cons_append] at hrest
    have hc : p c = false := by
      have hhead := List.head?_dropWhile_not p text
      rw [← hrest] at hhead
      simpa using hhead
    rw [List.dropWhile_cons_of_neg (by simp [hc])]

theorem takesOff_dropOne (accepted : List Char) : TakesOff (dropOne accepted) := by
  intro text
  cases text with
  | nil => exact ⟨[], rfl, fun more hmore ↦ by rw [List.prefix_nil.mp hmore]; rfl⟩
  | cons c rest =>
    by_cases hc : accepted.contains c
    · refine ⟨[c], by simp only [dropOne, if_pos hc]; rfl, fun more _ ↦ ?_⟩
      simp only [List.cons_append, List.nil_append, dropOne, if_pos hc]
    · simp only [dropOne, if_neg hc]
      refine ⟨[], rfl, fun more hmore ↦ ?_⟩
      cases more with
      | nil => rfl
      | cons d more =>
        obtain ⟨rfl, _⟩ := List.cons_prefix_cons.mp hmore
        simp only [List.nil_append, if_neg hc]

/-- What follows the fraction of a number. -/
def afterFraction (base : NumberBase) : List Char → List Char
  | '.' :: rest => rest.dropWhile base.isDigit
  | rest => rest

theorem takesOff_afterFraction (base : NumberBase) : TakesOff (afterFraction base) := by
  intro text
  unfold afterFraction
  split
  next rest =>
    obtain ⟨taken, hrest, hcut⟩ := takesOff_dropWhile base.isDigit rest
    refine ⟨'.' :: taken, by rw [List.cons_append, ← hrest], fun more hmore ↦ ?_⟩
    rw [List.cons_append]
    exact hcut more hmore
  next hpoint =>
    refine ⟨[], rfl, fun more hmore ↦ ?_⟩
    rw [List.nil_append]
    split
    next rest =>
      obtain ⟨others, hothers⟩ := hmore
      exact absurd hothers.symm (hpoint _)
    next => rfl

theorem takesOff_afterExponent (letters : List Char) : TakesOff (afterExponent letters) := by
  have hdigits := (takesOff_dropOne ['+', '-']).comp
    (takesOff_dropWhile NumberBase.decimal.isDigit)
  intro text
  cases text with
  | nil => exact ⟨[], rfl, fun more hmore ↦ by rw [List.prefix_nil.mp hmore]; rfl⟩
  | cons c rest =>
    by_cases hc : letters.contains c
    · obtain ⟨taken, hrest, hcut⟩ := hdigits rest
      simp only [afterExponent, if_pos hc]
      refine ⟨c :: taken, by rw [List.cons_append, ← hrest], fun more hmore ↦ ?_⟩
      simp only [List.cons_append, if_pos hc]
      exact hcut more hmore
    · simp only [afterExponent, if_neg hc]
      refine ⟨[], rfl, fun more hmore ↦ ?_⟩
      cases more with
      | nil => rfl
      | cons d more =>
        obtain ⟨rfl, _⟩ := List.cons_prefix_cons.mp hmore
        simp only [List.nil_append, if_neg hc]

/-- What follows the digits, the fraction and the exponent of a number in a base. -/
def afterDigits (base : NumberBase) (digits : List Char) : List Char :=
  let fraction := afterFraction base (digits.dropWhile base.isDigit)
  match base with
  | .decimal => afterExponent ['e', 'E'] fraction
  | .hexadecimal => afterExponent ['p', 'P'] fraction
  | _ => fraction

theorem takesOff_afterDigits (base : NumberBase) : TakesOff (afterDigits base) := by
  have hfraction := (takesOff_dropWhile base.isDigit).comp (takesOff_afterFraction base)
  cases base with
  | decimal => exact hfraction.comp (takesOff_afterExponent ['e', 'E'])
  | hexadecimal => exact hfraction.comp (takesOff_afterExponent ['p', 'P'])
  | octal => exact hfraction
  | binary => exact hfraction

theorem afterNumber_eq (text : List Char) :
    afterNumber text =
      afterDigits (numberBase (dropOne ['+', '-'] text)).1
        (numberBase (dropOne ['+', '-'] text)).2 := rfl

/-- The announcement of a base is taken off, and the base is the same if the rest is cut off. -/
theorem exists_numberBase (text : List Char) :
    ∃ taken, text = taken ++ (numberBase text).2 ∧ ∀ more, more <+: (numberBase text).2 →
      numberBase (taken ++ more) = ((numberBase text).1, more) := by
  unfold numberBase
  split
  case h_7 hx hX ho hO hb hB =>
    refine ⟨[], rfl, fun more hmore ↦ ?_⟩
    obtain ⟨others, hothers⟩ := hmore
    rw [List.nil_append]
    split
    case h_7 => rfl
    all_goals
      rename_i rest
      simp only [List.cons_append] at hothers
    · exact absurd hothers.symm (hx _)
    · exact absurd hothers.symm (hX _)
    · exact absurd hothers.symm (ho _)
    · exact absurd hothers.symm (hO _)
    · exact absurd hothers.symm (hb _)
    · exact absurd hothers.symm (hB _)
  · exact ⟨['0', 'x'], rfl, fun more _ ↦ rfl⟩
  · exact ⟨['0', 'X'], rfl, fun more _ ↦ rfl⟩
  · exact ⟨['0', 'o'], rfl, fun more _ ↦ rfl⟩
  · exact ⟨['0', 'O'], rfl, fun more _ ↦ rfl⟩
  · exact ⟨['0', 'b'], rfl, fun more _ ↦ rfl⟩
  · exact ⟨['0', 'B'], rfl, fun more _ ↦ rfl⟩

/-- A number is taken off a text, and nothing is left of it if the rest is cut off. -/
theorem takesOff_afterNumber : TakesOff afterNumber := by
  have hunsigned : TakesOff fun text ↦ afterDigits (numberBase text).1 (numberBase text).2 := by
    intro text
    obtain ⟨taken, htext, hbase⟩ := exists_numberBase text
    obtain ⟨further, hdigits, hcut⟩ := takesOff_afterDigits (numberBase text).1 (numberBase text).2
    refine ⟨taken ++ further, by rw [List.append_assoc, ← hdigits, ← htext], fun more hmore ↦ ?_⟩
    have hprefix : further ++ more <+: (numberBase text).2 := by
      conv_rhs => rw [hdigits]
      exact (List.prefix_append_right_inj further).mpr hmore
    change afterDigits (numberBase (taken ++ further ++ more)).1 _ = more
    rw [List.append_assoc, hbase _ hprefix]
    exact hcut more hmore
  exact (takesOff_dropOne ['+', '-']).comp hunsigned

/-- A character that starts a number is taken off. -/
theorem afterNumber_singleton {c : Char} (hstart : c = '.' ∨ c = '+' ∨ c = '-' ∨ c.isDigit) :
    afterNumber [c] = [] := by
  rcases hstart with rfl | rfl | rfl | hdigit
  · decide
  · decide
  · decide
  · have hplus : c ≠ '+' := by
      rintro rfl
      exact absurd hdigit (by decide)
    have hminus : c ≠ '-' := by
      rintro rfl
      exact absurd hdigit (by decide)
    have hsign : dropOne ['+', '-'] [c] = [c] := by simp [dropOne, hplus, hminus]
    have hbase : numberBase [c] = (.decimal, [c]) := by
      unfold numberBase
      split <;> simp_all
    have hisDigit : NumberBase.decimal.isDigit c = true := by simp [NumberBase.isDigit, hdigit]
    rw [afterNumber_eq, hsign, hbase]
    simp [afterDigits, hisDigit, afterFraction, afterExponent]

/-- A number that can be read is as long as what is taken off, and no name follows it. -/
theorem numberLexeme_eq_ok_iff {c : Char} {rest : List Char} {kind : ItemKind} {n : Nat} :
    numberLexeme c rest = .ok (kind, n) ↔
      let text := (c :: rest).takeWhile isNumberChar
      kind = .number ∧ n = text.length - (afterNumber text).length - 1 ∧
        (afterNumber text).head?.all (!isNameChar ·) := by
  simp only [numberLexeme]
  generalize (c :: rest).takeWhile isNumberChar = text
  cases afterNumber text with
  | nil => simp [eq_comm]
  | cons next after => by_cases hnext : isNameChar next <;> simp [hnext, eq_comm]

/-- A character that starts a number may stand in one. -/
theorem isNumberChar_of_startsNumber {c : Char} {rest : List Char} (hstart : StartsNumber c rest) :
    isNumberChar c = true := by
  rcases hstart with ⟨rfl, _⟩ | rfl | rfl | hdigit
  · decide
  · decide
  · decide
  · simp [isNumberChar, isNameChar_of_isDigit hdigit]

/-- A number that is read is made of the characters of numbers and is taken off as a whole. -/
theorem afterNumber_of_numberLexeme {c : Char} {value rest : List Char}
    (hstart : StartsNumber c (value ++ rest))
    (hnumber : numberLexeme c (value ++ rest) = .ok (.number, value.length)) :
    (∀ d ∈ c :: value, isNumberChar d = true) ∧ afterNumber (c :: value) = [] := by
  obtain ⟨_, hlength, _⟩ := numberLexeme_eq_ok_iff.mp hnumber
  have hc := isNumberChar_of_startsNumber hstart
  generalize hrun : (c :: (value ++ rest)).takeWhile isNumberChar = text at hlength
  have hprefix : text <+: c :: (value ++ rest) := hrun ▸ List.takeWhile_prefix isNumberChar
  have hcons : [c] <+: text := by
    rw [← hrun, List.takeWhile_cons_of_pos hc]
    exact ⟨_, rfl⟩
  obtain ⟨taken, htext, hcut⟩ := takesOff_afterNumber text
  have hne : taken ≠ [] := by
    rintro rfl
    rw [List.nil_append] at htext
    have hsingle := hcut [c] (htext ▸ hcons)
    rw [List.nil_append, afterNumber_singleton] at hsingle
    · cases hsingle
    · rcases hstart with ⟨hdot, _⟩ | hstart
      · exact .inl hdot
      · exact .inr hstart
  have htaken : taken = c :: value := by
    have hvalue : c :: value <+: c :: (value ++ rest) := ⟨rest, rfl⟩
    have hle : taken <+: c :: (value ++ rest) := by
      refine List.IsPrefix.trans ?_ hprefix
      exact ⟨_, htext.symm⟩
    have hpos := List.length_pos_iff.mpr hne
    have htotal := congrArg List.length htext
    rw [List.length_append] at htotal
    have heq : taken.length = (c :: value).length := by
      rw [List.length_cons]
      omega
    exact (List.prefix_of_prefix_length_le hle hvalue heq.le).eq_of_length heq
  subst htaken
  refine ⟨fun d hd ↦ ?_, ?_⟩
  · have hmem : d ∈ text := by
      rw [htext]
      exact List.mem_append_left _ hd
    rw [← hrun] at hmem
    exact List.mem_takeWhile_imp hmem
  · simpa using hcut [] (List.nil_prefix)

/-- A lexeme that is a number starts as one and is read as one. -/
theorem Lexes.startsNumber {delimiters : Delimiters} {c : Char} {rest : List Char} {length : Nat}
    (hlexes : Lexes delimiters c rest .number length) :
    StartsNumber c rest ∧ numberLexeme c rest = .ok (.number, length) := by
  generalize hkind : ItemKind.number = kind at hlexes
  cases hlexes with
  | variableName hname => exact absurd (isName_of_signedName hname rfl rfl) (hkind ▸ by decide)
  | field _ hname => exact absurd (isName_of_signedName hname rfl rfl) (hkind ▸ by decide)
  | number hstart hnumber => exact ⟨hstart, hkind ▸ hnumber⟩
  | word _ _ hname =>
    have hnamed : kind.isName = true := (nameLexeme_eq_ok_iff.mp hname).1 ▸ isName_wordKind _
    exact absurd hnamed (hkind ▸ by decide)
  | _ => cases hkind

/-- A character of numbers is neither a blank nor one of a delimiter or a comment. -/
theorem plain_of_isNumberChar {c : Char} (hc : isNumberChar c = true) :
    isBlank c = false ∧ c ≠ '}' ∧ c ≠ ']' ∧ c ≠ '/' := by
  simp only [isNumberChar, Bool.or_eq_true, List.contains_iff_mem, List.mem_cons,
    List.not_mem_nil, or_false] at hc
  rcases hc with hname | rfl | rfl | rfl
  · exact ⟨isBlank_of_isNameChar hname, ne_of_isNameChar hname (by decide),
      ne_of_isNameChar hname (by decide), ne_of_isNameChar hname (by decide)⟩
  all_goals decide

/-- A number is a lexeme in front of what cannot go on with it. -/
theorem lexeme_number {delimiters : Delimiters} {c : Char} {value more : List Char}
    (hstart : StartsNumber c (value ++ more)) (hchars : ∀ d ∈ c :: value, isNumberChar d = true)
    (hafter : afterNumber (c :: value) = []) (hmore : more.takeWhile isNumberChar = []) :
    lexeme delimiters c (value ++ more) = .ok (.number, value.length) := by
  have hrun : (c :: (value ++ more)).takeWhile isNumberChar = c :: value := by
    rw [← List.cons_append, List.takeWhile_append_of_pos hchars, hmore, List.append_nil]
  refine lexeme_eq_ok_iff.mpr (.number hstart ?_)
  simp only [numberLexeme_eq_ok_iff, hrun, hafter]
  exact ⟨trivial, rfl, rfl⟩

/-- A number of a source stands alone where an operand may end, unless it is a sign or a point by
itself. -/
theorem Lexes.standalone_number {c : Char} {value rest : List Char}
    (hlexes : Lexes braces c (value ++ rest) .number value.length)
    (hdash : c :: value ≠ ['-']) (hpoint : c :: value ≠ ['.']) :
    Standalone .number EndsOperand (c :: value) := by
  obtain ⟨hstart, hnumber⟩ := hlexes.startsNumber
  obtain ⟨hchars, hafter⟩ := afterNumber_of_numberLexeme hstart hnumber
  refine ⟨?_, fun more hmore ↦ ⟨c, value, rfl, lexeme_number ?_ hchars hafter hmore.takeWhile_eq⟩⟩
  · by_cases hc : c = '-'
    · subst hc
      cases value with
      | nil => exact absurd rfl hdash
      | cons d value =>
        have hd := plain_of_isNumberChar (hchars d (by simp))
        exact .signed hd.1 hd.2.1
    · have hspec := plain_of_isNumberChar (hchars c List.mem_cons_self)
      exact .plain hspec.1 (by simp [hspec.2, hc])
  · refine hstart.imp_left fun ⟨hdot, hdigit⟩ ↦ ⟨hdot, ?_⟩
    cases value with
    | nil => exact absurd (hdot ▸ rfl) hpoint
    | cons d value => exact hdigit

end Stencil.Syntax
