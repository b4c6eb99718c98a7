import Mathlib.Data.List.TakeWhile
import Stencil.Syntax.Lexing

/-!
# The lexemes of an action

`Lexes` tells by its first character what a lexeme is: one rule for each kind of item that an
action can hold. `lexeme_eq_ok_iff` proves that the lexer follows these rules and no others, so a
fact about lexemes is proved rule by rule. The first such fact is that a lexeme lies in the text it
is read from (`Lexes.length_le`).
-/

set_option autoImplicit false
set_option relaxedAutoImplicit false

namespace Stencil.Syntax

/-- That a number starts with `c` in front of `rest`. -/
def StartsNumber (c : Char) (rest : List Char) : Prop :=
  (c = '.' ∧ rest.head?.all Char.isDigit) ∨ c = '+' ∨ c = '-' ∨ c.isDigit

/-- The characters that start a lexeme of a kind of their own. -/
def leaders : List Char := ['=', ':', '|', '"', '`', '$', '\'', '.', '+', '-', '(', ')']

/-- That `c` and so many of the characters of `rest` are a lexeme of a kind. -/
inductive Lexes (delimiters : Delimiters) : Char → List Char → ItemKind → Nat → Prop
  | space {c : Char} {rest : List Char} (hblank : isBlank c) :
    Lexes delimiters c rest .space (spaceLength delimiters rest)
  | assign {rest : List Char} : Lexes delimiters '=' rest .assign 0
  | declare {rest : List Char} : Lexes delimiters ':' ('=' :: rest) .declare 1
  | bar {rest : List Char} : Lexes delimiters '|' rest .pipe 0
  | string {rest : List Char} {length : Nat} (hquoted : quotedLength '"' rest = some length) :
    Lexes delimiters '"' rest .string length
  | rawString {rest : List Char} {length : Nat} (hraw : rawLength rest = some length) :
    Lexes delimiters '`' rest .rawString length
  | variableName {rest : List Char} {kind : ItemKind} {length : Nat}
    (hname : signedName delimiters .variable .variable rest = .ok (kind, length)) :
    Lexes delimiters '$' rest kind length
  | charConstant {rest : List Char} {length : Nat}
    (hquoted : quotedLength '\'' rest = some length) :
    Lexes delimiters '\'' rest .charConstant length
  | field {next : Char} {rest : List Char} {kind : ItemKind} {length : Nat}
    (hnext : next.isDigit = false)
    (hname : signedName delimiters (.keyword .dot) .field (next :: rest) = .ok (kind, length)) :
    Lexes delimiters '.' (next :: rest) kind length
  | number {c : Char} {rest : List Char} {kind : ItemKind} {length : Nat}
    (hstart : StartsNumber c rest) (hnumber : numberLexeme c rest = .ok (kind, length)) :
    Lexes delimiters c rest kind length
  | word {c : Char} {rest : List Char} {kind : ItemKind} {length : Nat} (hc : isNameChar c)
    (hdigit : c.isDigit = false)
    (hname :
      nameLexeme delimiters (wordKind (String.ofList (c :: rest.takeWhile isNameChar))) rest =
        .ok (kind, length)) :
    Lexes delimiters c rest kind length
  | leftParen {rest : List Char} : Lexes delimiters '(' rest .leftParen 0
  | rightParen {rest : List Char} : Lexes delimiters ')' rest .rightParen 0
  | mark {c : Char} {rest : List Char} (hmark : isMark c) (hblank : isBlank c = false)
    (hname : isNameChar c = false) (hleader : c ∉ leaders) :
    Lexes delimiters c rest .char 0

/-- A quoted literal that can be read has the length of its body. -/
theorem quotedLexeme_eq_ok_iff {kind result : ItemKind} {length : Option Nat} {message : String}
    {n : Nat} : quotedLexeme kind length message = .ok (result, n) ↔
      kind = result ∧ length = some n := by
  cases length <;> simp [quotedLexeme]

/-- The lexer reads lexemes by the rules. -/
theorem lexes_of_lexeme {delimiters : Delimiters} {c : Char} {rest : List Char}
    {kind : ItemKind} {length : Nat} (hlexeme : lexeme delimiters c rest = .ok (kind, length)) :
    Lexes delimiters c rest kind length := by
  unfold lexeme at hlexeme
  by_cases hblank : isBlank c
  · rw [if_pos hblank] at hlexeme
    cases hlexeme
    exact .space hblank
  rw [if_neg hblank] at hlexeme
  by_cases hassign : c = '='
  · rw [if_pos hassign] at hlexeme
    cases hlexeme
    exact hassign ▸ .assign
  rw [if_neg hassign] at hlexeme
  by_cases hdeclare : c = ':'
  · rw [if_pos hdeclare] at hlexeme
    subst hdeclare
    cases rest with
    | nil => cases hlexeme
    | cons next rest =>
      by_cases hnext : next = '='
      · subst hnext
        cases hlexeme
        exact .declare
      · simp [hnext] at hlexeme
  rw [if_neg hdeclare] at hlexeme
  by_cases hbar : c = '|'
  · rw [if_pos hbar] at hlexeme
    cases hlexeme
    exact hbar ▸ .bar
  rw [if_neg hbar] at hlexeme
  by_cases hstring : c = '"'
  · rw [if_pos hstring, quotedLexeme_eq_ok_iff] at hlexeme
    exact hlexeme.1 ▸ hstring ▸ .string hlexeme.2
  rw [if_neg hstring] at hlexeme
  by_cases hraw : c = '`'
  · rw [if_pos hraw, quotedLexeme_eq_ok_iff] at hlexeme
    exact hlexeme.1 ▸ hraw ▸ .rawString hlexeme.2
  rw [if_neg hraw] at hlexeme
  by_cases hvariable : c = '$'
  · rw [if_pos hvariable] at hlexeme
    exact hvariable ▸ .variableName hlexeme
  rw [if_neg hvariable] at hlexeme
  by_cases hchar : c = '\''
  · rw [if_pos hchar, quotedLexeme_eq_ok_iff] at hlexeme
    exact hlexeme.1 ▸ hchar ▸ .charConstant hlexeme.2
  rw [if_neg hchar] at hlexeme
  by_cases hdot : c = '.'
  · rw [if_pos hdot] at hlexeme
    subst hdot
    cases rest with
    | nil => exact .number (.inl ⟨rfl, rfl⟩) hlexeme
    | cons next rest =>
      by_cases hnext : next.isDigit
      · simp only [hnext, if_true] at hlexeme
        exact .number (.inl ⟨rfl, hnext⟩) hlexeme
      · simp only [hnext] at hlexeme
        exact .field (by simpa using hnext) hlexeme
  rw [if_neg hdot] at hlexeme
  by_cases hnumber : c = '+' || c = '-' || c.isDigit
  · rw [if_pos hnumber] at hlexeme
    refine .number (.inr ?_) hlexeme
    simpa [or_assoc] using hnumber
  rw [if_neg hnumber] at hlexeme
  simp only [Bool.or_eq_true, decide_eq_true_eq, not_or, Bool.not_eq_true] at hnumber
  obtain ⟨⟨hplus, hminus⟩, hdigit⟩ := hnumber
  by_cases hname : isNameChar c
  · rw [if_pos hname] at hlexeme
    exact .word hname hdigit hlexeme
  rw [if_neg hname] at hlexeme
  by_cases hleft : c = '('
  · rw [if_pos hleft] at hlexeme
    cases hlexeme
    exact hleft ▸ .leftParen
  rw [if_neg hleft] at hlexeme
  by_cases hright : c = ')'
  · rw [if_pos hright] at hlexeme
    cases hlexeme
    exact hright ▸ .rightParen
  rw [if_neg hright] at hlexeme
  by_cases hmark : isMark c
  · rw [if_pos hmark] at hlexeme
    cases hlexeme
    refine .mark hmark (by simpa using hblank) (by simpa using hname) ?_
    simp only [leaders, List.mem_cons, List.not_mem_nil, or_false, not_or]
    exact ⟨hassign, hdeclare, hbar, hstring, hraw, hvariable, hchar, hdot, hplus, hminus, hleft,
      hright⟩
  · rw [if_neg hmark] at hlexeme
    cases hlexeme

/-- A name starts with no character that starts a lexeme of another kind. -/
theorem ne_of_isNameChar {c leader : Char} (hname : isNameChar c)
    (hleader : isNameChar leader = false) : c ≠ leader := by
  rintro rfl
  simp [hname] at hleader

/-- No character of a name is a blank. -/
theorem isBlank_of_isNameChar {c : Char} (hname : isNameChar c) : isBlank c = false := by
  simp only [isBlank, Bool.or_eq_false_iff, decide_eq_false_iff_not]
  exact ⟨⟨⟨ne_of_isNameChar hname (by decide), ne_of_isNameChar hname (by decide)⟩,
    ne_of_isNameChar hname (by decide)⟩, ne_of_isNameChar hname (by decide)⟩

/-- A digit may stand in a name. -/
theorem isNameChar_of_isDigit {c : Char} (hdigit : c.isDigit) : isNameChar c := by
  have hascii : c.toNat < 0x80 := by
    simp only [Char.isDigit, Bool.and_eq_true, decide_eq_true_eq] at hdigit
    have hle := UInt32.le_iff_toNat_le.mp hdigit.2
    exact Nat.lt_of_le_of_lt hle (by decide)
  simp [isNameChar, Unicode.isAlphanumeric, hascii, Char.isAlphanum, hdigit]

/-- What follows a dot decides between a number and a field. -/
theorem lexeme_dot (delimiters : Delimiters) (next : Char) (rest : List Char) :
    lexeme delimiters '.' (next :: rest) =
      if next.isDigit then numberLexeme '.' (next :: rest)
      else signedName delimiters (.keyword .dot) .field (next :: rest) :=
  rfl

/-- The rules describe lexemes that the lexer reads. -/
theorem lexeme_of_lexes {delimiters : Delimiters} {c : Char} {rest : List Char}
    {kind : ItemKind} {length : Nat} (hlexes : Lexes delimiters c rest kind length) :
    lexeme delimiters c rest = .ok (kind, length) := by
  cases hlexes with
  | space hblank =>
    unfold lexeme
    rw [if_pos hblank]
  | assign => rfl
  | declare => rfl
  | bar => rfl
  | string hquoted =>
    change quotedLexeme .string _ _ = _
    rw [hquoted]
    rfl
  | rawString hraw =>
    change quotedLexeme .rawString _ _ = _
    rw [hraw]
    rfl
  | variableName hname => exact hname
  | charConstant hquoted =>
    change quotedLexeme .charConstant _ _ = _
    rw [hquoted]
    rfl
  | field hnext hname =>
    rw [lexeme_dot, if_neg (by simpa using hnext)]
    exact hname
  | number hstart hnumber =>
    obtain ⟨rfl, hnext⟩ | rfl | rfl | hdigit := hstart
    · cases rest with
      | nil => exact hnumber
      | cons next rest =>
        rw [lexeme_dot, if_pos (by simpa using hnext)]
        exact hnumber
    · exact hnumber
    · exact hnumber
    · have hname := isNameChar_of_isDigit hdigit
      unfold lexeme
      rw [if_neg (by simp [isBlank_of_isNameChar hname]),
        if_neg (ne_of_isNameChar hname (by decide)), if_neg (ne_of_isNameChar hname (by decide)),
        if_neg (ne_of_isNameChar hname (by decide)), if_neg (ne_of_isNameChar hname (by decide)),
        if_neg (ne_of_isNameChar hname (by decide)), if_neg (ne_of_isNameChar hname (by decide)),
        if_neg (ne_of_isNameChar hname (by decide)), if_neg (ne_of_isNameChar hname (by decide)),
        if_pos (by simp [hdigit])]
      exact hnumber
  | word hc hdigit hname =>
    unfold lexeme
    rw [if_neg (by simp [isBlank_of_isNameChar hc]),
      if_neg (ne_of_isNameChar hc (by decide)), if_neg (ne_of_isNameChar hc (by decide)),
      if_neg (ne_of_isNameChar hc (by decide)), if_neg (ne_of_isNameChar hc (by decide)),
      if_neg (ne_of_isNameChar hc (by decide)), if_neg (ne_of_isNameChar hc (by decide)),
      if_neg (ne_of_isNameChar hc (by decide)), if_neg (ne_of_isNameChar hc (by decide)),
      if_neg (by simp [hdigit, ne_of_isNameChar hc (show isNameChar '+' = false by decide),
        ne_of_isNameChar hc (show isNameChar '-' = false by decide)]), if_pos hc]
    exact hname
  | leftParen => rfl
  | rightParen => rfl
  | mark hmark hblank hname hleader =>
    simp only [leaders, List.mem_cons, List.not_mem_nil, or_false, not_or] at hleader
    obtain ⟨hassign, hdeclare, hbar, hstring, hraw, hvariable, hchar, hdot, hplus, hminus, hleft,
      hright⟩ := hleader
    have hdigit : c.isDigit = false := by
      rw [Bool.eq_false_iff]
      intro hdigit
      simp [isNameChar_of_isDigit hdigit] at hname
    unfold lexeme
    rw [if_neg (by simpa using hblank), if_neg hassign, if_neg hdeclare, if_neg hbar,
      if_neg hstring, if_neg hraw, if_neg hvariable, if_neg hchar, if_neg hdot,
      if_neg (by simp [hplus, hminus, hdigit]), if_neg (by simpa using hname), if_neg hleft,
      if_neg hright, if_pos hmark]

/-- The lexer reads exactly the lexemes of the rules. -/
theorem lexeme_eq_ok_iff {delimiters : Delimiters} {c : Char} {rest : List Char}
    {kind : ItemKind} {length : Nat} :
    lexeme delimiters c rest = .ok (kind, length) ↔ Lexes delimiters c rest kind length :=
  ⟨lexes_of_lexeme, lexeme_of_lexes⟩

/-! ### The kind of a lexeme -/

/-- Whether an item of this kind stands inside an action, where it is neither of the delimiters. -/
def ItemKind.isLexeme : ItemKind → Bool
  | error | eof | text | comment | leftDelim | rightDelim => false
  | _ => true

/-- A word is a keyword, a truth value or the name of a function. -/
theorem isLexeme_wordKind (word : String) : (wordKind word).isLexeme = true := by
  unfold wordKind
  split
  · rfl
  · split <;> rfl

/-- A number that can be read is a number. -/
theorem kind_of_numberLexeme {c : Char} {rest : List Char} {kind : ItemKind} {n : Nat}
    (hnumber : numberLexeme c rest = .ok (kind, n)) : kind = .number := by
  simp only [numberLexeme] at hnumber
  split at hnumber
  · split at hnumber
    · cases hnumber
    · cases hnumber
      rfl
  · cases hnumber
    rfl

/-! ### The length of a lexeme -/

theorem length_takeWhile_le (p : Char → Bool) (text : List Char) :
    (text.takeWhile p).length ≤ text.length :=
  (List.takeWhile_prefix p).length_le

theorem quotedLength_le {mark : Char} {text : List Char} {n : Nat}
    (hlength : quotedLength mark text = some n) : n ≤ text.length := by
  fun_induction quotedLength mark text generalizing n with
  | case1 => cases hlength
  | case2 => cases hlength
  | case3 c rest hne ih =>
    obtain ⟨shorter, hshorter, rfl⟩ := Option.map_eq_some_iff.mp hlength
    have hle := ih hshorter
    simp only [List.length_cons]
    omega
  | case4 => cases hlength
  | case5 =>
    cases hlength
    simp
  | case6 c rest _ hne hmark ih =>
    obtain ⟨shorter, hshorter, rfl⟩ := Option.map_eq_some_iff.mp hlength
    have hle := ih hshorter
    simp only [List.length_cons]
    omega

theorem rawLength_le {text : List Char} {n : Nat} (hlength : rawLength text = some n) :
    n ≤ text.length := by
  induction text generalizing n with
  | nil => cases hlength
  | cons c rest ih =>
    simp only [rawLength] at hlength
    split at hlength
    · cases hlength
      simp
    · obtain ⟨shorter, hshorter, rfl⟩ := Option.map_eq_some_iff.mp hlength
      have hle := ih hshorter
      simp only [List.length_cons]
      omega

theorem spaceLength_le (delimiters : Delimiters) (rest : List Char) :
    spaceLength delimiters rest ≤ rest.length := by
  have hle := length_takeWhile_le isBlank rest
  simp only [spaceLength]
  split
  · split <;> omega
  · omega

theorem numberLexeme_length_le {c : Char} {rest : List Char} {kind : ItemKind} {n : Nat}
    (hnumber : numberLexeme c rest = .ok (kind, n)) : n ≤ rest.length := by
  have hle := length_takeWhile_le isNumberChar (c :: rest)
  simp only [List.length_cons] at hle
  simp only [numberLexeme] at hnumber
  split at hnumber
  · split at hnumber
    · cases hnumber
    · cases hnumber
      omega
  · cases hnumber
    omega

/-- A name that can be read is the longest run of its characters, and ends where a name may. -/
theorem nameLexeme_eq_ok_iff {delimiters : Delimiters} {rest : List Char}
    {kind result : ItemKind} {n : Nat} :
    nameLexeme delimiters kind rest = .ok (result, n) ↔
      kind = result ∧ (rest.takeWhile isNameChar).length = n ∧
        atTerminator delimiters (rest.drop n) = true := by
  simp only [nameLexeme]
  constructor
  · intro hname
    split at hname
    · rename_i hend
      cases hname
      exact ⟨rfl, rfl, hend⟩
    · split at hname <;> cases hname
  · rintro ⟨rfl, rfl, hend⟩
    rw [if_pos hend]

/-- A name behind a sign that can be read is empty where a name may end at once. -/
theorem signedName_eq_ok_iff {delimiters : Delimiters} {rest : List Char}
    {bare named result : ItemKind} {n : Nat} :
    signedName delimiters bare named rest = .ok (result, n) ↔
      (atTerminator delimiters rest = true ∧ bare = result ∧ n = 0) ∨
        (atTerminator delimiters rest = false ∧
          nameLexeme delimiters named rest = .ok (result, n)) := by
  unfold signedName
  cases hend : atTerminator delimiters rest <;> simp [eq_comm]

/-- A lexeme lies in the text that it is read from. -/
theorem Lexes.length_le {delimiters : Delimiters} {c : Char} {rest : List Char}
    {kind : ItemKind} {length : Nat} (hlexes : Lexes delimiters c rest kind length) :
    length ≤ rest.length := by
  have hsigned : ∀ {bare named result : ItemKind} {n : Nat} {rest : List Char},
      signedName delimiters bare named rest = .ok (result, n) → n ≤ rest.length := by
    intro bare named result n rest hname
    rcases signedName_eq_ok_iff.mp hname with ⟨_, _, rfl⟩ | ⟨_, hname⟩
    · exact Nat.zero_le _
    · rw [nameLexeme_eq_ok_iff] at hname
      exact hname.2.1 ▸ length_takeWhile_le _ _
  cases hlexes with
  | space => exact spaceLength_le delimiters rest
  | string hquoted => exact quotedLength_le hquoted
  | rawString hraw => exact rawLength_le hraw
  | variableName hname => exact hsigned hname
  | charConstant hquoted => exact quotedLength_le hquoted
  | field _ hname => exact hsigned hname
  | number _ hnumber => exact numberLexeme_length_le hnumber
  | word _ _ hname =>
    rw [nameLexeme_eq_ok_iff] at hname
    exact hname.2.1 ▸ length_takeWhile_le _ _
  | declare => simp
  | _ => exact Nat.zero_le _

/-- A lexeme is none of the items that the lexer writes by itself. -/
theorem Lexes.isLexeme {delimiters : Delimiters} {c : Char} {rest : List Char}
    {kind : ItemKind} {length : Nat} (hlexes : Lexes delimiters c rest kind length) :
    kind.isLexeme = true := by
  cases hlexes with
  | variableName hname =>
    rcases signedName_eq_ok_iff.mp hname with ⟨_, rfl, _⟩ | ⟨_, hname⟩
    · rfl
    · rw [nameLexeme_eq_ok_iff] at hname
      exact hname.1 ▸ rfl
  | field _ hname =>
    rcases signedName_eq_ok_iff.mp hname with ⟨_, rfl, _⟩ | ⟨_, hname⟩
    · rfl
    · rw [nameLexeme_eq_ok_iff] at hname
      exact hname.1 ▸ rfl
  | number _ hnumber => exact kind_of_numberLexeme hnumber ▸ rfl
  | word _ _ hname =>
    rw [nameLexeme_eq_ok_iff] at hname
    exact hname.1 ▸ isLexeme_wordKind _
  | _ => rfl

/-- A word is no run of blanks. -/
theorem wordKind_ne_space (word : String) : wordKind word ≠ .space := by
  unfold wordKind
  split
  · exact nofun
  · split <;> exact nofun

/-- A run of blanks starts with one, and is as long as it may be. -/
theorem Lexes.of_space {delimiters : Delimiters} {c : Char} {rest : List Char} {length : Nat}
    (hlexes : Lexes delimiters c rest .space length) :
    isBlank c = true ∧ length = spaceLength delimiters rest := by
  have hsigned {bare named : ItemKind} {rest : List Char} (hbare : bare ≠ .space)
      (hnamed : named ≠ .space) : signedName delimiters bare named rest ≠ .ok (.space, length) := by
    intro hname
    rcases signedName_eq_ok_iff.mp hname with ⟨-, hspace, -⟩ | ⟨-, hname⟩
    · exact hbare hspace
    · exact hnamed (nameLexeme_eq_ok_iff.mp hname).1
  cases hlexes with
  | space hblank => exact ⟨hblank, rfl⟩
  | variableName hname => exact absurd hname (hsigned nofun nofun)
  | field _ hname => exact absurd hname (hsigned nofun nofun)
  | number _ hnumber => exact absurd (kind_of_numberLexeme hnumber) nofun
  | word _ _ hname =>
    exact absurd (nameLexeme_eq_ok_iff.mp hname).1 (wordKind_ne_space _)

/-! ### The text of a lexeme -/

/-- What the kind of a lexeme says of its text, where the tree of a source keeps less than it. -/
def ItemKind.Spells (kind : ItemKind) (text : List Char) : Prop :=
  match kind with
  | field => ∃ name, text = '.' :: name
  | bool => text = "true".toList ∨ text = "false".toList
  | keyword .dot => text = ".".toList
  | keyword .nilWord => text = "nil".toList
  | _ => True

/-- A word spells what it is. -/
theorem spells_wordKind (text : List Char) : (wordKind (String.ofList text)).Spells text := by
  have hword {word : String} (heq : String.ofList text = word) : text = word.toList := by
    rw [← heq, String.toList_ofList]
  unfold wordKind
  split
  next keyword hkeyword =>
    unfold Keyword.ofWord? at hkeyword
    split at hkeyword <;> cases hkeyword <;> first | trivial | exact hword ‹_›
  next =>
    split
    next htruth =>
      rw [Bool.or_eq_true, decide_eq_true_eq, decide_eq_true_eq] at htruth
      exact htruth.imp hword hword
    next => trivial

/-- A lexeme spells what it is. -/
theorem Lexes.spells {delimiters : Delimiters} {c : Char} {value rest : List Char}
    {kind : ItemKind} (hlexes : Lexes delimiters c (value ++ rest) kind value.length) :
    kind.Spells (c :: value) := by
  generalize htext : value ++ rest = text at hlexes
  generalize hlength : value.length = length at hlexes
  cases hlexes with
  | variableName hname =>
    rcases signedName_eq_ok_iff.mp hname with ⟨_, rfl, _⟩ | ⟨_, hname⟩
    · trivial
    · rw [nameLexeme_eq_ok_iff] at hname
      exact hname.1 ▸ trivial
  | field _ hname =>
    rcases signedName_eq_ok_iff.mp hname with ⟨_, rfl, hzero⟩ | ⟨_, hname⟩
    · rw [← hlength, List.length_eq_zero_iff] at hzero
      rw [hzero]
      rfl
    · rw [nameLexeme_eq_ok_iff] at hname
      exact hname.1 ▸ ⟨value, rfl⟩
  | number _ hnumber => exact kind_of_numberLexeme hnumber ▸ trivial
  | word _ _ hname =>
    rw [nameLexeme_eq_ok_iff] at hname
    have hvalue : text.takeWhile isNameChar = value := by
      rw [← hlength] at hname
      rw [List.prefix_iff_eq_take.mp (List.takeWhile_prefix isNameChar), hname.2.1, ← htext]
      exact List.take_left
    rw [← hname.1, hvalue]
    exact spells_wordKind (c :: value)
  | _ => trivial

end Stencil.Syntax
