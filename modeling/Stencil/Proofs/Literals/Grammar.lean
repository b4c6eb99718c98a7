import Stencil.Proofs.Literals.Numerals
import Stencil.Text.Bytes

/-!
# The grammar of literals

What stands between the quotes of a literal is a sequence of units, plain characters and escapes,
each of which spells some bytes (`SpellsUnit`, `Spells`). `unescape_eq_some_iff` says that a body is
read exactly if it is such a sequence, and as the bytes that its units spell, and
`unescapeText_eq_some_iff` that it has a value exactly if these are the bytes of a text. So a
literal has the value that its grammar gives it, and none where the grammar gives it none
(`unquote_grammar`). A character may be put together of the bytes of several escapes: only all the
bytes of a body have to be those of a text.
-/

set_option autoImplicit false
set_option relaxedAutoImplicit false

namespace Stencil.Literal

/-! ### Units -/

/-- The letters of the short escapes, with the bytes that they stand for. -/
def shortEscapes : List (Char × UInt8) :=
  [('a', 0x07), ('b', 0x08), ('f', 0x0C), ('n', 0x0A), ('r', 0x0D), ('t', 0x09), ('v', 0x0B),
    ('\\', 0x5C)]

/-- That characters are a unit of a literal between the quotes `mark`, with the bytes that the unit
spells. -/
inductive SpellsUnit (mark : Char) : List Char → List UInt8 → Prop
  | plain {c : Char} (hmark : c ≠ mark) (hbackslash : c ≠ '\\') (hline : c ≠ '\n') :
    SpellsUnit mark [c] (String.utf8EncodeChar c)
  | short {letter : Char} {byte : UInt8} (hshort : (letter, byte) ∈ shortEscapes) :
    SpellsUnit mark ['\\', letter] [byte]
  /-- The quote itself, which has to be escaped in its own literals alone. -/
  | quote : SpellsUnit mark ['\\', mark] (String.utf8EncodeChar mark)
  | hexadecimal {digits : List Char} {value : Nat} (hlength : digits.length = 2)
    (hvalue : Numeral 16 digits value) :
    SpellsUnit mark ('\\' :: 'x' :: digits) [UInt8.ofNat value]
  | octal {digits : List Char} {value : Nat} (hlength : digits.length = 3)
    (hvalue : Numeral 8 digits value) (hbyte : value ≤ 255) :
    SpellsUnit mark ('\\' :: digits) [UInt8.ofNat value]
  | codePoint {digits : List Char} {c : Char} (hlength : digits.length = 4)
    (hvalue : Numeral 16 digits c.toNat) :
    SpellsUnit mark ('\\' :: 'u' :: digits) (String.utf8EncodeChar c)
  | longCodePoint {digits : List Char} {c : Char} (hlength : digits.length = 8)
    (hvalue : Numeral 16 digits c.toNat) :
    SpellsUnit mark ('\\' :: 'U' :: digits) (String.utf8EncodeChar c)

/-- That a body is a sequence of units, with the bytes that they spell. -/
inductive Spells (mark : Char) : List Char → List UInt8 → Prop
  | nil : Spells mark [] []
  | unit {unit rest : List Char} {bytes more : List UInt8} (hunit : SpellsUnit mark unit bytes)
    (hrest : Spells mark rest more) : Spells mark (unit ++ rest) (bytes ++ more)

/-- That a quote is one of those whose literals have escapes. -/
def IsQuote (mark : Char) : Prop := mark = '"' ∨ mark = '\''

/-! ### Escapes -/

/-- The short escapes are those of the letters and that of the quote. -/
theorem shortEscape?_eq_some_iff {mark c : Char} {byte : UInt8} (hmark : IsQuote mark) :
    shortEscape? mark c = some byte ↔
      (c, byte) ∈ shortEscapes ∨ c = mark ∧ [byte] = String.utf8EncodeChar mark := by
  have hencode : String.utf8EncodeChar mark = [UInt8.ofNat mark.toNat] ∧
      mark ∉ shortEscapes.map Prod.fst := by
    rcases hmark with rfl | rfl <;> decide
  obtain ⟨hencode, hother⟩ := hencode
  rw [hencode, List.singleton_inj]
  simp only [shortEscapes, List.map_cons, List.map_nil, List.mem_cons, List.not_mem_nil, or_false,
    not_or, Prod.mk.injEq] at hother ⊢
  unfold shortEscape?
  grind

/-- The bytes of a code point are those of its character. -/
theorem characterBytes_eq_some_iff {code : Nat} {bytes : List UInt8} :
    characterBytes code = some bytes ↔
      ∃ c : Char, c.toNat = code ∧ bytes = String.utf8EncodeChar c := by
  rw [characterBytes]
  constructor
  · intro hbytes
    split at hbytes
    next hvalid =>
      cases hbytes
      rw [Char.ofNat, dif_pos hvalid]
      exact ⟨Char.ofNatAux code hvalid, rfl, rfl⟩
    next => cases hbytes
  · rintro ⟨c, rfl, rfl⟩
    have hvalid : c.toNat.isValidChar := c.valid
    rw [if_pos hvalid, Char.ofNat_toNat]

/-- The letters that introduce digits, and the digits themselves, are no short escapes. -/
theorem shortEscape?_eq_none {mark c : Char} (hmark : IsQuote mark)
    (hc : c ∈ ['x', 'u', 'U'] ++ lowerDigits.take 8) :
    shortEscape? mark c = none := by
  have hall : (['x', 'u', 'U'] ++ lowerDigits.take 8).all
      (fun c ↦ shortEscape? '"' c = none ∧ shortEscape? '\'' c = none) = true := by decide
  have hnone := of_decide_eq_true (List.all_eq_true.mp hall c hc)
  rcases hmark with rfl | rfl
  · exact hnone.1
  · exact hnone.2

/-- An octal digit is one of the first eight. -/
theorem mem_take_of_isDigit {c : Char} {value : Nat} (hdigit : IsDigit 8 c value) :
    c ∈ lowerDigits.take 8 := by
  have hsame : upperDigits.take 8 = lowerDigits.take 8 := by decide
  rcases hdigit.2 with hlower | hupper
  · exact List.mem_of_getElem? (by rwa [List.getElem?_take_of_lt hdigit.1])
  · exact hsame ▸ List.mem_of_getElem? (by rwa [List.getElem?_take_of_lt hdigit.1])

/-- Digits from the head of a text are a numeral. -/
theorem readDigits_zero_eq_some_iff {base : Nat} {digit? : Char → Option Nat}
    (hdigit : ∀ {c value}, digit? c = some value ↔ IsDigit base c value) {count : Nat}
    {text : List Char} {value : Nat} :
    readDigits digit? base count 0 text = some value ↔
      ∃ digits rest, text = digits ++ rest ∧ digits.length = count ∧
        Numeral base digits value := by
  rw [readDigits_eq_some_iff hdigit]
  constructor
  · rintro ⟨digits, rest, number, htext, hlength, hnumber, rfl⟩
    exact ⟨digits, rest, htext, hlength, by simpa using hnumber⟩
  · rintro ⟨digits, rest, htext, hlength, hnumber⟩
    exact ⟨digits, rest, value, htext, hlength, hnumber, by simp⟩

/-- Hexadecimal digits give the bytes of the character whose code they are. -/
theorem readCodePoint_eq_some_iff {count : Nat} {text : List Char} {bytes : List UInt8} :
    (readDigits hexDigit? 16 count 0 text).bind characterBytes = some bytes ↔
      ∃ digits rest, ∃ c : Char, text = digits ++ rest ∧ digits.length = count ∧
        Numeral 16 digits c.toNat ∧ bytes = String.utf8EncodeChar c := by
  simp only [Option.bind_eq_some_iff, readDigits_zero_eq_some_iff hexDigit?_eq_some_iff,
    characterBytes_eq_some_iff]
  constructor
  · rintro ⟨_, ⟨digits, rest, htext, hlength, hvalue⟩, c, rfl, hbytes⟩
    exact ⟨digits, rest, c, htext, hlength, hvalue, hbytes⟩
  · rintro ⟨digits, rest, c, htext, hlength, hvalue, hbytes⟩
    exact ⟨_, ⟨digits, rest, htext, hlength, hvalue⟩, c, rfl, hbytes⟩

/-- What the parser reads behind a backslash is the rest of a unit that starts with one. -/
theorem exists_spellsUnit {mark : Char} (hmark : IsQuote mark) {text : List Char}
    {bytes : List UInt8} {length : Nat} (hescape : escapeUnit mark text = some (bytes, length)) :
    ∃ unit rest, text = unit ++ rest ∧ unit.length = length ∧
      SpellsUnit mark ('\\' :: unit) bytes := by
  cases text with
  | nil => cases hescape
  | cons c rest =>
    rw [escapeUnit] at hescape
    split at hescape
    next byte hshort =>
      cases hescape
      refine ⟨[c], rest, rfl, rfl, ?_⟩
      rcases (shortEscape?_eq_some_iff hmark).mp hshort with hshort | ⟨rfl, hbyte⟩
      · exact .short hshort
      · rw [hbyte]
        exact .quote
    next =>
      split at hescape
      next hx =>
        obtain ⟨value, hread, ⟨⟩⟩ := Option.map_eq_some_iff.mp hescape
        obtain ⟨digits, more, rfl, hlength, hvalue⟩ :=
          (readDigits_zero_eq_some_iff hexDigit?_eq_some_iff).mp hread
        exact ⟨'x' :: digits, more, by rw [hx]; rfl, congrArg (· + 1) hlength,
          .hexadecimal hlength hvalue⟩
      next =>
        split at hescape
        next hu =>
          obtain ⟨_, hcode, ⟨⟩⟩ := Option.map_eq_some_iff.mp hescape
          obtain ⟨digits, more, c, rfl, hlength, hvalue, rfl⟩ :=
            readCodePoint_eq_some_iff.mp hcode
          exact ⟨'u' :: digits, more, by rw [hu]; rfl, congrArg (· + 1) hlength,
            .codePoint hlength hvalue⟩
        next =>
          split at hescape
          next hlong =>
            obtain ⟨_, hcode, ⟨⟩⟩ := Option.map_eq_some_iff.mp hescape
            obtain ⟨digits, more, c, rfl, hlength, hvalue, rfl⟩ :=
              readCodePoint_eq_some_iff.mp hcode
            exact ⟨'U' :: digits, more, by rw [hlong]; rfl, congrArg (· + 1) hlength,
              .longCodePoint hlength hvalue⟩
          next =>
            split at hescape
            next value hread =>
              split at hescape
              next hbyte =>
                cases hescape
                obtain ⟨digits, more, htext, hlength, hvalue⟩ :=
                  (readDigits_zero_eq_some_iff octalDigit?_eq_some_iff).mp hread
                exact ⟨digits, more, htext, hlength,
                  .octal hlength hvalue (Nat.le_of_lt_succ hbyte)⟩
              next => cases hescape
            next => cases hescape

/-- A unit that starts with a backslash is read behind it, whatever follows the unit. -/
theorem SpellsUnit.escapeUnit_eq {mark : Char} (hmark : IsQuote mark) {unit : List Char}
    {bytes : List UInt8} (hunit : SpellsUnit mark ('\\' :: unit) bytes) (rest : List Char) :
    escapeUnit mark (unit ++ rest) = some (bytes, unit.length) := by
  cases hunit with
  | plain _ hbackslash => exact absurd rfl hbackslash
  | short hshort =>
    rw [List.singleton_append, escapeUnit,
      (shortEscape?_eq_some_iff hmark).mpr (.inl hshort)]
    rfl
  | quote =>
    obtain ⟨byte, hbyte⟩ : ∃ byte, String.utf8EncodeChar mark = [byte] := by
      rcases hmark with rfl | rfl <;> exact ⟨_, rfl⟩
    rw [List.singleton_append, escapeUnit,
      (shortEscape?_eq_some_iff hmark).mpr (.inr ⟨rfl, hbyte.symm⟩), hbyte]
    rfl
  | hexadecimal hlength hvalue =>
    rw [List.cons_append, escapeUnit, shortEscape?_eq_none hmark (by decide)]
    simp [(readDigits_zero_eq_some_iff hexDigit?_eq_some_iff).mpr
      ⟨_, rest, rfl, hlength, hvalue⟩, hlength]
  | @octal digits value hlength hvalue hbyte =>
    obtain ⟨c, digits, rfl⟩ := List.exists_cons_of_length_eq_add_one hlength
    obtain ⟨first, _, hfirst, -⟩ := Numeral.cons_iff.mp hvalue
    have hread := (readDigits_zero_eq_some_iff octalDigit?_eq_some_iff).mpr
      ⟨_, rest, rfl, hlength, hvalue⟩
    have hc := mem_take_of_isDigit hfirst
    have hletter : c ≠ 'x' ∧ c ≠ 'u' ∧ c ≠ 'U' := by
      refine ⟨?_, ?_, ?_⟩ <;> rintro rfl <;> exact absurd hc (by decide)
    obtain ⟨hx, hu, hlong⟩ := hletter
    rw [List.cons_append] at hread ⊢
    rw [escapeUnit, shortEscape?_eq_none hmark (List.mem_append_right _ hc)]
    simp [hx, hu, hlong, hread, hlength, Nat.lt_succ_of_le hbyte]
  | codePoint hlength hvalue =>
    rw [List.cons_append, escapeUnit, shortEscape?_eq_none hmark (by decide)]
    simp [readCodePoint_eq_some_iff.mpr ⟨_, rest, _, rfl, hlength, hvalue, rfl⟩, hlength]
  | longCodePoint hlength hvalue =>
    rw [List.cons_append, escapeUnit, shortEscape?_eq_none hmark (by decide)]
    simp [readCodePoint_eq_some_iff.mpr ⟨_, rest, _, rfl, hlength, hvalue, rfl⟩, hlength]

/-! ### Bodies -/

/-- An escape at the head of a body spells its bytes, before those of what follows it. -/
theorem unescape_backslash_append {mark : Char} (hmark : IsQuote mark) {unit rest : List Char}
    {bytes : List UInt8} (hunit : SpellsUnit mark ('\\' :: unit) bytes) :
    unescape mark ('\\' :: unit ++ rest) = (unescape mark rest).map (bytes ++ ·) := by
  have hescape := hunit.escapeUnit_eq hmark rest
  rw [List.cons_append, unescape, if_pos rfl, hescape]
  simp only [List.drop_left]

/-- A body is read exactly if it is a sequence of units, and as the bytes that they spell. -/
theorem unescape_eq_some_iff {mark : Char} (hmark : IsQuote mark) {body : List Char}
    {bytes : List UInt8} : unescape mark body = some bytes ↔ Spells mark body bytes := by
  constructor
  · intro hread
    fun_induction unescape mark body generalizing bytes with
    | case1 =>
      cases hread
      exact .nil
    | case2 rest unitBytes length hescape ih =>
      obtain ⟨more, hmore, rfl⟩ := Option.map_eq_some_iff.mp hread
      obtain ⟨unit, others, rfl, rfl, hunit⟩ := exists_spellsUnit hmark hescape
      rw [List.drop_left] at ih hmore
      exact .unit hunit (ih hmore)
    | case3 => cases hread
    | case4 => cases hread
    | case5 c rest hbackslash hbare ih =>
      obtain ⟨more, hmore, rfl⟩ := Option.map_eq_some_iff.mp hread
      simp only [Bool.or_eq_true, decide_eq_true_eq, not_or] at hbare
      exact .unit (.plain hbare.1 hbackslash hbare.2) (ih hmore)
  · intro hspells
    induction hspells with
    | nil => rw [unescape]
    | @unit unit rest bytes more hunit _ ih =>
      have hunitCopy := hunit
      cases hunit with
      | plain hbare hbackslash hline =>
        simp [unescape, hbare, hbackslash, hline, ih]
      | _ => rw [unescape_backslash_append hmark hunitCopy, ih, Option.map_some]

/-- A body has a value exactly if it spells the bytes of a text. -/
theorem unescapeText_eq_some_iff {mark : Char} (hmark : IsQuote mark) {body : List Char}
    {value : String} :
    unescapeText mark body = some value ↔ Spells mark body (bytesOf value.toList) := by
  simp only [unescapeText, Option.bind_eq_some_iff, unescape_eq_some_iff hmark,
    fromUTF8?_eq_some_iff]
  constructor
  · rintro ⟨_, hspells, rfl⟩
    exact hspells
  · intro hspells
    exact ⟨_, hspells, rfl⟩

/-! ### Literals -/

/-- The value of the body of a literal between two quotes `mark`. -/
inductive Denotes : Char → List Char → String → Prop
  | text {body : List Char} {value : String} (hbody : Spells '"' body (bytesOf value.toList)) :
    Denotes '"' body value
  | character {body : List Char} {c : Char} (hbody : Spells '\'' body (String.utf8EncodeChar c)) :
    Denotes '\'' body (String.singleton c)
  | raw {body : List Char} (hbody : '`' ∉ body) :
    Denotes '`' body (String.ofList (body.filter (· ≠ '\r')))

/-- What stands between two quotes is the body of their literal. -/
theorem unquote_enclosed (mark : Char) (body : List Char) :
    unquote (String.ofList (mark :: (body ++ [mark]))) =
      if mark = '`' then
        if body.contains '`' then none else some (String.ofList (body.filter (· ≠ '\r')))
      else if mark = '"' then unescapeText mark body
      else if mark = '\'' then (unescapeText mark body).filter (·.length = 1)
      else none := by
  obtain ⟨last, more, hbody⟩ : ∃ last more, body ++ [mark] = last :: more :=
    List.exists_cons_of_ne_nil (by simp)
  rw [unquote, String.toList_ofList, hbody]
  simp only [← hbody, List.getLast?_concat, List.dropLast_concat, ne_eq, not_true_eq_false,
    if_false]

/-- What has a value stands between two quotes. -/
theorem exists_enclosed_of_unquote {literal value : String}
    (hvalue : unquote literal = some value) :
    ∃ mark body, literal = String.ofList (mark :: (body ++ [mark])) := by
  rw [unquote] at hvalue
  split at hvalue
  next mark last more htext =>
    by_cases hlast : (last :: more).getLast? = some mark
    · obtain ⟨body, hbody⟩ := List.getLast?_eq_some_iff.mp hlast
      exact ⟨mark, body, by rw [← hbody, ← htext, String.ofList_toList]⟩
    · rw [if_pos hlast] at hvalue
      cases hvalue
  next => cases hvalue

/-- The value of a body between quotes is the one that it denotes. -/
theorem unquote_enclosed_eq_some_iff {mark : Char} {body : List Char} {value : String} :
    unquote (String.ofList (mark :: (body ++ [mark]))) = some value ↔ Denotes mark body value := by
  rw [unquote_enclosed]
  constructor
  · intro hvalue
    split at hvalue
    next hraw =>
      subst hraw
      split at hvalue
      next => cases hvalue
      next hbare =>
        cases hvalue
        exact .raw (by simpa using hbare)
    next =>
      split at hvalue
      next hdouble =>
        subst hdouble
        exact .text ((unescapeText_eq_some_iff (.inl rfl)).mp hvalue)
      next =>
        split at hvalue
        next hsingle =>
          subst hsingle
          obtain ⟨htext, hlength⟩ := Option.filter_eq_some_iff.mp hvalue
          obtain ⟨c, rfl⟩ : ∃ c, value = String.singleton c := by
            obtain ⟨c, hc⟩ := List.length_eq_one_iff.mp (of_decide_eq_true hlength)
            exact ⟨c, by rw [← String.toList_inj, hc, String.toList_singleton]⟩
          have hspells := (unescapeText_eq_some_iff (.inr rfl)).mp htext
          exact .character (by simpa [bytesOf] using hspells)
        next => cases hvalue
  · rintro (hbody | hbody | hbody)
    · simp [unescapeText_eq_some_iff (.inl rfl), hbody]
    · have hspells : unescapeText '\'' body = some (String.singleton _) :=
        (unescapeText_eq_some_iff (.inr rfl)).mpr (by simpa [bytesOf] using hbody)
      simp [hspells]
    · simp [hbody]

/-- A literal has a value exactly if it is a body between quotes that denotes it. -/
theorem unquote_eq_some_iff {literal value : String} :
    unquote literal = some value ↔
      ∃ mark body, literal.toList = mark :: (body ++ [mark]) ∧ Denotes mark body value := by
  constructor
  · intro hvalue
    obtain ⟨mark, body, rfl⟩ := exists_enclosed_of_unquote hvalue
    exact ⟨mark, body, String.toList_ofList, unquote_enclosed_eq_some_iff.mp hvalue⟩
  · rintro ⟨mark, body, htext, hbody⟩
    rw [← String.ofList_toList (s := literal), htext]
    exact unquote_enclosed_eq_some_iff.mpr hbody

/-- A character constant is a literal of one character between single quotes. -/
theorem unquoteChar_eq_some_iff {literal : String} {c : Char} :
    unquoteChar literal = some c ↔
      ∃ body, literal.toList = '\'' :: (body ++ ['\'']) ∧
        Denotes '\'' body (String.singleton c) := by
  rw [unquoteChar]
  constructor
  · intro hvalue
    split at hvalue
    next hfirst =>
      obtain ⟨value, hliteral, hc⟩ := Option.bind_eq_some_iff.mp hvalue
      obtain ⟨mark, body, htext, hbody⟩ := unquote_eq_some_iff.mp hliteral
      obtain rfl : mark = '\'' := by simpa [htext] using hfirst
      refine ⟨body, htext, ?_⟩
      cases hbody with
      | character hbody =>
        rw [String.toList_singleton, List.head?_cons, Option.some.injEq] at hc
        exact hc ▸ .character hbody
    next => cases hvalue
  · rintro ⟨body, htext, hbody⟩
    rw [htext, List.head?_cons, if_pos rfl, unquote_eq_some_iff.mpr ⟨_, body, htext, hbody⟩]
    rw [Option.bind_some, String.toList_singleton, List.head?_cons]

/-- At most `bound` digits of a base make up a number below the power with `bound` factors. -/
theorem readDigits_lt {base bound : Nat} {digit? : Char → Option Nat}
    (hdigit : ∀ {c value}, digit? c = some value ↔ IsDigit base c value) (hbase : 0 < base)
    {count : Nat} (hcount : count ≤ bound) {text : List Char} {value : Nat}
    (hread : readDigits digit? base count 0 text = some value) : value < base ^ bound := by
  obtain ⟨digits, rest, -, rfl, hvalue⟩ := (readDigits_zero_eq_some_iff hdigit).mp hread
  exact hvalue.lt.trans_le (Nat.pow_le_pow_right hbase hcount)

/-- Literals are decoded by their grammar. A literal has a value exactly if it is a body between two
quotes of one kind that denotes this value: between double quotes units whose bytes are those of a
text, between single ones units whose bytes are those of a character, and between back quotes
anything but a back quote, without the carriage returns. A character constant is one between single
quotes. The digits of an escape, and those of its first digits that have been read at any time, make
up a number of thirty-two bits. -/
theorem unquote_grammar (literal value : String) (c : Char) :
    (unquote literal = some value ↔
      ∃ mark body, literal.toList = mark :: (body ++ [mark]) ∧ Denotes mark body value) ∧
    (unquoteChar literal = some c ↔
      ∃ body, literal.toList = '\'' :: (body ++ ['\'']) ∧
        Denotes '\'' body (String.singleton c)) ∧
    (∀ count ≤ 8, ∀ text code,
      readDigits hexDigit? 16 count 0 text = some code → code < UInt32.size) ∧
    ∀ count ≤ 3, ∀ text code,
      readDigits octalDigit? 8 count 0 text = some code → code < UInt32.size := by
  refine ⟨unquote_eq_some_iff, unquoteChar_eq_some_iff, ?_, ?_⟩
  · intro count hcount text code hread
    exact readDigits_lt hexDigit?_eq_some_iff (by decide) hcount hread
  · intro count hcount text code hread
    exact (readDigits_lt octalDigit?_eq_some_iff (by decide) hcount hread).trans (by decide)

end Stencil.Literal
