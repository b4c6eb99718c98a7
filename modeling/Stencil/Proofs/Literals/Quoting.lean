import Stencil.Function.Builtin
import Stencil.Proofs.Literals.Grammar

/-!
# Quoted texts read back

A text is quoted character by character, each as one unit of a literal (`spellsUnit_escape`). The
unit spells the bytes of the character, but for the control characters above ASCII, from U+0080 to
U+009F: their escape stands for a single byte, the last of the two that they have in a text
(`writtenBytes`). No text has such a byte where a character starts, so a literal with one of them
has no value. Every other text is what its literal denotes (`unquote_quote_eq`).
-/

set_option autoImplicit false
set_option relaxedAutoImplicit false

namespace Stencil.Literal

/-! ### Characters -/

/-- Whether `c` is one of the control characters above ASCII. -/
def isUpperControl (c : Char) : Bool := 0x80 ≤ c.toNat && c.toNat < 0xA0

/-- The bytes that the unit stands for with which a character is quoted. -/
def writtenBytes (c : Char) : List UInt8 :=
  if isUpperControl c then [UInt8.ofNat c.toNat] else String.utf8EncodeChar c

/-- The digits of a byte's escape. -/
theorem numeral_leftpad {value : Nat} (hbyte : value < 256) :
    ((Nat.toDigits 16 value).leftpad 2 '0').length = 2 ∧
      Numeral 16 ((Nat.toDigits 16 value).leftpad 2 '0') value := by
  have hlength : (Nat.toDigits 16 value).length ≤ 2 :=
    (Nat.length_toDigits_le_iff (by decide) (by decide)).mpr hbyte
  constructor
  · rw [List.length_leftpad]
    exact max_eq_left hlength
  · exact (Numeral.toDigits (by decide) (by decide) value).replicate_zero_append (by decide) _

/-- A character of ASCII, or a control character above it, is quoted as the byte of its code. -/
theorem writtenBytes_eq_byte {c : Char} (hc : c.toNat < 0xA0) :
    writtenBytes c = [UInt8.ofNat c.toNat] := by
  rw [writtenBytes]
  split
  next => rfl
  next hupper =>
    simp only [isUpperControl, Bool.and_eq_true, decide_eq_true_eq, not_and, not_lt] at hupper
    have hascii : c.toNat < 0x80 := by omega
    rw [String.utf8EncodeChar, Char.toNat_val, if_pos (Nat.le_of_lt_succ hascii)]

/-- How a character is quoted: by a short escape, as the quote, by its code, or bare. -/
theorem escape_cases (mark c : Char) :
    (∃ letter byte, (letter, byte) ∈ shortEscapes ∧ c.toNat = byte.toNat ∧
      escape mark c = ['\\', letter]) ∨
    (c = mark ∧ escape mark c = ['\\', mark]) ∨
    (isControl c = true ∧
      escape mark c = '\\' :: 'x' :: (Nat.toDigits 16 c.toNat).leftpad 2 '0') ∨
    (c ≠ mark ∧ c ≠ '\\' ∧ c ≠ '\n' ∧ isControl c = false ∧ escape mark c = [c]) := by
  obtain ⟨written, hwritten⟩ : ∃ written, written = escape mark c := ⟨_, rfl⟩
  rw [← hwritten]
  rw [escape] at hwritten
  split_ifs at hwritten with ha hb hf hn hr ht hv hquoted hcontrol
  · exact .inl ⟨'a', 0x07, by decide, ha ▸ rfl, hwritten⟩
  · exact .inl ⟨'b', 0x08, by decide, hb ▸ rfl, hwritten⟩
  · exact .inl ⟨'f', 0x0C, by decide, hf ▸ rfl, hwritten⟩
  · exact .inl ⟨'n', 0x0A, by decide, hn ▸ rfl, hwritten⟩
  · exact .inl ⟨'r', 0x0D, by decide, hr ▸ rfl, hwritten⟩
  · exact .inl ⟨'t', 0x09, by decide, ht ▸ rfl, hwritten⟩
  · exact .inl ⟨'v', 0x0B, by decide, hv ▸ rfl, hwritten⟩
  · rcases Bool.or_eq_true_iff.mp hquoted with hbackslash | hmark
    · obtain rfl := of_decide_eq_true hbackslash
      exact .inl ⟨'\\', 0x5C, by decide, rfl, hwritten⟩
    · obtain rfl := of_decide_eq_true hmark
      exact .inr (.inl ⟨rfl, hwritten⟩)
  · exact .inr (.inr (.inl ⟨hcontrol, hwritten⟩))
  · simp only [Bool.or_eq_true, decide_eq_true_eq, not_or] at hquoted
    exact .inr (.inr (.inr ⟨hquoted.2, hquoted.1, hn, Bool.eq_false_iff.mpr hcontrol, hwritten⟩))

/-- A character is quoted as one unit. -/
theorem spellsUnit_escape {mark : Char} (hmark : IsQuote mark) (c : Char) :
    SpellsUnit mark (escape mark c) (writtenBytes c) := by
  rcases escape_cases mark c with
    ⟨letter, byte, hshort, hcode, hescape⟩ | ⟨rfl, hescape⟩ | ⟨hcontrol, hescape⟩ |
      ⟨hquote, hbackslash, hline, hcontrol, hescape⟩ <;> rw [hescape]
  · have hascii : ∀ entry ∈ shortEscapes, entry.2.toNat < 0x80 := by decide
    have hbyte : byte.toNat < 0x80 := hascii _ hshort
    rw [writtenBytes_eq_byte (by omega), hcode, UInt8.ofNat_toNat]
    exact .short hshort
  · have hwritten : writtenBytes c = String.utf8EncodeChar c := by
      rcases hmark with rfl | rfl <;> rfl
    rw [hwritten]
    exact .quote
  · simp only [isControl, Bool.or_eq_true, Bool.and_eq_true, decide_eq_true_eq] at hcontrol
    obtain ⟨hlength, hvalue⟩ := numeral_leftpad (show c.toNat < 256 by omega)
    rw [writtenBytes_eq_byte (by omega)]
    exact .hexadecimal hlength hvalue
  · have hwritten : writtenBytes c = String.utf8EncodeChar c := by
      simp only [isControl, Bool.or_eq_false_iff, Bool.and_eq_false_iff, decide_eq_false_iff_not]
        at hcontrol
      rw [writtenBytes, isUpperControl, if_neg]
      simp only [Bool.and_eq_true, decide_eq_true_eq, not_and]
      omega
    rw [hwritten]
    exact .plain hquote hbackslash hline

/-- A text is quoted unit by unit. -/
theorem spells_flatMap_escape {mark : Char} (hmark : IsQuote mark) (text : List Char) :
    Spells mark (text.flatMap (escape mark)) (text.flatMap writtenBytes) := by
  induction text with
  | nil => exact .nil
  | cons c text ih => exact .unit (spellsUnit_escape hmark c) ih

/-! ### Texts -/

/-- The byte of a control character above ASCII starts no character. -/
theorem not_isUTF8FirstByte_of_isUpperControl {c : Char} (hc : isUpperControl c = true) :
    ¬ (UInt8.ofNat c.toNat).IsUTF8FirstByte := by
  have hinside : ∀ code < 0xA0, 0x80 ≤ code → ¬ (UInt8.ofNat code).IsUTF8FirstByte := by
    decide +kernel
  simp only [isUpperControl, Bool.and_eq_true, decide_eq_true_eq] at hc
  exact hinside _ hc.2 hc.1

/-- What a text is quoted as stands for a text only if it has no control characters above ASCII. -/
theorem not_isUpperControl_of_isValidUTF8 {text : List Char}
    (hvalid : (text.flatMap writtenBytes).toByteArray.IsValidUTF8) :
    ∀ c ∈ text, isUpperControl c = false := by
  induction text with
  | nil => exact fun c hc ↦ absurd hc List.not_mem_nil
  | cons c text ih =>
    rw [List.flatMap_cons, List.toByteArray_append] at hvalid
    by_cases hc : isUpperControl c = true
    · have hfirst := hvalid.isUTF8FirstByte_getElem_zero (by simp [writtenBytes, hc])
      simp only [writtenBytes, hc, if_true, ← List.toByteArray_append, List.getElem_toByteArray]
        at hfirst
      exact absurd hfirst (not_isUTF8FirstByte_of_isUpperControl hc)
    · have hencode : (writtenBytes c).toByteArray = [c].utf8Encode := by
        rw [writtenBytes, if_neg hc, List.utf8Encode, List.flatMap_singleton]
      rw [hencode, ByteArray.isValidUTF8_utf8Encode_singleton_append_iff] at hvalid
      exact List.forall_mem_cons.mpr ⟨Bool.eq_false_iff.mpr hc, ih hvalid⟩

/-- The bytes that a text is quoted as are those of the text, or of none. -/
theorem fromUTF8?_flatMap_writtenBytes (text : String) :
    String.fromUTF8? ⟨(text.toList.flatMap writtenBytes).toArray⟩ =
      if text.toList.any isUpperControl then none else some text := by
  split
  next hupper =>
    rw [String.fromUTF8?, dif_neg]
    intro hvalid
    obtain ⟨c, hc, hupper⟩ := List.any_eq_true.mp hupper
    rw [← List.data_toByteArray] at hvalid
    exact absurd (not_isUpperControl_of_isValidUTF8 hvalid c hc) (by simp [hupper])
  next hplain =>
    rw [fromUTF8?_eq_some_iff, bytesOf]
    refine List.flatMap_congr fun c hc ↦ if_neg ?_
    exact fun hupper ↦ hplain (List.any_eq_true.mpr ⟨c, hc, hupper⟩)

/-- The value of what a text is quoted as between two quotes. -/
theorem unescapeText_flatMap_escape {mark : Char} (hmark : IsQuote mark) (text : String) :
    unescapeText mark (text.toList.flatMap (escape mark)) =
      if text.toList.any isUpperControl then none else some text := by
  rw [unescapeText, (unescape_eq_some_iff hmark).mpr (spells_flatMap_escape hmark text.toList),
    Option.bind_some, fromUTF8?_flatMap_writtenBytes]

/-- The value of a quoted text. -/
theorem unquote_quote_eq (text : String) :
    unquote (quote text) = if text.toList.any isUpperControl then none else some text := by
  rw [quote, unquote_enclosed]
  exact unescapeText_flatMap_escape (.inl rfl) text

/-- The value of a quoted character. -/
theorem unquoteChar_quoteChar_eq (c : Char) :
    unquoteChar (quoteChar c) = if isUpperControl c then none else some c := by
  have htext := unescapeText_flatMap_escape (.inr rfl) (String.singleton c)
  simp only [String.toList_singleton, List.flatMap_singleton, List.any_cons, List.any_nil,
    Bool.or_false] at htext
  rw [unquoteChar, quoteChar, unquote_enclosed, String.toList_ofList, List.head?_cons, if_pos rfl]
  cases hupper : isUpperControl c <;> simp [htext, hupper, Option.filter]

/-! ### Formatting -/

/-- A directive of a verb alone writes an argument that the verb applies to as the verb does. -/
theorem apply_of_formatArgument {verb : Char} (hverb : verb ≠ '%') {argument : Value}
    {body : List Char}
    (hbody : Formatting.formatArgument verb ⟨{}, none, none⟩ argument = some body) :
    (⟨{}, .digits none, .absent, some verb⟩ : Formatting.Directive).apply [argument] =
      (body, []) := by
  have hpad (numeric : Bool) : Formatting.pad ⟨{}, none, none⟩ numeric body = body := by
    simp [Formatting.pad]
  have happlied : Formatting.applyVerb (some verb) ⟨{}, none, none⟩ [argument] = (body, []) := by
    unfold Formatting.applyVerb
    split
    next hnone => cases hnone
    next hpercent => exact absurd (Option.some.inj hpercent) hverb
    next hsome =>
      cases hsome
      simp only [hbody, hpad]
  rw [Formatting.Directive.apply]
  simp only [Formatting.settleWidth, Formatting.settlePrecision, happlied, List.nil_append]

/-- The verb for quoted forms writes an argument that it applies to, and nothing else. -/
theorem fill_quoted {argument : Value} {body : List Char}
    (hbody : Formatting.formatArgument 'q' ⟨{}, none, none⟩ argument = some body) :
    Formatting.fill "%q" [argument] = String.ofList body := by
  have hformat : "%q".toList = ['%', 'q'] := rfl
  have hdirective : Formatting.readDirective ['q'] =
      (⟨{}, .digits none, .absent, some 'q'⟩, []) := by
    have hflag : Formatting.isFlag 'q' = false := by decide
    have hdigit : 'q'.isDigit = false := by decide
    simp [Formatting.readDirective, Formatting.readCount, Formatting.readPrecision, hflag, hdigit,
      Formatting.boundedValue, Formatting.Flags.ofMarks]
  have hfrom : Formatting.formatFrom ['%', 'q'] [argument] = (body, []) := by
    rw [Formatting.formatFrom, if_pos rfl, hdirective]
    simp only [apply_of_formatArgument (by decide) hbody]
    rw [Formatting.formatFrom, List.append_nil]
  rw [Formatting.fill, hformat, hfrom]
  simp [Formatting.extraReport]

/-- Formatting a text by the verb for quoted forms quotes it. -/
theorem fill_text (text : String) : Formatting.fill "%q" [.string text] = quote text := by
  rw [fill_quoted rfl, String.ofList_toList]

/-- Formatting the code of a character by that verb quotes the character. -/
theorem fill_code (c : Char) : Formatting.fill "%q" [.int c.toNat] = quoteChar c := by
  have hcharacter : Formatting.character c.toNat = c := by
    have hvalid : c.toNat.isValidChar := c.valid
    simp [Formatting.character, hvalid]
  have hbody : Formatting.formatArgument 'q' ⟨{}, none, none⟩ (.int c.toNat) =
      some (quoteChar c).toList := by
    have hdigits : Formatting.integerDigits 'q' (Int.natAbs c.toNat) = none := rfl
    simp only [Formatting.formatArgument, Formatting.formatInteger, hdigits, hcharacter]
  rw [fill_quoted hbody, String.ofList_toList]

/-! ### Reading back -/

/-- Quoting reads back, but for the control characters from U+0080 to U+009F. What formatting by the
verb for quoted forms writes of a text is its literal between double quotes, which has the text for
its value if there are none of these in it, and otherwise no value. What it writes of the code of a
character is its literal between single quotes, which is read as the character if it is none of
these, and otherwise not at all. -/
theorem quoting_reads_back (text : String) (c : Char) :
    Builtin.printf.call [.string "%q", .string text] = .ok (.string (quote text)) ∧
    unquote (quote text) = (if text.toList.any isUpperControl then none else some text) ∧
    Builtin.printf.call [.string "%q", .int c.toNat] = .ok (.string (quoteChar c)) ∧
    unquoteChar (quoteChar c) = if isUpperControl c then none else some c := by
  refine ⟨?_, unquote_quote_eq text, ?_, unquoteChar_quoteChar_eq c⟩
  · rw [← fill_text]
    rfl
  · rw [← fill_code]
    rfl

/-- A control character above ASCII is quoted as no literal that could be read. -/
theorem quoted_upper_control_unreadable :
    quote "\u0080" = "\"\\x80\"" ∧ unquote (quote "\u0080") = none ∧
      quoteChar '\u0085' = "'\\x85'" ∧ unquoteChar (quoteChar '\u0085') = none := by
  rw [unquote_quote_eq, unquoteChar_quoteChar_eq]
  exact ⟨by decide, by decide, by decide, by decide⟩

end Stencil.Literal
