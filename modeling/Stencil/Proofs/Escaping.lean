import Mathlib.Data.Bool.AllAny
import Stencil.Function.Builtin
import Stencil.Proofs.Literals.Numerals

/-!
# Escaped texts are inert and read back

Each escaper has a reader that knows nothing of it. `readEntities` replaces the entities of HTML,
`readEscapes` takes the escapes of a script's string literal away, and `readQuery` gives the bytes
of a part of a query; all three go through a text once, from its start. What an escaper writes of a
character is read as that character whatever stands behind it (`readEntities_htmlChar`,
`readEscapes_scriptChar`, `readQuery_queryByte`), so two escapes that stand together are never taken
for a third one, and a text is read back whole.

What may not occur in the escaped text is told apart from the reading: `IsInertMarkup`,
`IsInertScript` and `IsQueryText`. There a character of an escaped text is traced back to the one
that it was written for (`exists_of_flatMap_eq`).
-/

set_option autoImplicit false
set_option relaxedAutoImplicit false

namespace Stencil.Escape

/-! ### Reading -/

/-- The entities of the characters that mark up HTML, with the characters that they stand for. -/
def entities : List (List Char × Char) :=
  [("&#34;".toList, '"'), ("&#39;".toList, '\''), ("&amp;".toList, '&'), ("&lt;".toList, '<'),
    ("&gt;".toList, '>')]

/-- A text with its entities replaced by what they stand for. -/
def readEntities (text : List Char) : List Char :=
  match text with
  | [] => []
  | c :: rest =>
    match entities.find? fun entity ↦ entity.1.isPrefixOf (c :: rest) with
    | some (entity, meant) => meant :: readEntities (rest.drop (entity.length - 1))
    | none => c :: readEntities rest
termination_by text.length
decreasing_by
  all_goals simp only [List.length_drop, List.length_cons]
  all_goals omega

/-- The number that hexadecimal digits with letters in upper case are written for. -/
def readHex (digits : List Char) : Option Nat :=
  digits.foldlM (fun number c ↦ (upperDigits.idxOf? c).map (16 * number + ·)) 0

/-- A text without the escapes of a script's string literal, if it has no other backslashes. -/
def readEscapes : List Char → Option (List Char)
  | [] => some []
  | '\\' :: '\\' :: rest => (readEscapes rest).map ('\\' :: ·)
  | '\\' :: '\'' :: rest => (readEscapes rest).map ('\'' :: ·)
  | '\\' :: '"' :: rest => (readEscapes rest).map ('"' :: ·)
  | '\\' :: 'u' :: a :: b :: c :: d :: rest =>
    match readHex [a, b, c, d] with
    | some code =>
      if code.isValidChar then (readEscapes rest).map (Char.ofNat code :: ·) else none
    | none => none
  | '\\' :: _ => none
  | c :: rest => (readEscapes rest).map (c :: ·)

/-- The bytes that a part of a query stands for, if it has no other percent signs than those of
bytes. -/
def readQuery : List Char → Option (List UInt8)
  | [] => some []
  | '+' :: rest => (readQuery rest).map (0x20 :: ·)
  | '%' :: a :: b :: rest =>
    match readHex [a, b] with
    | some code => (readQuery rest).map (UInt8.ofNat code :: ·)
    | none => none
  | '%' :: _ => none
  | c :: rest =>
    if c.toNat < 0x80 then (readQuery rest).map (UInt8.ofNat c.toNat :: ·) else none

/-! ### What may not occur -/

/-- That nothing in a text marks up HTML, but for the ampersands that start entities. -/
structure IsInertMarkup (text : List Char) : Prop where
  plain : ∀ c ∈ text, c ∉ ['<', '>', '"', '\'', '\x00']
  ampersand : ∀ before after, text = before ++ '&' :: after →
    ∃ entity ∈ entities, entity.1 <+: '&' :: after

/-- That a text keeps inside a string literal of a script: it has no character that HTML or the
script could take for its own, and a quote in it stands behind the backslash of its own escape, so
that what is in front of that backslash and what is behind the quote are read on their own. -/
structure IsInertScript (text : List Char) : Prop where
  plain : ∀ c ∈ text, c ∉ ['<', '>', '&', '='] ∧ 0x20 ≤ c.toNat
  quote : ∀ before after mark, text = before ++ mark :: after → mark ∈ ['"', '\''] →
    ∃ head first last, before = head ++ ['\\'] ∧ readEscapes head = some first ∧
      readEscapes after = some last ∧ readEscapes text = some (first ++ mark :: last)

/-- A unit of a query: a letter, a digit or a mark, or a byte as a percent sign and two digits. -/
inductive IsQueryUnit : List Char → Prop
  | plain {c : Char} (hc : c.isAlphanum = true ∨ c ∈ ['-', '_', '.', '~', '+']) : IsQueryUnit [c]
  | byte {high low : Char} (hhigh : high ∈ upperDigits) (hlow : low ∈ upperDigits) :
    IsQueryUnit ['%', high, low]

/-- That a text consists of units of a query. -/
def IsQueryText (text : List Char) : Prop :=
  ∃ units : List (List Char), text = units.flatten ∧ ∀ unit ∈ units, IsQueryUnit unit

/-! ### Characters of an escaped text -/

/-- A character of a text that is written piece by piece is one of the piece written for some
character. -/
theorem exists_of_flatMap_eq {write : Char → List Char} {text before after : List Char} {x : Char}
    (heq : text.flatMap write = before ++ x :: after) :
    ∃ head c tail first last, text = head ++ c :: tail ∧ write c = first ++ x :: last ∧
      before = head.flatMap write ++ first ∧ after = last ++ tail.flatMap write := by
  induction text generalizing before with
  | nil => simp at heq
  | cons c text ih =>
    rw [List.flatMap_cons] at heq
    rcases List.append_eq_append_iff.mp heq with ⟨between, rfl, hrest⟩ | ⟨between, hc, hrest⟩
    · obtain ⟨head, d, tail, first, last, rfl, hd, rfl, rfl⟩ := ih hrest
      exact ⟨c :: head, d, tail, first, last, rfl, hd, by simp, rfl⟩
    · cases between with
      | nil =>
        rw [List.append_nil] at hc
        obtain ⟨head, d, tail, first, last, rfl, hd, hnil, rfl⟩ :=
          ih (show text.flatMap write = [] ++ x :: after from hrest.symm)
        refine ⟨c :: head, d, tail, first, last, rfl, hd, ?_, rfl⟩
        rw [List.flatMap_cons, List.append_assoc, ← hnil, List.append_nil, hc]
      | cons y between =>
        obtain ⟨rfl, rfl⟩ := List.cons.inj hrest
        exact ⟨[], c, text, before, between, rfl, hc, rfl, rfl⟩

/-! ### Markup -/

/-- A character is written as its entity, as the replacement character, or as it is. -/
theorem htmlChar_cases (c : Char) :
    (∃ entity, (entity, c) ∈ entities ∧ htmlChar c = entity) ∨
    (c = '\x00' ∧ htmlChar c = ['\ufffd']) ∨
    (c ∉ ['<', '>', '"', '\'', '&', '\x00'] ∧ htmlChar c = [c]) := by
  obtain ⟨written, hwritten⟩ : ∃ written, written = htmlChar c := ⟨_, rfl⟩
  rw [← hwritten]
  rw [htmlChar] at hwritten
  split_ifs at hwritten with hdouble hsingle hand hless hgreater hnul
  · exact .inl ⟨_, by rw [hdouble]; decide, hwritten⟩
  · exact .inl ⟨_, by rw [hsingle]; decide, hwritten⟩
  · exact .inl ⟨_, by rw [hand]; decide, hwritten⟩
  · exact .inl ⟨_, by rw [hless]; decide, hwritten⟩
  · exact .inl ⟨_, by rw [hgreater]; decide, hwritten⟩
  · exact .inr (.inl ⟨hnul, hwritten⟩)
  · exact .inr (.inr ⟨by simp [*], hwritten⟩)

/-- An entity is read as the character that it stands for. -/
theorem readEntities_entity {entity : List Char} {c : Char} (hentity : (entity, c) ∈ entities)
    (rest : List Char) : readEntities (entity ++ rest) = c :: readEntities rest := by
  simp only [entities, List.mem_cons, Prod.mk.injEq, List.not_mem_nil, or_false] at hentity
  rcases hentity with ⟨rfl, rfl⟩ | ⟨rfl, rfl⟩ | ⟨rfl, rfl⟩ | ⟨rfl, rfl⟩ | ⟨rfl, rfl⟩ <;>
  · simp [readEntities, entities]

/-- Any other character than an ampersand is read as it is. -/
theorem readEntities_cons {c : Char} (hc : c ≠ '&') (rest : List Char) :
    readEntities (c :: rest) = c :: readEntities rest := by
  have hnone : entities.find? (fun entity ↦ entity.1.isPrefixOf (c :: rest)) = none := by
    simp [entities, Ne.symm hc]
  rw [readEntities, hnone]

/-- What a character is written as is read as the character, or as the replacement character. -/
theorem readEntities_htmlChar (c : Char) (rest : List Char) :
    readEntities (htmlChar c ++ rest) =
      (if c = '\x00' then '\ufffd' else c) :: readEntities rest := by
  rcases htmlChar_cases c with
      ⟨entity, hentity, hwritten⟩ | ⟨rfl, hwritten⟩ | ⟨hplain, hwritten⟩ <;> rw [hwritten]
  · have hnul : ∀ entity ∈ entities, entity.2 ≠ '\x00' := by decide
    rw [readEntities_entity hentity, if_neg (hnul _ hentity)]
  · rw [List.singleton_append, readEntities_cons (by decide), if_pos rfl]
  · simp only [List.mem_cons, List.not_mem_nil, or_false, not_or] at hplain
    rw [List.singleton_append, readEntities_cons hplain.2.2.2.2.1, if_neg hplain.2.2.2.2.2]

/-- A text in HTML reads back, with the replacement character for each null. -/
theorem readEntities_html (text : List Char) :
    readEntities (html text) = text.map fun c ↦ if c = '\x00' then '\ufffd' else c := by
  induction text with
  | nil => rw [html, List.flatMap_nil, readEntities, List.map_nil]
  | cons c text ih => rw [html, List.flatMap_cons, readEntities_htmlChar, ← html, ih, List.map_cons]

/-- Nothing in a text in HTML marks anything up. -/
theorem isInertMarkup_html (text : List Char) : IsInertMarkup (html text) where
  plain := by
    intro written hwritten
    obtain ⟨c, -, hc⟩ := List.mem_flatMap.mp hwritten
    rcases htmlChar_cases c with ⟨entity, hentity, heq⟩ | ⟨-, heq⟩ | ⟨hplain, heq⟩ <;>
      rw [heq] at hc
    · have hentities : ∀ entity ∈ entities,
          entity.1.all fun c ↦ c ∉ ['<', '>', '"', '\'', '\x00'] := by
        decide
      exact List.all_iff_forall_prop.mp (hentities _ hentity) written hc
    · rw [List.mem_singleton.mp hc]
      decide
    · rw [List.mem_singleton.mp hc]
      simp_all
  ampersand := by
    intro before after heq
    obtain ⟨head, c, tail, first, last, -, hc, -, rfl⟩ := exists_of_flatMap_eq heq
    rcases htmlChar_cases c with
        ⟨entity, hentity, hwritten⟩ | ⟨-, hwritten⟩ | ⟨hplain, hwritten⟩ <;> rw [hwritten] at hc
    · cases first with
      | nil => exact ⟨_, hentity, tail.flatMap htmlChar, by rw [hc]; rfl⟩
      | cons d first =>
        -- an entity has no other ampersand than its first character
        have honce : ∀ entity ∈ entities, '&' ∉ entity.1.tail := by decide
        exact absurd (by rw [hc]; simp) (honce _ hentity)
    · have hmem : '&' ∈ ['\ufffd'] := hc ▸ by simp
      exact absurd hmem (by decide)
    · have hmem : '&' ∈ [c] := hc ▸ by simp
      rw [List.mem_singleton] at hmem
      simp [← hmem] at hplain

/-! ### Scripts -/

/-- A byte is written as so many digits that are read as the byte. -/
theorem upperHex_spec {width code : Nat} (hwidth : width ∈ [2, 4]) (hcode : code < 0x100) :
    (upperHex width code).length = width ∧ (∀ digit ∈ upperHex width code, digit ∈ upperDigits) ∧
      readHex (upperHex width code) = some code := by
  have hall : ∀ width ∈ [2, 4], ∀ code < 0x100, (upperHex width code).length = width ∧
      ((upperHex width code).all fun digit ↦ digit ∈ upperDigits) ∧
      readHex (upperHex width code) = some code := by
    decide +kernel
  obtain ⟨hlength, hdigits, hvalue⟩ := hall width hwidth code hcode
  exact ⟨hlength, List.all_iff_forall_prop.mp hdigits, hvalue⟩

/-- A character is written behind a backslash, by its code, or as it is. -/
theorem scriptChar_cases (c : Char) :
    (c ∈ ['\\', '\'', '"'] ∧ scriptChar c = ['\\', c]) ∨
    (∃ digits, digits.length = 4 ∧ (∀ digit ∈ digits, digit ∈ upperDigits) ∧
      readHex digits = some c.toNat ∧ scriptChar c = '\\' :: 'u' :: digits) ∨
    (c ∉ ['\\', '\'', '"', '<', '>', '&', '='] ∧ 0x20 ≤ c.toNat ∧ scriptChar c = [c]) := by
  obtain ⟨written, hwritten⟩ : ∃ written, written = scriptChar c := ⟨_, rfl⟩
  rw [← hwritten]
  rw [scriptChar] at hwritten
  split_ifs at hwritten with hquoted hcoded
  · exact .inl ⟨by simpa [or_assoc] using hquoted, hwritten⟩
  · have hcode : c.toNat < 0x100 := by
      simp only [Bool.or_eq_true, decide_eq_true_eq, or_assoc] at hcoded
      rcases hcoded with rfl | rfl | rfl | rfl | hcontrol
      · decide
      · decide
      · decide
      · decide
      · omega
    obtain ⟨hlength, hdigits, hvalue⟩ := upperHex_spec (show 4 ∈ [2, 4] by decide) hcode
    exact .inr (.inl ⟨_, hlength, hdigits, hvalue, hwritten⟩)
  · simp only [Bool.or_eq_true, decide_eq_true_eq, not_or] at hquoted hcoded
    exact .inr (.inr ⟨by simp [*], by omega, hwritten⟩)

/-- What a character is written as is read as the character. -/
theorem readEscapes_scriptChar (c : Char) (rest : List Char) :
    readEscapes (scriptChar c ++ rest) = (readEscapes rest).map (c :: ·) := by
  rcases scriptChar_cases c with ⟨hc, hwritten⟩ | ⟨digits, hlength, -, hvalue, hwritten⟩ |
    ⟨hplain, -, hwritten⟩ <;> rw [hwritten]
  · simp only [List.mem_cons, List.not_mem_nil, or_false] at hc
    rcases hc with rfl | rfl | rfl <;> rfl
  · obtain ⟨x, y, z, w, rfl⟩ : ∃ x y z w, digits = [x, y, z, w] := by
      match digits, hlength with
      | [x, y, z, w], _ => exact ⟨x, y, z, w, rfl⟩
    have hvalid : c.toNat.isValidChar := c.valid
    simp [readEscapes, hvalue, hvalid]
  · rw [List.singleton_append, readEscapes]
    all_goals simp_all

/-- A text in a script reads back. -/
theorem readEscapes_script (text : List Char) : readEscapes (script text) = some text := by
  induction text with
  | nil => rfl
  | cons c text ih => rw [script, List.flatMap_cons, readEscapes_scriptChar, ← script, ih]; rfl

/-- A quote is written for a quote, behind a backslash. -/
theorem eq_of_scriptChar_eq {c mark : Char} {first last : List Char} (hmark : mark ∈ ['"', '\''])
    (heq : scriptChar c = first ++ mark :: last) : c = mark ∧ first = ['\\'] ∧ last = [] := by
  have hmem : mark ∈ scriptChar c := by simp [heq]
  rcases scriptChar_cases c with ⟨-, hwritten⟩ | ⟨digits, -, hdigits, -, hwritten⟩ |
    ⟨hplain, -, hwritten⟩ <;> rw [hwritten] at heq hmem
  · have hbackslash : mark ≠ '\\' := by
      rintro rfl
      exact absurd hmark (by decide)
    cases first with
    | nil => exact absurd (List.cons.inj heq).1.symm hbackslash
    | cons d first =>
      obtain ⟨rfl, hrest⟩ := List.cons.inj heq
      cases first with
      | nil =>
        obtain ⟨rfl, rfl⟩ := List.cons.inj hrest
        exact ⟨rfl, rfl, rfl⟩
      | cons e first => simp at hrest
  · have hdigit : mark ∉ '\\' :: 'u' :: upperDigits := by
      have hall : ∀ mark ∈ ['"', '\''], mark ∉ '\\' :: 'u' :: upperDigits :=
        List.all_iff_forall_prop.mp (by decide)
      exact hall mark hmark
    simp only [List.mem_cons] at hdigit hmem
    exact absurd (hmem.imp_right (Or.imp_right (hdigits _))) hdigit
  · obtain rfl := List.mem_singleton.mp hmem
    simp only [List.mem_cons, List.not_mem_nil, or_false, not_or] at hplain hmark
    exact absurd hmark (not_or.mpr ⟨hplain.2.2.1, hplain.2.1⟩)

/-- A text in a script stays in its literal. -/
theorem isInertScript_script (text : List Char) : IsInertScript (script text) where
  plain := by
    intro written hwritten
    obtain ⟨c, -, hc⟩ := List.mem_flatMap.mp hwritten
    rcases scriptChar_cases c with ⟨hquoted, heq⟩ | ⟨digits, -, hdigits, -, heq⟩ |
      ⟨hplain, hcode, heq⟩ <;> rw [heq] at hc
    · have hall : ∀ d ∈ ['\\', '\'', '"'], d ∉ ['<', '>', '&', '='] ∧ 0x20 ≤ d.toNat :=
        List.all_iff_forall_prop.mp (by decide)
      have hmem : written ∈ ['\\', '\'', '"'] := by
        rcases List.mem_pair.mp hc with rfl | rfl
        · decide
        · exact hquoted
      exact hall _ hmem
    · have hall : ∀ d ∈ '\\' :: 'u' :: upperDigits, d ∉ ['<', '>', '&', '='] ∧ 0x20 ≤ d.toNat :=
        List.all_iff_forall_prop.mp (by decide)
      refine hall _ ?_
      simp only [List.mem_cons] at hc ⊢
      exact hc.imp_right (Or.imp_right (hdigits _))
    · obtain rfl := List.mem_singleton.mp hc
      exact ⟨by simp_all, hcode⟩
  quote := by
    intro before after mark heq hmark
    obtain ⟨head, c, tail, first, last, htext, hc, rfl, rfl⟩ := exists_of_flatMap_eq heq
    obtain ⟨rfl, rfl, rfl⟩ := eq_of_scriptChar_eq hmark hc
    exact ⟨_, _, _, rfl, readEscapes_script head, readEscapes_script tail,
      htext ▸ readEscapes_script text⟩

/-! ### Queries -/

/-- A byte is a unit of a query. -/
theorem queryByte_cases (byte : UInt8) :
    (∃ c : Char, (c.isAlphanum = true ∨ c ∈ ['-', '_', '.', '~']) ∧ c.toNat < 0x80 ∧
      UInt8.ofNat c.toNat = byte ∧ queryByte byte = [c]) ∨
    (byte = 0x20 ∧ queryByte byte = ['+']) ∨
    (∃ high low, high ∈ upperDigits ∧ low ∈ upperDigits ∧ readHex [high, low] = some byte.toNat ∧
      queryByte byte = ['%', high, low]) := by
  rw [queryByte]
  split
  next hunreserved =>
    simp only [isUnreserved, Bool.and_eq_true, decide_eq_true_eq, Bool.or_eq_true] at hunreserved
    obtain ⟨hascii, hunreserved⟩ := hunreserved
    have hcode : (Char.ofNat byte.toNat).toNat = byte.toNat := by
      have hvalid : byte.toNat.isValidChar := .inl (by omega)
      rw [Char.ofNat, dif_pos hvalid]
      rfl
    refine .inl ⟨_, ?_, by rwa [hcode], by rw [hcode, UInt8.ofNat_toNat], rfl⟩
    simpa [or_assoc] using hunreserved
  next =>
    split
    next hblank => exact .inr (.inl ⟨hblank, rfl⟩)
    next =>
      obtain ⟨hlength, hdigits, hvalue⟩ := upperHex_spec (show 2 ∈ [2, 4] by decide) byte.toNat_lt
      obtain ⟨high, low, heq⟩ := List.length_eq_two.mp hlength
      rw [heq] at hdigits hvalue ⊢
      exact .inr (.inr ⟨high, low, hdigits _ (by simp), hdigits _ (by simp), hvalue, rfl⟩)

/-- What a byte is written as is read as the byte. -/
theorem readQuery_queryByte (byte : UInt8) (rest : List Char) :
    readQuery (queryByte byte ++ rest) = (readQuery rest).map (byte :: ·) := by
  rcases queryByte_cases byte with ⟨c, hc, hascii, rfl, hwritten⟩ | ⟨rfl, hwritten⟩ |
    ⟨high, low, -, -, hvalue, hwritten⟩ <;> rw [hwritten]
  · have hmarks : c ≠ '+' ∧ c ≠ '%' := by
      constructor <;> rintro rfl <;> exact absurd hc (by decide)
    rw [List.singleton_append, readQuery, if_pos hascii] <;> simp_all
  · rfl
  · simp [readQuery, hvalue]

/-- A text in a query reads back as its bytes. -/
theorem readQuery_flatMap (bytes : List UInt8) :
    readQuery (bytes.flatMap queryByte) = some bytes := by
  induction bytes with
  | nil => rfl
  | cons byte bytes ih => rw [List.flatMap_cons, readQuery_queryByte, ih]; rfl

/-- A text in a query consists of its units. -/
theorem isQueryText_query (text : List Char) : IsQueryText (query text) := by
  refine ⟨(bytesOf text).map queryByte, rfl, ?_⟩
  intro unit hunit
  obtain ⟨byte, -, rfl⟩ := List.mem_map.mp hunit
  rcases queryByte_cases byte with ⟨c, hc, -, -, hwritten⟩ | ⟨-, hwritten⟩ |
    ⟨high, low, hhigh, hlow, -, hwritten⟩ <;> rw [hwritten]
  · exact .plain (hc.imp_right fun hmark ↦ List.mem_append_left ['+'] hmark)
  · exact .plain (.inr (by decide))
  · exact .byte hhigh hlow

/-- The bytes of a text are those of its form in UTF-8. -/
theorem bytesOf_toList (text : String) : bytesOf text.toList = text.toUTF8.data.toList := by
  refine (fromUTF8?_eq_some_iff.mp ?_).symm
  rw [Array.toArray_toList, String.fromUTF8?]
  exact dif_pos text.isValidUTF8

/-! ### Calls -/

/-- The escapers are safe and lossless. What each writes for a text has nothing in it that HTML, a
script or a query would take for its own, and the text can be read from it, in HTML with the
replacement character for each null and in a query as its bytes. For any arguments an escaper gives
what it gives for the one text that they print as. -/
theorem escapers_inert_lossless (text : String) (arguments : List Value) :
    (∃ written : String, Builtin.html.call [.string text] = .ok (.string written) ∧
      IsInertMarkup written.toList ∧
      readEntities written.toList =
        text.toList.map fun c ↦ if c = '\x00' then '\ufffd' else c) ∧
    (∃ written : String, Builtin.js.call [.string text] = .ok (.string written) ∧
      IsInertScript written.toList ∧ readEscapes written.toList = some text.toList) ∧
    (∃ written : String, Builtin.urlquery.call [.string text] = .ok (.string written) ∧
      IsQueryText written.toList ∧ readQuery written.toList = some text.toUTF8.data.toList) ∧
    ∃ printed : String, Builtin.print.call arguments = .ok (.string printed) ∧
      Builtin.html.call arguments = Builtin.html.call [.string printed] ∧
      Builtin.js.call arguments = Builtin.js.call [.string printed] ∧
      Builtin.urlquery.call arguments = Builtin.urlquery.call [.string printed] := by
  have hinput : Builtin.escapeInput [.string text] = text.toList := rfl
  refine ⟨⟨_, rfl, ?_, ?_⟩, ⟨_, rfl, ?_, ?_⟩, ⟨_, rfl, ?_, ?_⟩, _, rfl, rfl, rfl, rfl⟩
  · rw [String.toList_ofList]
    exact isInertMarkup_html _
  · rw [String.toList_ofList, readEntities_html, hinput]
  · rw [String.toList_ofList]
    exact isInertScript_script _
  · rw [String.toList_ofList, readEscapes_script, hinput]
  · rw [String.toList_ofList]
    exact isQueryText_query _
  · rw [String.toList_ofList, query, readQuery_flatMap, hinput]
    exact congrArg some (bytesOf_toList text)

end Stencil.Escape
