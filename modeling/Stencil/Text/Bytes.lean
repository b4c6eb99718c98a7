/-!
# Texts as bytes

Lengths and indices of texts count the bytes of their UTF-8 form. `splitAtByte` cuts a text at such
an index, if no character lies across it; `splitAtByte_append` says that the two parts make up the
text and `splitAtByte_length` that the first one has that many bytes. `fromUTF8?_eq_some_iff` says
which bytes are those of a text.
-/

set_option autoImplicit false
set_option relaxedAutoImplicit false

namespace Stencil

/-- The bytes of a text. -/
def bytesOf (text : List Char) : List UInt8 := text.flatMap String.utf8EncodeChar

/-- Bytes are decoded exactly if they are those of a text, and as that text. -/
theorem fromUTF8?_eq_some_iff {bytes : List UInt8} {text : String} :
    String.fromUTF8? ⟨bytes.toArray⟩ = some text ↔ bytes = bytesOf text.toList := by
  have hsame : text.toByteArray.data.toList = bytesOf text.toList := by
    rw [← congrArg String.toByteArray (String.ofList_toList (s := text)),
      String.toByteArray_ofList, List.utf8Encode, List.data_toByteArray, bytesOf]
  rw [← hsame, String.fromUTF8?]
  constructor
  · intro htext
    split at htext
    next hvalid =>
      cases htext
      rfl
    next => cases htext
  · rintro rfl
    exact dif_pos text.isValidUTF8

/-- The two parts of a text before and after an index, if it lies between two characters. -/
def splitAtByte : Nat → List Char → Option (List Char × List Char)
  | 0, text => some ([], text)
  | _ + 1, [] => none
  | n + 1, c :: rest =>
    if c.utf8Size ≤ n + 1 then
      (splitAtByte (n + 1 - c.utf8Size) rest).map fun parts => (c :: parts.1, parts.2)
    else none

/-- The two parts make up the text. -/
theorem splitAtByte_append {n : Nat} {text first second : List Char}
    (split : splitAtByte n text = some (first, second)) : first ++ second = text := by
  induction text generalizing n first with
  | nil =>
    cases n with
    | zero => simp_all [splitAtByte]
    | succ n => simp [splitAtByte] at split
  | cons c rest ih =>
    cases n with
    | zero => simp_all [splitAtByte]
    | succ n =>
      simp only [splitAtByte] at split
      split at split
      · obtain ⟨⟨u, v⟩, found, same⟩ := Option.map_eq_some_iff.mp split
        cases same
        simp [ih found]
      · cases split

/-- The first part has as many bytes as the index says. -/
theorem splitAtByte_length {n : Nat} {text first second : List Char}
    (split : splitAtByte n text = some (first, second)) : (bytesOf first).length = n := by
  induction text generalizing n first with
  | nil =>
    cases n with
    | zero => simp_all [splitAtByte, bytesOf]
    | succ n => simp [splitAtByte] at split
  | cons c rest ih =>
    cases n with
    | zero =>
      simp only [splitAtByte, Option.some.injEq, Prod.mk.injEq] at split
      simp [← split.1, bytesOf]
    | succ n =>
      simp only [splitAtByte] at split
      split at split
      · obtain ⟨⟨u, v⟩, found, same⟩ := Option.map_eq_some_iff.mp split
        cases same
        have := ih found
        simp only [bytesOf, List.flatMap_cons, List.length_append,
          String.length_utf8EncodeChar] at this ⊢
        omega
      · cases split

end Stencil
