import Mathlib.Data.List.Basic
import Stencil.Function.Collection

/-!
# Arrays and texts as sequences

Arrays and texts are sequences (`IsSequence`): an array of its items, a text of the bytes of its
characters. One sequence may be two of its kind, one behind the other (`Joins`). Of two fronts of a
sequence, the longer one goes on where the shorter one ends (`Joins.refine`), and what is said here
of the parts of a sequence (`Part`) follows from that: parts next to each other make up one
(`Part.join`), a part of a part is one of the whole (`Part.inner_iff`), and a part stands between
two places exactly if the sequence may be taken apart at both (`exists_part_iff`).
-/

set_option autoImplicit false
set_option relaxedAutoImplicit false

namespace Stencil

/-! ### Sequences -/

/-- That `n` bytes of a text are characters that it starts with. -/
def IsBoundary (text : String) (n : Int) : Prop :=
  ∃ front back, text = front ++ back ∧ (front.utf8ByteSize : Int) = n

/-- The size of a text is the number of its bytes. -/
theorem length_bytesOf (text : List Char) :
    (bytesOf text).length = (String.ofList text).utf8ByteSize := by
  induction text with
  | nil => rfl
  | cons c rest ih =>
    rw [String.ofList_cons, String.utf8ByteSize_append, String.utf8ByteSize_singleton, ← ih]
    simp [bytesOf]

namespace Value

/-- That a value is an array or a text. -/
inductive IsSequence : Value → Prop
  | array (items : List Value) : IsSequence (.array items)
  | string (text : String) : IsSequence (.string text)

/-- How many items an array has, or bytes a text. -/
def size : Value → Nat
  | .array items => items.length
  | .string text => text.utf8ByteSize
  | _ => 0

/-- The items of an array, or the bytes of a text as numbers. -/
def cells : Value → List Value
  | .array items => items
  | .string text => (bytesOf text.toList).map fun byte ↦ .int byte.toNat
  | _ => []

theorem length_cells (x : Value) : x.cells.length = x.size := by
  cases x with
  | string text => rw [cells, List.length_map, length_bytesOf, String.ofList_toList, size]
  | _ => rfl

/-- That a sequence is made up of two of its kind, one behind the other. -/
inductive Joins : Value → Value → Value → Prop
  | array (front back : List Value) : Joins (.array front) (.array back) (.array (front ++ back))
  | string (front back : String) : Joins (.string front) (.string back) (.string (front ++ back))

/-- That a part stands in a sequence behind as many items or bytes as `low` says. -/
def Part (x : Value) (low : Nat) (part : Value) : Prop :=
  ∃ before rest after, Joins before rest x ∧ Joins part after rest ∧ before.size = low

/-- That a sequence may be taken apart behind `n` items or bytes. -/
def IsCut (x : Value) (n : Nat) : Prop :=
  ∃ front back, Joins front back x ∧ front.size = n

/-! ### Taking apart -/

section Joins

variable {front middle back rest start whole : Value}

theorem joins_array_iff {items : List Value} :
    Joins front back (.array items) ↔
      ∃ first second, front = .array first ∧ back = .array second ∧ items = first ++ second := by
  constructor
  · rintro ⟨first, second⟩
    exact ⟨first, second, rfl, rfl, rfl⟩
  · rintro ⟨first, second, rfl, rfl, rfl⟩
    exact .array first second

theorem joins_string_iff {text : String} :
    Joins front back (.string text) ↔
      ∃ first second, front = .string first ∧ back = .string second ∧ text = first ++ second := by
  constructor
  · intro h
    generalize htext : Value.string text = x at h
    cases h with
    | array => cases htext
    | string first second => exact ⟨first, second, rfl, rfl, Value.string.inj htext⟩
  · rintro ⟨first, second, rfl, rfl, rfl⟩
    exact .string first second

theorem Joins.isSequence (h : Joins front back whole) :
    IsSequence front ∧ IsSequence back ∧ IsSequence whole := by
  cases h with
  | array first second => exact ⟨.array _, .array _, .array _⟩
  | string first second => exact ⟨.string _, .string _, .string _⟩

theorem Joins.size_eq (h : Joins front back whole) : whole.size = front.size + back.size := by
  cases h with
  | array first second => exact List.length_append
  | string first second => exact String.utf8ByteSize_append

theorem Joins.cells_eq (h : Joins front back whole) :
    whole.cells = front.cells ++ back.cells := by
  cases h with
  | array first second => rfl
  | string first second => simp [cells, bytesOf]

/-- Three parts in a row may be joined from the right. -/
theorem Joins.assoc (hstart : Joins front middle start) (hwhole : Joins start back whole) :
    ∃ rest, Joins front rest whole ∧ Joins middle back rest := by
  cases hstart with
  | array first second =>
    cases hwhole with
    | array _ third => exact ⟨_, by rw [List.append_assoc]; exact .array _ _, .array _ _⟩
  | string first second =>
    cases hwhole with
    | string _ third => exact ⟨_, by rw [String.append_assoc]; exact .string _ _, .string _ _⟩

/-- Three parts in a row may be joined from the left. -/
theorem Joins.assoc_symm (hwhole : Joins front rest whole) (hrest : Joins middle back rest) :
    ∃ start, Joins front middle start ∧ Joins start back whole := by
  cases hrest with
  | array second third =>
    cases hwhole with
    | array first _ => exact ⟨_, .array _ _, by rw [← List.append_assoc]; exact .array _ _⟩
  | string second third =>
    cases hwhole with
    | string first _ => exact ⟨_, .string _ _, by rw [← String.append_assoc]; exact .string _ _⟩

/-- Where a text is made up of two in two ways, one of the fronts continues the other. -/
theorem append_eq_append_cases {first second first' second' : String}
    (h : first ++ second = first' ++ second') :
    (∃ between, first' = first ++ between ∧ second = between ++ second') ∨
      ∃ between, first = first' ++ between ∧ second' = between ++ second := by
  rw [← String.toList_inj, String.toList_append, String.toList_append] at h
  rcases List.append_eq_append_iff.mp h with ⟨between, hfront, hback⟩ | ⟨between, hfront, hback⟩
  · refine .inl ⟨String.ofList between, ?_, ?_⟩ <;>
      rw [← String.toList_inj, String.toList_append, String.toList_ofList] <;> assumption
  · refine .inr ⟨String.ofList between, ?_, ?_⟩ <;>
      rw [← String.toList_inj, String.toList_append, String.toList_ofList] <;> assumption

/-- What stands in front of an empty sequence is the whole. -/
theorem Joins.eq_of_back (h : Joins front back whole) (hback : back.size = 0) : front = whole := by
  cases h with
  | array first second =>
    rw [List.length_eq_zero_iff.mp hback, List.append_nil]
  | string first second =>
    rw [String.utf8ByteSize_eq_zero_iff.mp hback, String.append_empty]

/-- What stands behind an empty sequence is the whole. -/
theorem Joins.eq_of_front (h : Joins front back whole) (hfront : front.size = 0) :
    back = whole := by
  cases h with
  | array first second =>
    rw [List.length_eq_zero_iff.mp hfront, List.nil_append]
  | string first second =>
    rw [String.utf8ByteSize_eq_zero_iff.mp hfront, String.empty_append]

/-- Of two fronts of a sequence, the longer one goes on where the shorter one ends. -/
theorem Joins.refine {front' back' : Value} (h : Joins front back whole)
    (h' : Joins front' back' whole) (hle : front.size ≤ front'.size) :
    ∃ between, Joins front between front' ∧ Joins between back' back := by
  -- Or the first one goes on where the second one ends, and then there is nothing between them.
  have hcases : (∃ between, Joins front between front' ∧ Joins between back' back) ∨
      ∃ between, Joins front' between front ∧ Joins between back back' := by
    cases h with
    | array first second =>
      obtain ⟨first', second', rfl, rfl, heq⟩ := joins_array_iff.mp h'
      rcases List.append_eq_append_iff.mp heq with ⟨between, rfl, rfl⟩ | ⟨between, rfl, rfl⟩
      · exact .inl ⟨.array between, .array _ _, .array _ _⟩
      · exact .inr ⟨.array between, .array _ _, .array _ _⟩
    | string first second =>
      obtain ⟨first', second', rfl, rfl, heq⟩ := joins_string_iff.mp h'
      rcases append_eq_append_cases heq with ⟨between, rfl, rfl⟩ | ⟨between, rfl, rfl⟩
      · exact .inl ⟨.string between, .string _ _, .string _ _⟩
      · exact .inr ⟨.string between, .string _ _, .string _ _⟩
  rcases hcases with hbetween | ⟨between, hfront, hback⟩
  · exact hbetween
  · have hnone : between.size = 0 := by
      have hsize := hfront.size_eq
      omega
    obtain rfl := hfront.eq_of_back hnone
    obtain rfl := hback.eq_of_front hnone
    exact ⟨between, hfront, hback⟩

/-- A sequence is taken apart in one way at each place. -/
theorem Joins.unique {front' back' : Value} (h : Joins front back whole)
    (h' : Joins front' back' whole) (hsize : front.size = front'.size) :
    front = front' ∧ back = back' := by
  obtain ⟨between, hfront, hback⟩ := h.refine h' (Nat.le_of_eq hsize)
  have hnone : between.size = 0 := by
    have hadd := hfront.size_eq
    omega
  exact ⟨hfront.eq_of_back hnone, (hback.eq_of_front hnone).symm⟩

/-- A part ends within the sequence. -/
theorem Part.size_le {x part : Value} {low : Nat} (hpart : Part x low part) :
    low + part.size ≤ x.size := by
  obtain ⟨before, rest, after, houter, hinner, rfl⟩ := hpart
  rw [houter.size_eq, hinner.size_eq]
  omega

theorem Part.isSequence {x part : Value} {low : Nat} (hpart : Part x low part) :
    IsSequence part := by
  obtain ⟨before, rest, after, -, hinner, -⟩ := hpart
  exact hinner.isSequence.1

end Joins

/-! ### Parts of parts -/

section Parts

variable {x part inner next : Value} {low : Nat}

/-- What stands behind a part makes up one part with it. -/
theorem Part.join (hpart : Part x low part) (hnext : Part x (low + part.size) next) :
    ∃ both, Joins part next both ∧ Part x low both := by
  obtain ⟨before, rest, after, houter, hinner, hlow⟩ := hpart
  obtain ⟨before', rest', after', houter', hinner', hlow'⟩ := hnext
  obtain ⟨start, hstart, hsplit⟩ := houter.assoc_symm hinner
  have hsize : start.size = before'.size := by
    have hadd := hstart.size_eq
    omega
  obtain ⟨rfl, rfl⟩ := hsplit.unique houter' hsize
  obtain ⟨both, hboth, hrest⟩ := hinner.assoc_symm hinner'
  exact ⟨both, hboth, before, rest, after', houter, hrest, hlow⟩

/-- What stands in a part is what stands in the whole within its bounds. -/
theorem Part.inner_iff (hpart : Part x low part) {offset : Nat} :
    Part part offset inner ↔ Part x (low + offset) inner ∧ offset + inner.size ≤ part.size := by
  obtain ⟨before, rest, after, houter, hinner, rfl⟩ := hpart
  constructor
  · intro hin
    refine ⟨?_, hin.size_le⟩
    obtain ⟨before', rest', after', houter', hinner', rfl⟩ := hin
    obtain ⟨more, hmore, hrest⟩ := houter'.assoc hinner
    obtain ⟨start, hstart, hsplit⟩ := houter.assoc_symm hmore
    obtain ⟨others, hothers, hlast⟩ := hinner'.assoc hrest
    exact ⟨start, more, others, hsplit, hothers, hstart.size_eq⟩
  · rintro ⟨⟨before', rest', after', houter', hinner', hsize⟩, hle⟩
    obtain ⟨between, hbefore, hbetween⟩ := houter.refine houter' (by omega)
    have hoffset : between.size = offset := by
      have hadd := hbefore.size_eq
      omega
    obtain ⟨start, hstart, hsplit⟩ := hbetween.assoc_symm hinner'
    obtain ⟨remaining, hremaining, -⟩ := hsplit.refine hinner (by
      have hadd := hstart.size_eq
      omega)
    obtain ⟨others, hothers, hlast⟩ := hstart.assoc hremaining
    exact ⟨between, others, remaining, hothers, hlast, hoffset⟩

/-- Something stands between two places exactly if the sequence may be taken apart at both. -/
theorem exists_part_iff {high : Nat} (horder : low ≤ high) :
    (∃ part, Part x low part ∧ low + part.size = high) ↔ IsCut x low ∧ IsCut x high := by
  constructor
  · rintro ⟨part, ⟨before, rest, after, houter, hinner, rfl⟩, rfl⟩
    obtain ⟨start, hstart, hsplit⟩ := houter.assoc_symm hinner
    exact ⟨⟨before, rest, houter, rfl⟩, start, after, hsplit, hstart.size_eq⟩
  · rintro ⟨⟨before, rest, houter, rfl⟩, start, after, hsplit, rfl⟩
    obtain ⟨part, hstart, hinner⟩ := houter.refine hsplit horder
    exact ⟨part, ⟨before, rest, after, houter, hinner, rfl⟩, hstart.size_eq.symm⟩

/-- An array may be taken apart everywhere, and a text between its characters. -/
theorem isCut_iff (hx : IsSequence x) {n : Nat} :
    IsCut x n ↔ n ≤ x.size ∧ ∀ text, x = .string text → IsBoundary text n := by
  constructor
  · rintro ⟨front, back, hjoins, rfl⟩
    refine ⟨by rw [hjoins.size_eq]; omega, ?_⟩
    rintro text rfl
    obtain ⟨first, second, rfl, rfl, rfl⟩ := joins_string_iff.mp hjoins
    exact ⟨first, second, rfl, rfl⟩
  · rintro ⟨hle, htext⟩
    cases hx with
    | array items =>
      refine ⟨.array (items.take n), .array (items.drop n), ?_, List.length_take_of_le hle⟩
      rw [joins_array_iff]
      exact ⟨_, _, rfl, rfl, (List.take_append_drop n items).symm⟩
    | string text =>
      obtain ⟨first, second, rfl, hsize⟩ := htext text rfl
      exact ⟨_, _, .string first second, Int.ofNat.inj hsize⟩

/-- The items or bytes of a part are those of the sequence behind where it stands. -/
theorem Part.getElem?_cells (hpart : Part x low part) {k : Nat} (hk : k < part.size) :
    part.cells[k]? = x.cells[low + k]? := by
  obtain ⟨before, rest, after, houter, hinner, rfl⟩ := hpart
  rw [houter.cells_eq, hinner.cells_eq,
    List.getElem?_append_right (by rw [length_cells]; exact Nat.le_add_right _ _), length_cells,
    Nat.add_sub_cancel_left, List.getElem?_append_left (by rw [length_cells]; exact hk)]

end Parts

end Value

end Stencil
