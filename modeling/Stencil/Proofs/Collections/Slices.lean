import Stencil.Function.Builtin
import Stencil.Proofs.Collections.Sequences

/-!
# Lengths, indices and parts agree

A part of a sequence is taken by two bounds exactly if it stands between them
(`Builtin.slice_eq_ok_iff`), and an item by an index exactly if it stands there
(`Builtin.index_eq_ok_iff`). How calls relate to one another (`Builtin.slice_index_len`) is then a
matter of sequences alone.

A size is taken to be a signed word, as that of anything held in memory is. An integer beyond those
is no index at all.
-/

set_option autoImplicit false
set_option relaxedAutoImplicit false

namespace Stencil

open Number

/-! ### Texts by their bytes -/

/-- A text is cut at an index exactly if the bytes in front of it are characters. -/
theorem splitAtByte_eq_some_iff {n : Nat} {text front back : List Char} :
    splitAtByte n text = some (front, back) ↔
      text = front ++ back ∧ (bytesOf front).length = n := by
  constructor
  · exact fun hsplit ↦ ⟨(splitAtByte_append hsplit).symm, splitAtByte_length hsplit⟩
  · rintro ⟨rfl, hlength⟩
    induction front generalizing n with
    | nil =>
      obtain rfl : n = 0 := hlength.symm
      cases back <;> rfl
    | cons c rest ih =>
      have hpos := Char.utf8Size_pos c
      have hsum : n = c.utf8Size + (bytesOf rest).length := by
        rw [← hlength]
        simp [bytesOf]
      obtain ⟨m, rfl⟩ := Nat.exists_eq_succ_of_ne_zero (show n ≠ 0 by omega)
      have hrest : (bytesOf rest).length = m + 1 - c.utf8Size := by omega
      rw [List.cons_append, splitAtByte, if_pos (by omega), ih hrest]
      rfl

/-- A part of a text is what stands between two characters at its bounds. -/
theorem textSlice_eq_ok_iff {text part : String} {low high : Nat} :
    Value.textSlice text low high = .ok part ↔
      ∃ before after, text = before ++ (part ++ after) ∧ before.utf8ByteSize = low ∧
        part.utf8ByteSize = high - low := by
  unfold Value.textSlice
  constructor
  · intro hslice
    split at hslice
    next => cases hslice
    next before rest hfirst =>
      split at hslice
      next => cases hslice
      next inner after hsecond =>
        obtain rfl : String.ofList inner = part := Except.ok.inj hslice
        obtain ⟨htext, hbefore⟩ := splitAtByte_eq_some_iff.mp hfirst
        obtain ⟨rfl, hinner⟩ := splitAtByte_eq_some_iff.mp hsecond
        rw [length_bytesOf] at hbefore hinner
        refine ⟨String.ofList before, String.ofList after, ?_, hbefore, hinner⟩
        rw [← String.toList_inj, htext]
        simp
  · rintro ⟨before, after, rfl, hbefore, hpart⟩
    have hfirst : splitAtByte low (before ++ (part ++ after)).toList =
        some (before.toList, (part ++ after).toList) := by
      rw [splitAtByte_eq_some_iff, length_bytesOf, String.ofList_toList, String.toList_append]
      exact ⟨rfl, hbefore⟩
    have hsecond : splitAtByte (high - low) (part ++ after).toList =
        some (part.toList, after.toList) := by
      rw [splitAtByte_eq_some_iff, length_bytesOf, String.ofList_toList, String.toList_append]
      exact ⟨rfl, hpart⟩
    simp only [hfirst, hsecond, String.ofList_toList]

namespace Value

/-! ### Indices and bounds -/

/-- An integer is an index if it is one of those below the size. -/
theorem index_int_eq_ok_iff {limit : Nat} (hlimit : limit ≤ Word.signedLimit) {i : Int} {n : Nat} :
    (Value.int i).index limit = .ok n ↔ i = n ∧ n < limit := by
  unfold index signed?
  by_cases hsigned : i < Word.signedLimit
  · simp only [hsigned, if_true]
    by_cases hrange : (0 ≤ i && i.toNat < limit) = true
    · simp only [hrange, if_true, Except.ok.injEq]
      simp only [Bool.and_eq_true, decide_eq_true_eq] at hrange
      omega
    · simp only [hrange, Bool.false_eq_true, if_false, reduceCtorEq, false_iff]
      simp only [Bool.and_eq_true, decide_eq_true_eq] at hrange
      omega
  · simp only [hsigned, if_false, reduceCtorEq, false_iff]
    omega

/-- Two integers are the bounds of a part if they are in order and the second one is at most the
size. -/
theorem bounds_int_eq_ok_iff {limit : Nat} (hlimit : limit < Word.signedLimit) {i j : Int}
    {low high : Nat} :
    bounds limit [.int i, .int j] = .ok (low, high) ↔
      i = low ∧ j = high ∧ low ≤ high ∧ high ≤ limit := by
  have hindex (k : Int) (n : Nat) := @index_int_eq_ok_iff (limit + 1) hlimit k n
  simp only [bounds, bound, List.getElem?_cons_zero, List.getElem?_cons_succ]
  constructor
  · intro hbounds
    cases hlow : (Value.int i).index (limit + 1) with
    | error fault => rw [hlow] at hbounds; cases hbounds
    | ok first =>
      cases hhigh : (Value.int j).index (limit + 1) with
      | error fault => rw [hlow, hhigh] at hbounds; cases hbounds
      | ok second =>
        rw [hlow, hhigh] at hbounds
        change (if second < first then _ else _) = _ at hbounds
        split_ifs at hbounds with horder
        cases hbounds
        obtain ⟨hi, -⟩ := (hindex i low).mp hlow
        obtain ⟨hj, hle⟩ := (hindex j high).mp hhigh
        exact ⟨hi, hj, by omega, by omega⟩
  · rintro ⟨hi, hj, horder, hle⟩
    rw [(hindex i low).mpr ⟨hi, by omega⟩, (hindex j high).mpr ⟨hj, by omega⟩]
    exact if_neg (Nat.not_lt.mpr horder)

/-! ### What stands there -/

section Standing

variable {x part : Value}

/-- The part of an array between two bounds in order is what stands there. -/
theorem part_array_iff {items : List Value} {low high : Nat} (horder : low ≤ high)
    (hle : high ≤ items.length) :
    Value.array ((items.take high).drop low) = part ↔
      Part (.array items) low part ∧ part.size = high - low := by
  constructor
  · rintro rfl
    have hrest : (items.take high).drop low ++ items.drop high = items.drop low := by
      rw [← List.drop_append_of_le_length (by rw [List.length_take]; omega),
        List.take_append_drop]
    have hinner := Joins.array ((items.take high).drop low) (items.drop high)
    have houter := Joins.array (items.take low) (items.drop low)
    rw [hrest] at hinner
    rw [List.take_append_drop] at houter
    refine ⟨⟨_, _, _, houter, hinner, ?_⟩, ?_⟩
    · simp only [size, List.length_take]
      omega
    · simp only [size, List.length_drop, List.length_take]
      omega
  · rintro ⟨⟨before, rest, after, houter, hinner, hbefore⟩, hpart⟩
    obtain ⟨first, second, rfl, rfl, rfl⟩ := joins_array_iff.mp houter
    obtain ⟨inner, last, rfl, rfl, rfl⟩ := joins_array_iff.mp hinner
    have hfirst : first.length = low := hbefore
    have hlength : inner.length = high - low := hpart
    rw [List.drop_take, List.drop_left' hfirst, List.take_left' hlength]

/-- The part of a text between two bounds is what stands there, where there is any. -/
theorem part_string_iff {text : String} {low high : Nat} :
    (textSlice text low high).map Value.string = .ok part ↔
      Part (.string text) low part ∧ part.size = high - low := by
  constructor
  · intro hslice
    cases hinner : textSlice text low high with
    | error fault => rw [hinner] at hslice; cases hslice
    | ok inner =>
      rw [hinner] at hslice
      obtain rfl : Value.string inner = part := Except.ok.inj hslice
      obtain ⟨before, after, rfl, hbefore, hpart⟩ := textSlice_eq_ok_iff.mp hinner
      exact ⟨⟨_, _, _, .string before _, .string inner after, hbefore⟩, hpart⟩
  · rintro ⟨⟨before, rest, after, houter, hinner, hbefore⟩, hpart⟩
    obtain ⟨first, second, rfl, rfl, rfl⟩ := joins_string_iff.mp houter
    obtain ⟨inner, last, rfl, rfl, rfl⟩ := joins_string_iff.mp hinner
    rw [textSlice_eq_ok_iff.mpr ⟨first, last, rfl, hbefore, hpart⟩]
    rfl

/-- A sequence is cut between its bounds, at what stands there. -/
theorem exists_cut (hx : IsSequence x) :
    ∃ cut : Nat → Nat → Except CallFault Value,
      (∀ keys, x.slice keys = do
        let (low, high) ← bounds x.size keys
        cut low high) ∧
      ∀ low high part, low ≤ high → high ≤ x.size →
        (cut low high = .ok part ↔ Part x low part ∧ part.size = high - low) := by
  cases hx with
  | array items =>
    refine ⟨fun low high ↦ .ok (.array ((items.take high).drop low)), fun keys ↦ rfl, ?_⟩
    intro low high part horder hle
    rw [Except.ok.injEq]
    exact part_array_iff horder hle
  | string text =>
    refine ⟨fun low high ↦ (textSlice text low high).map .string, fun keys ↦ rfl, ?_⟩
    intro low high part _ _
    exact part_string_iff

/-- An item of a sequence is taken by its index, and is what stands there. -/
theorem exists_item (hx : IsSequence x) :
    ∃ read : Nat → Value, (∀ key, x.item key = (key.index x.size).map read) ∧
      ∀ n < x.size, x.cells[n]? = some (read n) := by
  cases hx with
  | array items =>
    refine ⟨fun n ↦ items.getD n .null, fun key ↦ rfl, fun n hn ↦ ?_⟩
    have hitem : items[n]? = some items[n] := List.getElem?_eq_getElem hn
    change items[n]? = some (items.getD n .null)
    rw [List.getD_eq_getElem?_getD, hitem, Option.getD_some]
  | string text =>
    refine ⟨fun n ↦ .int (((bytesOf text.toList)[n]?).getD 0).toNat, fun key ↦ rfl, fun n hn ↦ ?_⟩
    have hlength : n < (bytesOf text.toList).length := by
      rwa [length_bytesOf, String.ofList_toList]
    have hbyte := List.getElem?_eq_getElem hlength
    change _ = some (Value.int (((bytesOf text.toList)[n]?).getD 0).toNat)
    rw [cells, List.getElem?_map, hbyte, Option.map_some, Option.getD_some]

end Standing

end Value

/-! ### Calls -/

namespace Builtin

open Value

section Calls

variable {x part item : Value} {i j : Int}

/-- A part is taken by two bounds exactly if it stands between them. -/
theorem slice_eq_ok_iff (hx : IsSequence x) (hsize : x.size < Word.signedLimit) :
    slice.call [x, .int i, .int j] = .ok part ↔
      ∃ low : Nat, Part x low part ∧ i = low ∧ j = low + part.size := by
  change x.slice [.int i, .int j] = .ok part ↔ _
  obtain ⟨cut, hslice, hcut⟩ := exists_cut hx
  rw [hslice]
  constructor
  · intro hcall
    cases hbounds : bounds x.size [.int i, .int j] with
    | error fault => rw [hbounds] at hcall; cases hcall
    | ok pair =>
      obtain ⟨low, high⟩ := pair
      rw [hbounds] at hcall
      obtain ⟨hi, hj, horder, hle⟩ := (bounds_int_eq_ok_iff hsize).mp hbounds
      obtain ⟨hpart, hlength⟩ := (hcut low high part horder hle).mp hcall
      exact ⟨low, hpart, hi, by omega⟩
  · rintro ⟨low, hpart, hi, hj⟩
    have hle := hpart.size_le
    rw [(bounds_int_eq_ok_iff hsize).mpr ⟨hi, by omega, by omega, hle⟩]
    exact (hcut _ _ part (by omega) hle).mpr ⟨hpart, by omega⟩

/-- A call with keys goes from item to item. -/
theorem index_call (value : Value) (keys : List Value) :
    index.call (value :: keys) = keys.foldlM Value.item value := rfl

theorem index_call_single (value key : Value) : index.call [value, key] = value.item key := by
  rw [index_call, List.foldlM_cons]
  exact bind_pure _

/-- An item is taken by an index exactly if it stands there. -/
theorem index_eq_ok_iff (hx : IsSequence x) (hsize : x.size < Word.signedLimit) :
    index.call [x, .int i] = .ok item ↔ ∃ n : Nat, i = n ∧ x.cells[n]? = some item := by
  obtain ⟨read, hitem, hcell⟩ := exists_item hx
  have hindex (n : Nat) := @index_int_eq_ok_iff x.size (Nat.le_of_lt hsize) i n
  rw [index_call_single, hitem]
  constructor
  · intro hfound
    cases hkey : (Value.int i).index x.size with
    | error fault => rw [hkey] at hfound; cases hfound
    | ok n =>
      rw [hkey] at hfound
      obtain rfl : read n = item := Except.ok.inj hfound
      obtain ⟨hi, hn⟩ := (hindex n).mp hkey
      exact ⟨n, hi, hcell n hn⟩
  · rintro ⟨n, hi, hfound⟩
    have hn : n < x.size := by
      rw [← length_cells]
      exact (List.getElem?_eq_some_iff.mp hfound).1
    rw [hcell n hn] at hfound
    rw [(hindex n).mpr ⟨hi, hn⟩, ← Option.some.inj hfound]
    rfl

/-- A call with several keys goes on from the item of the first one. -/
theorem index_call_cons (value key : Value) (keys : List Value) :
    index.call (value :: key :: keys) =
      index.call [value, key] >>= fun item ↦ index.call (item :: keys) := by
  rw [index_call_single, index_call, List.foldlM_cons]
  rfl

/-- A chain of keys fails exactly where a step of it does. -/
theorem index_eq_error_iff (value : Value) (keys : List Value) (fault : CallFault) :
    index.call (value :: keys) = .error fault ↔
      ∃ front key back item, keys = front ++ key :: back ∧
        index.call (value :: front) = .ok item ∧ index.call [item, key] = .error fault := by
  induction keys generalizing value with
  | nil =>
    refine iff_of_false nofun ?_
    rintro ⟨front, key, back, -, hkeys, -⟩
    exact absurd hkeys.symm (by simp)
  | cons first keys ih =>
    rw [index_call_cons]
    cases hfirst : index.call [value, first] with
    | error fault' =>
      constructor
      · intro hfault
        exact ⟨[], first, keys, value, rfl, rfl, hfirst.trans hfault⟩
      · rintro ⟨front, key, back, item, hkeys, hfront, hkey⟩
        cases front with
        | nil =>
          cases hkeys
          obtain rfl : value = item := Except.ok.inj hfront
          exact hfirst.symm.trans hkey
        | cons other front =>
          cases hkeys
          rw [index_call_cons, hfirst] at hfront
          cases hfront
    | ok next =>
      change index.call (next :: keys) = .error fault ↔ _
      rw [ih]
      constructor
      · rintro ⟨front, key, back, item, rfl, hfront, hkey⟩
        refine ⟨first :: front, key, back, item, rfl, ?_, hkey⟩
        rw [index_call_cons, hfirst]
        exact hfront
      · rintro ⟨front, key, back, item, hkeys, hfront, hkey⟩
        cases front with
        | nil =>
          cases hkeys
          obtain rfl : value = item := Except.ok.inj hfront
          rw [hfirst] at hkey
          cases hkey
        | cons other front =>
          cases hkeys
          rw [index_call_cons, hfirst] at hfront
          exact ⟨front, key, back, item, rfl, hfront, hkey⟩

/-- A bound that is missing is the start or the end. -/
theorem slice_default (hx : IsSequence x) (hsize : x.size < Word.signedLimit) :
    slice.call [x] = slice.call [x, .int 0, .int x.size] ∧
      ∀ i, slice.call [x, .int i] = slice.call [x, .int i, .int x.size] := by
  obtain ⟨cut, hslice, -⟩ := exists_cut hx
  have hindex {n : Nat} (hn : n ≤ x.size) : (Value.int n).index (x.size + 1) = .ok n :=
    (index_int_eq_ok_iff hsize).mpr ⟨rfl, Nat.lt_succ_of_le hn⟩
  have hlow : (Value.int 0).index (x.size + 1) = .ok 0 := hindex (Nat.zero_le _)
  have hhigh := hindex (Nat.le_refl x.size)
  refine ⟨?_, fun i ↦ ?_⟩
  · change x.slice [] = x.slice [.int 0, .int x.size]
    rw [hslice, hslice]
    simp only [bounds, bound, List.getElem?_nil, List.getElem?_cons_zero, List.getElem?_cons_succ,
      hlow, hhigh]
  · change x.slice [.int i] = x.slice [.int i, .int x.size]
    rw [hslice, hslice]
    simp only [bounds, bound, List.getElem?_nil, List.getElem?_cons_zero, List.getElem?_cons_succ,
      hhigh]

theorem len_call (hx : IsSequence x) : len.call [x] = .ok (.int x.size) := by
  cases hx <;> rfl

/-- A part is taken between two places in order at which the sequence may be taken apart. -/
theorem exists_slice_iff (hx : IsSequence x) (hsize : x.size < Word.signedLimit) :
    (∃ part, slice.call [x, .int i, .int j] = .ok part) ↔
      0 ≤ i ∧ i ≤ j ∧ j ≤ x.size ∧
        ∀ text, x = .string text → IsBoundary text i ∧ IsBoundary text j := by
  constructor
  · rintro ⟨part, hpart⟩
    obtain ⟨low, hstands, rfl, rfl⟩ := (slice_eq_ok_iff hx hsize).mp hpart
    obtain ⟨hlow, hhigh⟩ :=
      (exists_part_iff (Nat.le_add_right low part.size)).mp ⟨part, hstands, rfl⟩
    obtain ⟨-, hfirst⟩ := (isCut_iff hx).mp hlow
    obtain ⟨hle, hsecond⟩ := (isCut_iff hx).mp hhigh
    refine ⟨by omega, by omega, by omega, fun text htext ↦ ⟨hfirst text htext, ?_⟩⟩
    exact_mod_cast hsecond text htext
  · rintro ⟨hi, horder, hle, htext⟩
    obtain ⟨low, rfl⟩ := Int.eq_ofNat_of_zero_le hi
    obtain ⟨high, rfl⟩ := Int.eq_ofNat_of_zero_le (show 0 ≤ j by omega)
    have hlow : IsCut x low := (isCut_iff hx).mpr ⟨by omega, fun text h ↦ (htext text h).1⟩
    have hhigh : IsCut x high := (isCut_iff hx).mpr ⟨by omega, fun text h ↦ (htext text h).2⟩
    obtain ⟨part, hpart, rfl⟩ := (exists_part_iff (by omega)).mpr ⟨hlow, hhigh⟩
    exact ⟨part, (slice_eq_ok_iff hx hsize).mpr ⟨low, hpart, rfl, by omega⟩⟩

/-- A part behind another one makes up one part with it. -/
theorem slice_join (hx : IsSequence x) (hsize : x.size < Word.signedLimit) {k : Int} {next : Value}
    (hpart : slice.call [x, .int i, .int j] = .ok part)
    (hnext : slice.call [x, .int j, .int k] = .ok next) :
    ∃ both, Joins part next both ∧ slice.call [x, .int i, .int k] = .ok both := by
  obtain ⟨low, hfirst, rfl, rfl⟩ := (slice_eq_ok_iff hx hsize).mp hpart
  obtain ⟨middle, hsecond, hmiddle, rfl⟩ := (slice_eq_ok_iff hx hsize).mp hnext
  obtain rfl : middle = low + part.size := by omega
  obtain ⟨both, hboth, hstands⟩ := hfirst.join hsecond
  have hadd := hboth.size_eq
  exact ⟨both, hboth, (slice_eq_ok_iff hx hsize).mpr ⟨low, hstands, rfl, by omega⟩⟩

/-- A part of a part is the part of the whole at the same place. -/
theorem slice_slice (hx : IsSequence x) (hsize : x.size < Word.signedLimit)
    (hpart : slice.call [x, .int i, .int j] = .ok part) (a b : Int) (inner : Value) :
    slice.call [part, .int a, .int b] = .ok inner ↔
      0 ≤ a ∧ b ≤ j - i ∧ slice.call [x, .int (i + a), .int (i + b)] = .ok inner := by
  obtain ⟨low, hstands, rfl, rfl⟩ := (slice_eq_ok_iff hx hsize).mp hpart
  have hle := hstands.size_le
  rw [slice_eq_ok_iff hstands.isSequence (by omega), slice_eq_ok_iff hx hsize]
  constructor
  · rintro ⟨offset, hinner, rfl, rfl⟩
    obtain ⟨hwhole, hend⟩ := hstands.inner_iff.mp hinner
    exact ⟨by omega, by omega, low + offset, hwhole, by omega, by omega⟩
  · rintro ⟨ha, hb, place, hwhole, hplace, hend⟩
    obtain ⟨offset, rfl⟩ := Int.eq_ofNat_of_zero_le ha
    obtain rfl : place = low + offset := by omega
    exact ⟨offset, hstands.inner_iff.mpr ⟨hwhole, by omega⟩, rfl, by omega⟩

/-- An item of a part is the item of the whole at the same place. -/
theorem index_slice (hx : IsSequence x) (hsize : x.size < Word.signedLimit)
    (hpart : slice.call [x, .int i, .int j] = .ok part) {k : Int} (hk : 0 ≤ k) (hlt : k < j - i) :
    index.call [part, .int k] = index.call [x, .int (i + k)] := by
  obtain ⟨low, hstands, rfl, rfl⟩ := (slice_eq_ok_iff hx hsize).mp hpart
  obtain ⟨n, rfl⟩ := Int.eq_ofNat_of_zero_le hk
  have hle := hstands.size_le
  have hn : n < part.size := by omega
  obtain ⟨item, hcell⟩ : ∃ item, part.cells[n]? = some item :=
    ⟨_, List.getElem?_eq_getElem (by rwa [length_cells])⟩
  rw [(index_eq_ok_iff hstands.isSequence (by omega)).mpr ⟨n, rfl, hcell⟩]
  rw [hstands.getElem?_cells hn] at hcell
  exact ((index_eq_ok_iff hx hsize).mpr ⟨low + n, by omega, hcell⟩).symm

/-- An item is taken by each index from zero up to the size. -/
theorem exists_index_iff (hx : IsSequence x) (hsize : x.size < Word.signedLimit) :
    (∃ item, index.call [x, .int i] = .ok item) ↔ 0 ≤ i ∧ i < x.size := by
  constructor
  · rintro ⟨item, hitem⟩
    obtain ⟨n, rfl, hcell⟩ := (index_eq_ok_iff hx hsize).mp hitem
    have hn := (List.getElem?_eq_some_iff.mp hcell).1
    rw [length_cells] at hn
    omega
  · rintro ⟨hi, hlt⟩
    obtain ⟨n, rfl⟩ := Int.eq_ofNat_of_zero_le hi
    have hn : n < x.cells.length := by
      rw [length_cells]
      omega
    exact ⟨_, (index_eq_ok_iff hx hsize).mpr ⟨n, rfl, List.getElem?_eq_getElem hn⟩⟩

end Calls

/-- Parts, items and lengths agree. A part of an array or a text, whose size is a signed word as any
in memory is, is taken exactly between two bounds that are in order and within the length, and in a
text between characters; a missing bound is the start or the end. It is what stands between them and
as long as they say, a part behind it makes up one part with it, and its own parts and items are
those of the whole at the same places. An item is taken by each index from zero up to the length,
and stands there. Several keys lead from item to item, and fail exactly where one of these steps
does. -/
theorem slice_index_len :
    (∀ x : Value, IsSequence x → x.size < Word.signedLimit →
      len.call [x] = .ok (.int x.size) ∧
      slice.call [x] = slice.call [x, .int 0, .int x.size] ∧
      (∀ i, slice.call [x, .int i] = slice.call [x, .int i, .int x.size]) ∧
      (∀ i j, (∃ part, slice.call [x, .int i, .int j] = .ok part) ↔
        0 ≤ i ∧ i ≤ j ∧ j ≤ x.size ∧
          ∀ text, x = .string text → IsBoundary text i ∧ IsBoundary text j) ∧
      (∀ i j part, slice.call [x, .int i, .int j] = .ok part →
        (∃ low : Nat, i = low ∧ Part x low part) ∧
        len.call [part] = .ok (.int (j - i)) ∧
        (∀ k next, slice.call [x, .int j, .int k] = .ok next →
          ∃ both, Joins part next both ∧ slice.call [x, .int i, .int k] = .ok both) ∧
        (∀ a b inner, slice.call [part, .int a, .int b] = .ok inner ↔
          0 ≤ a ∧ b ≤ j - i ∧ slice.call [x, .int (i + a), .int (i + b)] = .ok inner) ∧
        ∀ k, 0 ≤ k → k < j - i →
          index.call [part, .int k] = index.call [x, .int (i + k)]) ∧
      (∀ i, (∃ item, index.call [x, .int i] = .ok item) ↔ 0 ≤ i ∧ i < x.size) ∧
      ∀ i item, index.call [x, .int i] = .ok item ↔
        ∃ n : Nat, i = n ∧ x.cells[n]? = some item) ∧
    (∀ value, index.call [value] = .ok value) ∧
    (∀ value key keys, index.call (value :: key :: keys) =
      index.call [value, key] >>= fun item ↦ index.call (item :: keys)) ∧
    ∀ value keys fault, index.call (value :: keys) = .error fault ↔
      ∃ front key back item, keys = front ++ key :: back ∧
        index.call (value :: front) = .ok item ∧ index.call [item, key] = .error fault := by
  refine ⟨fun x hx hsize ↦ ?_, fun value ↦ rfl, index_call_cons, index_eq_error_iff⟩
  obtain ⟨hstart, hend⟩ := slice_default hx hsize
  refine ⟨len_call hx, hstart, hend, fun i j ↦ exists_slice_iff hx hsize, ?_,
    fun i ↦ exists_index_iff hx hsize, fun i item ↦ index_eq_ok_iff hx hsize⟩
  intro i j part hpart
  obtain ⟨low, hstands, hi, hj⟩ := (slice_eq_ok_iff hx hsize).mp hpart
  refine ⟨⟨low, hi, hstands⟩, ?_, fun k next hnext ↦ slice_join hx hsize hpart hnext,
    slice_slice hx hsize hpart, fun k hk hlt ↦ index_slice hx hsize hpart hk hlt⟩
  rw [len_call hstands.isSequence, show j - i = part.size by omega]

/-- A text is cut between its characters, and its part has the length of its bytes. -/
theorem slice_index_len_text :
    IsSequence (.string "né") ∧ (Value.string "né").size < Word.signedLimit ∧
      slice.call [.string "né", .int 1, .int 3] = .ok (.string "é") ∧
      len.call [.string "é"] = .ok (.int 2) ∧
      index.call [.string "é", .int 1] = index.call [.string "né", .int 2] := by
  have hx : IsSequence (.string "né") := .string _
  have hsize : (Value.string "né").size < Word.signedLimit := by decide
  have hpart : slice.call [.string "né", .int 1, .int 3] = .ok (.string "é") := by
    refine (slice_eq_ok_iff hx hsize).mpr ⟨1, ⟨.string "n", .string "é", .string "", ?_, ?_, ?_⟩,
      rfl, by decide⟩
    · exact joins_string_iff.mpr ⟨"n", "é", rfl, rfl, by decide⟩
    · exact joins_string_iff.mpr ⟨"é", "", rfl, rfl, by decide⟩
    · decide
  obtain ⟨-, hlen, -, -, hindex⟩ := (slice_index_len.1 _ hx hsize).2.2.2.2.1 _ _ _ hpart
  exact ⟨hx, hsize, hpart, hlen, hindex 1 (by decide) (by decide)⟩

end Builtin

end Stencil
