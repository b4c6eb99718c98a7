import Stencil.Data.Json.Read

/-!
# Brackets inside each other

A reader of JSON may be told how many brackets may be open at a time. What matters of a value then
is how many brackets of its text are open at a time at most (`Value.nesting`), in addition to those
around it. A limit that allows so many (`Allows`) never refuses a bracket (`State.enter_eq_ok`), and
one that does not refuses the bracket which is one too many (`State.enter_eq_error`). A text is read
accordingly (`ReadsWithin`).
-/

set_option autoImplicit false
set_option relaxedAutoImplicit false

namespace Stencil

namespace Value

mutual

/-- The greatest number of brackets of a value that are open at a time. -/
def nesting : Value → Nat
  | .array items => nestingOfItems items + 1
  | .object members => nestingOfMembers members + 1
  | _ => 0

/-- The greatest number of brackets in items that are open at a time. -/
def nestingOfItems : List Value → Nat
  | [] => 0
  | item :: rest => max item.nesting (nestingOfItems rest)

/-- The greatest number of brackets in members that are open at a time. -/
def nestingOfMembers : List (String × Value) → Nat
  | [] => 0
  | (_, value) :: rest => max value.nesting (nestingOfMembers rest)

end

end Value

namespace Json

/-- That a limit allows so many brackets inside so many open ones. -/
def Allows (limit : Option Nat) (opened further : Nat) : Prop :=
  ∀ most ∈ limit, opened + further ≤ most

/-- That a text is read as a value if the limit allows so many brackets inside each other, and
refused for its brackets if not. -/
def ReadsWithin (text : String) (nesting : Nat) (value : Value) : Prop :=
  ∀ limit, (Allows limit 0 nesting → read limit text = .ok value) ∧
    (¬ Allows limit 0 nesting → ∃ place, read limit text = .error ⟨.tooDeep, place⟩)

section Allows

variable {limit : Option Nat} {opened further : Nat}

theorem allows_none : Allows none opened further := nofun

theorem allows_some_iff {most : Nat} :
    Allows (some most) opened further ↔ opened + further ≤ most := by
  simp [Allows]

/-- Brackets inside one more open bracket. -/
theorem allows_succ_iff :
    Allows limit opened (further + 1) ↔ Allows limit (opened + 1) further := by
  rw [Allows, Allows, Nat.add_right_comm, Nat.add_assoc]

/-- Brackets of two values, one behind the other. -/
theorem allows_max_iff {other : Nat} :
    Allows limit opened (max further other) ↔
      Allows limit opened further ∧ Allows limit opened other := by
  cases limit with
  | none => exact iff_of_true allows_none ⟨allows_none, allows_none⟩
  | some most =>
    simp only [allows_some_iff]
    omega

theorem Allows.mono (hlimit : Allows limit opened further) {fewer : Nat} (hle : fewer ≤ further) :
    Allows limit opened fewer :=
  fun most hmost ↦ Nat.le_trans (Nat.add_le_add_left hle opened) (hlimit most hmost)

/-- The brackets of an array are allowed if its own is, and then those of its items. -/
theorem allows_items {item : Value} {items : List Value}
    (hlimit : Allows limit opened (Value.array (item :: items)).nesting) :
    Allows limit opened 1 ∧ Allows limit (opened + 1) item.nesting ∧
      Allows limit (opened + 1) (Value.nestingOfItems items) := by
  obtain ⟨hitem, hothers⟩ := allows_max_iff.mp (allows_succ_iff.mp hlimit)
  exact ⟨hlimit.mono (Nat.le_add_left 1 _), hitem, hothers⟩

/-- The brackets of an object are allowed if its own is, and then those of its members. -/
theorem allows_members {key : String} {value : Value} {members : List (String × Value)}
    (hlimit : Allows limit opened (Value.object ((key, value) :: members)).nesting) :
    Allows limit opened 1 ∧ Allows limit (opened + 1) value.nesting ∧
      Allows limit (opened + 1) (Value.nestingOfMembers members) := by
  obtain ⟨hvalue, hothers⟩ := allows_max_iff.mp (allows_succ_iff.mp hlimit)
  exact ⟨hlimit.mono (Nat.le_add_left 1 _), hvalue, hothers⟩

end Allows

section Enter

variable {limit : Option Nat} {outer : List Level}

/-- A bracket that is allowed is opened. -/
theorem State.enter_eq_ok (hlimit : Allows limit outer.length 1) (place : Place)
    (inside : State) : State.enter limit place outer inside = .ok inside := by
  cases limit with
  | none => rfl
  | some most =>
    have hroom : ¬ most ≤ outer.length := Nat.not_le.mpr (allows_some_iff.mp hlimit)
    simp [State.enter, hroom]

/-- A bracket that is not allowed is refused. -/
theorem State.enter_eq_error (hlimit : ¬ Allows limit outer.length 1) (place : Place)
    (inside : State) : State.enter limit place outer inside = .error ⟨.tooDeep, place⟩ := by
  cases limit with
  | none => exact absurd allows_none hlimit
  | some most =>
    have hfull : most ≤ outer.length := Nat.not_lt.mp fun hroom ↦ hlimit (allows_some_iff.mpr hroom)
    simp [State.enter, hfull]

end Enter

end Json

end Stencil
