import Mathlib.Data.List.Basic
import Stencil.Proofs.Execution.Ends

/-!
# Slots of variables

Variables come and go in front of older ones, so a variable is told by its slot, counted from the
outermost one (`Scope.valueAt?`). A name means the slot of the innermost variable of that name
(`Scope.slotOf?`), and an assignment is kept here together with the variables before it, since they
decide which slot it is about (`Assignment.slot?`).

`Settles` says of the assignments between two states that they account for all that happened to the
slots: no variable is gone, and each slot has the value of the last assignment to it, or the value
that it had. What happens one after the other is accounted for by the assignments one after the
other (`Settles.trans`).
-/

set_option autoImplicit false
set_option relaxedAutoImplicit false

namespace Stencil.Exec

open Syntax

namespace Scope

/-! ### Slots -/

/-- The value in a slot. -/
def valueAt? (scope : Scope) (slot : Nat) : Option Value := (scope.reverse[slot]?).map Prod.snd

/-- The name in a slot. -/
def nameAt? (scope : Scope) (slot : Nat) : Option String := scope.names.reverse[slot]?

/-- The slot that a name means. -/
def slotOf? (name : String) : Scope → Option Nat
  | [] => none
  | (other, _) :: rest => if other = name then some rest.length else slotOf? name rest

@[simp]
theorem length_names (scope : Scope) : scope.names.length = scope.length := List.length_map _

@[simp]
theorem names_cons (slot : String × Value) (rest : Scope) :
    names (slot :: rest) = slot.1 :: rest.names := rfl

/-- Names that are all there later are no fewer then. -/
theorem length_le_of_names {scope other : Scope} (hnames : scope.names <:+ other.names) :
    scope.length ≤ other.length := by
  simpa using hnames.length_le

/-- The last of some things counted from the end is the first. -/
theorem getElem?_reverse_cons {α : Type} (first : α) (rest : List α) (slot : Nat) :
    (first :: rest).reverse[slot]? =
      if slot = rest.length then some first else rest.reverse[slot]? := by
  rw [List.reverse_cons, List.getElem?_append, List.length_reverse]
  split
  next hlt => rw [if_neg (Nat.ne_of_lt hlt)]
  next hge =>
    split
    next hslot => simp [hslot]
    next hslot =>
      have hbeyond : rest.reverse.length ≤ slot := by simpa using hge
      rw [List.getElem?_eq_none hbeyond, List.getElem?_eq_none]
      rw [List.length_singleton]
      omega

theorem valueAt?_cons (name : String) (value : Value) (rest : Scope) (slot : Nat) :
    valueAt? ((name, value) :: rest) slot =
      if slot = rest.length then some value else rest.valueAt? slot := by
  rw [valueAt?, getElem?_reverse_cons, valueAt?]
  split <;> rfl

theorem nameAt?_cons (name : String) (value : Value) (rest : Scope) (slot : Nat) :
    nameAt? ((name, value) :: rest) slot =
      if slot = rest.length then some name else nameAt? rest slot := by
  rw [nameAt?, names_cons, getElem?_reverse_cons, length_names, nameAt?]

theorem exists_valueAt? {scope : Scope} {slot : Nat} (hslot : slot < scope.length) :
    ∃ value, scope.valueAt? slot = some value := by
  rw [valueAt?, List.getElem?_eq_getElem (by simpa using hslot)]
  exact ⟨_, rfl⟩

theorem lt_of_nameAt? {scope : Scope} {name : String} {slot : Nat}
    (hname : scope.nameAt? slot = some name) : slot < scope.length := by
  simpa using (List.getElem?_eq_some_iff.mp hname).1

/-- What stands in front of the outermost variables does not matter to their slots. -/
theorem valueAt?_of_suffix {scope outer : Scope} {slot : Nat} (hsuffix : outer <:+ scope)
    (hslot : slot < outer.length) : scope.valueAt? slot = outer.valueAt? slot := by
  obtain ⟨newer, rfl⟩ := hsuffix
  rw [valueAt?, valueAt?, List.reverse_append, List.getElem?_append_left (by simpa using hslot)]

/-- What stands in front of the outermost names does not matter to their slots. -/
theorem nameAt?_of_suffix {scope outer : Scope} {slot : Nat} (hsuffix : outer.names <:+ scope.names)
    (hslot : slot < outer.length) : scope.nameAt? slot = outer.nameAt? slot := by
  obtain ⟨newer, hnames⟩ := hsuffix
  rw [nameAt?, nameAt?, ← hnames, List.reverse_append,
    List.getElem?_append_left (by simpa using hslot)]

/-- A name means the slot of the innermost variable of that name. -/
theorem slotOf?_eq_some_iff {scope : Scope} {name : String} {slot : Nat} :
    scope.slotOf? name = some slot ↔
      scope.nameAt? slot = some name ∧ ∀ inner > slot, scope.nameAt? inner ≠ some name := by
  induction scope with
  | nil => simp [slotOf?, nameAt?, names]
  | cons first rest ih =>
    obtain ⟨other, value⟩ := first
    have hrest {inner : Nat} (hinner : nameAt? rest inner = some name) : inner < rest.length :=
      lt_of_nameAt? hinner
    simp only [slotOf?, nameAt?_cons]
    by_cases hother : other = name
    · simp only [if_pos hother, Option.some.injEq]
      grind
    · simp only [if_neg hother, ih]
      grind

/-- Assigning changes the slot that the name means, and no other. -/
theorem valueAt?_assign {scope changed : Scope} {name : String} {value : Value}
    (hassign : scope.assign name value = some changed) (slot : Nat) :
    changed.valueAt? slot =
      if scope.slotOf? name = some slot then some value else scope.valueAt? slot := by
  induction scope generalizing changed with
  | nil => cases hassign
  | cons first rest ih =>
    obtain ⟨other, old⟩ := first
    rw [assign] at hassign
    split at hassign
    next hother =>
      cases hassign
      simp only [valueAt?_cons, slotOf?, if_pos (show other = name from hother),
        Option.some.injEq, @eq_comm _ rest.length]
      split <;> rfl
    next hother =>
      obtain ⟨inner, hinner, rfl⟩ := Option.map_eq_some_iff.mp hassign
      have hlength : inner.length = rest.length := by
        rw [← length_names, names_assign hinner, length_names]
      rw [valueAt?_cons, valueAt?_cons, slotOf?, if_neg (show ¬ other = name from hother),
        hlength, ih hinner]
      split
      next hslot =>
        have hbefore : slotOf? name rest ≠ some slot := fun hmeans ↦
          Nat.ne_of_lt (lt_of_nameAt? (slotOf?_eq_some_iff.mp hmeans).1) hslot
        rw [if_neg hbefore]
      next => rfl

/-- A new value for one of the innermost variables changes none of the slots before it. -/
theorem valueAt?_setAt {scope : Scope} {place slot : Nat} (hslot : slot + place < scope.length - 1)
    (value : Value) : (scope.setAt place value).valueAt? slot = scope.valueAt? slot := by
  induction scope generalizing place with
  | nil => simp at hslot
  | cons first rest ih =>
    obtain ⟨name, old⟩ := first
    rw [List.length_cons, Nat.add_sub_cancel] at hslot
    cases place with
    | zero =>
      change valueAt? ((name, value) :: rest) slot = _
      rw [valueAt?_cons, valueAt?_cons, if_neg (by omega), if_neg (by omega)]
    | succ place =>
      change valueAt? ((name, old) :: setAt rest place value) slot = _
      have hlength : (setAt rest place value).length = rest.length := by
        rw [← length_names, names_setAt, length_names]
      rw [valueAt?_cons, valueAt?_cons, hlength, ih (by omega)]

end Scope

/-! ### Assignments -/

/-- An assignment that an execution makes, with the variables before it. -/
structure Assignment where
  target : Variable
  value : Value
  scope : Scope

/-- The slot that an assignment is about. -/
def Assignment.slot? (assignment : Assignment) : Option Nat :=
  assignment.target.name?.bind assignment.scope.slotOf?

/-- What assignments leave in a slot that had a value: the value of the last one of them that is
about the slot. -/
def replay (assignments : List Assignment) (slot : Nat) (value : Value) : Value :=
  assignments.foldl
    (fun value assignment ↦ if assignment.slot? = some slot then assignment.value else value) value

theorem replay_append (first second : List Assignment) (slot : Nat) (value : Value) :
    replay (first ++ second) slot value = replay second slot (replay first slot value) :=
  List.foldl_append

/-- Assignments that are not about a slot leave its value. -/
theorem replay_eq {assignments : List Assignment} {slot : Nat}
    (hnone : ∀ assignment ∈ assignments, assignment.slot? ≠ some slot) (value : Value) :
    replay assignments slot value = value := by
  induction assignments with
  | nil => rfl
  | cons assignment rest ih =>
    obtain ⟨hfirst, hrest⟩ := List.forall_mem_cons.mp hnone
    rw [replay, List.foldl_cons, if_neg hfirst]
    exact ih hrest

/-! ### Accounts -/

/-- That assignments account for what happened between two states to the slots below a given one,
where `targets` are the variables that may have been assigned, or else declared. -/
structure Settles (targets : Bool → List Variable) (count : Nat) (state after : State)
    (assignments : List Assignment) : Prop where
  /-- There are new variables in front of those from before, or none. -/
  declares : ∃ newer : List String, after.scope.names = newer ++ state.scope.names ∧
    ∀ name ∈ newer, name ∈ (targets false).filterMap Variable.name?
  /-- The assignments are made while the variables from before are all there. -/
  within : ∀ assignment ∈ assignments, assignment.target ∈ targets true ∧
    state.scope.names <:+ assignment.scope.names
  values : ∀ slot < count,
    after.scope.valueAt? slot = (state.scope.valueAt? slot).map (replay assignments slot)

namespace Settles

variable {targets others : Bool → List Variable} {count fewer : Nat} {state middle after : State}
  {first second assignments : List Assignment}

/-- The variables from before are all there. -/
theorem grows (hsettles : Settles targets count state after assignments) : state.Grows after := by
  obtain ⟨newer, hnames, -⟩ := hsettles.declares
  exact ⟨newer, hnames.symm⟩

/-- Where nothing may have been declared there are no new variables. -/
theorem names_eq (hsettles : Settles targets count state after assignments)
    (htargets : targets false = []) : after.scope.names = state.scope.names := by
  obtain ⟨newer, hnames, hnewer⟩ := hsettles.declares
  have hnone : newer = [] := List.eq_nil_iff_forall_not_mem.mpr fun name hname ↦ by
    simpa [htargets] using hnewer name hname
  rw [hnames, hnone, List.nil_append]

/-- Nothing is to be accounted for where the names are the same and no slot below the given one has
changed. -/
theorem of_values (hnames : after.scope.names = state.scope.names)
    (hvalues : ∀ slot < count, after.scope.valueAt? slot = state.scope.valueAt? slot) :
    Settles targets count state after [] :=
  ⟨⟨[], hnames, List.forall_mem_nil _⟩, List.forall_mem_nil _, fun slot hslot ↦ by
    rw [hvalues slot hslot]
    exact (congrFun Option.map_id _).symm⟩

/-- Nothing is to be accounted for where the variables are the same. -/
theorem of_scope (hscope : after.scope = state.scope) : Settles targets count state after [] :=
  of_values (by rw [hscope]) fun _ _ ↦ by rw [hscope]

/-- What happens one after the other is accounted for one after the other. -/
theorem trans (hfirst : Settles targets count state middle first)
    (hsecond : Settles targets count middle after second) :
    Settles targets count state after (first ++ second) := by
  refine ⟨?_, fun assignment hassignment ↦ ?_, fun slot hslot ↦ ?_⟩
  · obtain ⟨newer, hnewer, hdeclared⟩ := hfirst.declares
    obtain ⟨newest, hnewest, hdeclaredToo⟩ := hsecond.declares
    refine ⟨newest ++ newer, by rw [hnewest, hnewer, List.append_assoc], ?_⟩
    exact List.forall_mem_append.mpr ⟨hdeclaredToo, hdeclared⟩
  · rcases List.mem_append.mp hassignment with hmem | hmem
    · exact hfirst.within assignment hmem
    · obtain ⟨htarget, hnames⟩ := hsecond.within assignment hmem
      exact ⟨htarget, List.IsSuffix.trans hfirst.grows hnames⟩
  · have hreplay : replay second slot ∘ replay first slot = replay (first ++ second) slot :=
      funext fun value ↦ (replay_append first second slot value).symm
    rw [hsecond.values slot hslot, hfirst.values slot hslot, Option.map_map, hreplay]

theorem mono (hsettles : Settles targets count state after assignments)
    (htargets : ∀ assigning, targets assigning ⊆ others assigning) (hfewer : fewer ≤ count) :
    Settles others fewer state after assignments := by
  obtain ⟨newer, hnames, hnewer⟩ := hsettles.declares
  refine ⟨⟨newer, hnames, fun name hname ↦ ?_⟩, fun assignment hassignment ↦ ?_,
    fun slot hslot ↦ hsettles.values slot (Nat.lt_of_lt_of_le hslot hfewer)⟩
  · exact List.filterMap_subset _ (htargets false) (hnewer name hname)
  · exact (hsettles.within assignment hassignment).imp_left (@htargets true _)

/-- A variable that is declared has a slot of its own. -/
theorem of_declare {frame : Frame} {target : Variable} {value : Value}
    (htarget : target ∈ targets false)
    (hrun : (declare frame target value).run state = (.ok (), after)) :
    Settles targets state.scope.length state after [] := by
  obtain ⟨name, hname, rfl⟩ := exists_of_run_declare state hrun
  refine ⟨⟨[name], rfl, ?_⟩, List.forall_mem_nil _, fun slot hslot ↦ ?_⟩
  · exact List.forall_mem_singleton.mpr (List.mem_filterMap.mpr ⟨target, htarget, hname⟩)
  · rw [Scope.valueAt?_of_suffix (List.suffix_cons _ _) hslot]
    exact (congrFun Option.map_id _).symm

/-- An assignment accounts for itself. -/
theorem of_assign {frame : Frame} {target : Variable} {value : Value}
    (htarget : target ∈ targets true)
    (hrun : (assign frame target value).run state = (.ok (), after)) :
    Settles targets count state after [⟨target, value, state.scope⟩] := by
  obtain ⟨name, changed, hname, hchanged, rfl⟩ := exists_of_run_assign state hrun
  have habout : Assignment.slot? ⟨target, value, state.scope⟩ = state.scope.slotOf? name := by
    rw [Assignment.slot?, hname]
    rfl
  refine ⟨⟨[], Scope.names_assign hchanged, List.forall_mem_nil _⟩, ?_, fun slot _ ↦ ?_⟩
  · exact List.forall_mem_singleton.mpr ⟨htarget, List.suffix_rfl⟩
  · change changed.valueAt? slot = _
    rw [Scope.valueAt?_assign hchanged]
    split
    next hmeans =>
      obtain ⟨old, hold⟩ := Scope.exists_valueAt?
        (Scope.lt_of_nameAt? (Scope.slotOf?_eq_some_iff.mp hmeans).1)
      rw [hold, Option.map_some]
      exact congrArg some (if_pos (habout.trans hmeans)).symm
    next hother =>
      have hkept : replay [⟨target, value, state.scope⟩] slot = id :=
        funext fun _ ↦ if_neg (habout ▸ hother)
      rw [hkept, Option.map_id, id]

/-- What is accounted for still is when the variables declared since are gone. -/
theorem keep (hsettles : Settles targets count state after assignments)
    (hcount : count ≤ state.scope.length) :
    Settles targets count state
      { after with scope := after.scope.keep state.scope.length } assignments := by
  have hnames := hsettles.grows.names_keep
  have hkept : (after.scope.keep state.scope.length).length = state.scope.length := by
    rw [← Scope.length_names, hnames, Scope.length_names]
  refine ⟨⟨[], hnames, List.forall_mem_nil _⟩, hsettles.within, fun slot hslot ↦ ?_⟩
  have hinside : slot < (after.scope.keep state.scope.length).length := by
    rw [hkept]
    exact Nat.lt_of_lt_of_le hslot hcount
  rw [← hsettles.values slot hslot]
  exact (Scope.valueAt?_of_suffix (List.drop_suffix _ _) hinside).symm

/-- A slot whose value has changed is the one that an assignment to its name is about. -/
theorem exists_assignment (hsettles : Settles targets state.scope.length state after assignments)
    {slot : Nat} (hslot : slot < state.scope.length)
    (hchanged : after.scope.valueAt? slot ≠ state.scope.valueAt? slot) :
    ∃ assignment ∈ assignments, assignment.target ∈ targets true ∧ assignment.slot? = some slot ∧
      state.scope.nameAt? slot = assignment.target.name? := by
  obtain ⟨value, hvalue⟩ := Scope.exists_valueAt? hslot
  rw [hsettles.values slot hslot, hvalue, Option.map_some, ne_eq, Option.some.injEq] at hchanged
  obtain ⟨assignment, hassignment, habout⟩ :
      ∃ assignment ∈ assignments, assignment.slot? = some slot := by
    by_contra hnone
    exact hchanged (replay_eq
      (fun assignment hassignment habout ↦ hnone ⟨assignment, hassignment, habout⟩) value)
  obtain ⟨htarget, hnames⟩ := hsettles.within assignment hassignment
  refine ⟨assignment, hassignment, htarget, habout, ?_⟩
  obtain ⟨name, hname, hmeans⟩ := Option.bind_eq_some_iff.mp habout
  rw [← Scope.nameAt?_of_suffix hnames hslot, hname]
  exact (Scope.slotOf?_eq_some_iff.mp hmeans).1

end Settles

end Stencil.Exec
