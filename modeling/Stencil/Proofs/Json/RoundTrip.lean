import Mathlib.Data.List.Basic
import Stencil.Proofs.Json.Nesting
import Stencil.Proofs.Json.Scalars

/-!
# Reading what is written

A value without floating-point numbers whose integers have 64 bits is written as a JSON text that is
read back as the value, with the members of its objects in the order of their keys. It is read so
exactly if the limit on open brackets allows as many as the value has inside each other
(`Value.nesting`), and in any layout: the blanks at the start of a line and behind a colon are a
`Layout`, of which the compact one (`toList_compact`) and the one with a line for each item
(`toList_pretty`) are two cases.

The text is read from left to right. A state that may go on with a value (`State.Expects`) reads the
text of the value and ends up with the value put into the innermost open bracket
(`Layout.continues_write`). An array or an object brings its items or members into the bracket that
it opens, one after another. Where a bracket is one too many the reader stops
(`Layout.isRefused`).
-/

set_option autoImplicit false
set_option relaxedAutoImplicit false

namespace Stencil.Json

/-! ### Values that are read back -/

/-- A value without floating-point numbers whose integers have 64 bits. -/
inductive IsWhole : Value → Prop
  | null : IsWhole .null
  | bool (value : Bool) : IsWhole (.bool value)
  | int {n : Int} (hword : IsWord n) : IsWhole (.int n)
  | string (text : String) : IsWhole (.string text)
  | array {items : List Value} (hitems : ∀ item ∈ items, IsWhole item) : IsWhole (.array items)
  | object {members : List (String × Value)} (hmembers : ∀ member ∈ members, IsWhole member.2) :
      IsWhole (.object members)

/-! ### Steps -/

/-- What is read of a text from a state on is what is read of the rest of it from another. -/
def Continues (limit : Option Nat) (state : State) (text : List Char) (after : State)
    (rest : List Char) : Prop :=
  ∀ place, ∃ place', readFrom limit state place text = readFrom limit after place' rest

section Steps

variable {limit : Option Nat}

theorem Continues.trans {first second third : State} {text rest behind : List Char}
    (hfirst : Continues limit first text second rest)
    (hsecond : Continues limit second rest third behind) :
    Continues limit first text third behind := by
  intro place
  obtain ⟨next, hread⟩ := hfirst place
  obtain ⟨last, hread'⟩ := hsecond next
  exact ⟨last, hread.trans hread'⟩

/-- Blanks are passed over. -/
theorem continues_blanks {blanks : List Char} (hblanks : ∀ c ∈ blanks, isBlank c = true)
    (state : State) (rest : List Char) : Continues limit state (blanks ++ rest) state rest := by
  induction blanks with
  | nil => exact fun place ↦ ⟨place, rfl⟩
  | cons c blanks ih =>
    obtain ⟨hc, hothers⟩ := List.forall_mem_cons.mp hblanks
    intro place
    obtain ⟨last, hread⟩ := ih hothers (place.next c)
    refine ⟨last, ?_⟩
    rw [List.cons_append, readFrom, if_pos hc, hread]

/-- A token that is allowed takes the reader on. -/
theorem continues_token {state after : State} {word rest : List Char} {token : Token}
    (hword : ∀ c ∈ word.head?, isBlank c = false) (hne : word ≠ [])
    (htoken : ∀ place, tokenAt place (word ++ rest) = (token, word.length))
    (hstep : ∀ place, state.step limit place token = .ok after) :
    Continues limit state (word ++ rest) after rest := by
  intro place
  obtain ⟨c, others, rfl⟩ := List.exists_cons_of_ne_nil hne
  have hblank : isBlank c = false := hword c rfl
  have htoken := htoken place
  refine ⟨place.advance ((c :: others ++ rest).take (c :: others).length), ?_⟩
  rw [List.cons_append] at htoken ⊢
  rw [readFrom, hblank, if_neg Bool.false_ne_true, htoken]
  dsimp only
  rw [hstep, List.length_cons, Nat.add_sub_cancel, List.drop_left]

/-- A mark that is allowed takes the reader past it. -/
theorem continues_mark {state after : State} {c : Char} {token : Token} (hc : isBlank c = false)
    (htoken : ∀ place rest, tokenAt place (c :: rest) = (token, 1))
    (hstep : ∀ place, state.step limit place token = .ok after) (rest : List Char) :
    Continues limit state (c :: rest) after rest := by
  have hword : ∀ first ∈ [c].head?, isBlank first = false := by simpa using hc
  exact continues_token hword (List.cons_ne_nil c []) (fun place ↦ htoken place rest) hstep

/-- A text that is written is read as a token. -/
theorem continues_quote {state after : State} {text : String}
    (hstep : ∀ place, state.step limit place (.text text) = .ok after) (rest : List Char) :
    Continues limit state ((quote text).toList ++ rest) after rest := by
  have hquote : (quote text).toList = '"' :: (text.toList.flatMap escape ++ ['"']) := by
    rw [quote, String.toList_ofList]
  have hword : ∀ c ∈ (quote text).toList.head?, isBlank c = false := by
    rw [hquote]
    simp [isBlank]
  have hne : (quote text).toList ≠ [] := by
    rw [hquote]
    exact List.cons_ne_nil _ _
  exact continues_token hword hne (fun place ↦ tokenAt_quote text rest place) hstep

/-! ### Values -/

/-- A state in which a value may come next, inside the given brackets. -/
inductive State.Expects : State → List Level → Prop
  | value (outer : List Level) : Expects (.value outer) outer
  | firstItem (outer : List Level) : Expects (.firstItem outer) (.array [] :: outer)
  | item (items : List Value) (outer : List Level) :
      Expects (.item items outer) (.array items :: outer)

/-- A state in which a value may come next takes what starts one. -/
theorem State.Expects.step {state : State} {outer : List Level} (hstate : state.Expects outer)
    {token : Token} (htoken : token ≠ .closeArray) (place : Place) :
    state.step limit place token = State.startValue limit place outer token := by
  cases hstate <;> cases token <;> first | rfl | exact absurd rfl htoken

/-- A word that stands for a value is read as the value. -/
theorem continues_scalar {state : State} {outer : List Level} (hstate : state.Expects outer)
    {word rest : List Char} {value : Value} (hword : ∀ c ∈ word.head?, isBlank c = false)
    (hne : word ≠ []) (htoken : ∀ place, tokenAt place (word ++ rest) =
      (.scalar value, word.length)) :
    Continues limit state (word ++ rest) (.put value outer) rest := by
  refine continues_token hword hne htoken fun place ↦ ?_
  rw [hstate.step (by simp)]
  rfl

/-- A bracket that may come next is opened. -/
theorem continues_open {state inside : State} {outer : List Level} (hstate : state.Expects outer)
    {c : Char} {token : Token} (hc : isBlank c = false) (hclose : token ≠ .closeArray)
    (htoken : ∀ place rest, tokenAt place (c :: rest) = (token, 1))
    (hstart : ∀ place, State.startValue limit place outer token =
      State.enter limit place outer inside)
    (hlimit : Allows limit outer.length 1) (rest : List Char) :
    Continues limit state (c :: rest) inside rest := by
  refine continues_mark hc htoken (fun place ↦ ?_) rest
  rw [hstate.step hclose, hstart, State.enter_eq_ok hlimit]

theorem endsNumber_cons {c : Char} (hc : c = ',' ∨ c = ']' ∨ c = '\x7d') (rest : List Char) :
    EndsNumber (c :: rest) := by
  intro first hfirst
  obtain rfl := Option.some.inj hfirst
  rcases hc with rfl | rfl | rfl <;> decide

theorem isBlank_of_number {c : Char} (hc : c = '-' ∨ c.isDigit = true) : isBlank c = false := by
  by_contra hblank
  simp only [isBlank, Bool.not_eq_false, Bool.or_eq_true, decide_eq_true_eq] at hblank
  rcases hblank with ((rfl | rfl) | rfl) | rfl <;> exact absurd hc (by decide)

/-- Blanks do not continue a number. -/
theorem EndsNumber.blanks {blanks rest : List Char} (hrest : EndsNumber rest)
    (hblanks : ∀ c ∈ blanks, isBlank c = true) : EndsNumber (blanks ++ rest) := by
  cases blanks with
  | nil => exact hrest
  | cons c blanks =>
    intro first hfirst
    obtain rfl := Option.some.inj hfirst
    have hblank := hblanks c List.mem_cons_self
    simp only [isBlank, Bool.or_eq_true, decide_eq_true_eq] at hblank
    rcases hblank with ((rfl | rfl) | rfl) | rfl <;> decide

/-! ### Layouts -/

/-- Where blanks stand in a text: at the start of a line, which is so many brackets deep, and
between the colon of a key and its value. -/
structure Layout where
  line : Nat → List Char
  gap : List Char
  line_blank : ∀ depth, ∀ c ∈ line depth, isBlank c = true
  gap_blank : ∀ c ∈ gap, isBlank c = true

namespace Layout

variable (layout : Layout)

mutual

/-- What is written of a value that is so many brackets deep. Brackets with nothing between them
touch. -/
def write (depth : Nat) : Value → List Char
  | .array [] => ['[', ']']
  | .array (item :: rest) =>
    '[' :: (layout.line (depth + 1) ++ (write (depth + 1) item ++ behindItems depth rest))
  | .object [] => ['\x7b', '\x7d']
  | .object ((key, value) :: rest) =>
    '\x7b' :: (layout.line (depth + 1) ++ ((quote key).toList ++
      ':' :: (layout.gap ++ (write (depth + 1) value ++ behindMembers depth rest))))
  | value => (compact value).toList

/-- What is written behind an item: a comma and a line for each of the others, and the bracket. -/
def behindItems (depth : Nat) : List Value → List Char
  | [] => layout.line depth ++ [']']
  | item :: rest =>
    ',' :: (layout.line (depth + 1) ++ (write (depth + 1) item ++ behindItems depth rest))

/-- What is written behind a member. -/
def behindMembers (depth : Nat) : List (String × Value) → List Char
  | [] => layout.line depth ++ ['\x7d']
  | (key, value) :: rest =>
    ',' :: (layout.line (depth + 1) ++ ((quote key).toList ++
      ':' :: (layout.gap ++ (write (depth + 1) value ++ behindMembers depth rest))))

end

theorem endsNumber_behindItems (depth : Nat) (items : List Value) (rest : List Char) :
    EndsNumber (layout.behindItems depth items ++ rest) := by
  cases items with
  | nil =>
    rw [behindItems, List.append_assoc]
    exact (endsNumber_cons (.inr (.inl rfl)) rest).blanks (layout.line_blank depth)
  | cons item items => exact endsNumber_cons (.inl rfl) _

theorem endsNumber_behindMembers (depth : Nat) (members : List (String × Value))
    (rest : List Char) : EndsNumber (layout.behindMembers depth members ++ rest) := by
  cases members with
  | nil =>
    rw [behindMembers, List.append_assoc]
    exact (endsNumber_cons (.inr (.inr rfl)) rest).blanks (layout.line_blank depth)
  | cons member members => exact endsNumber_cons (.inl rfl) _

end Layout

/-- That the reader stops at a bracket of a text that is one too many. -/
def Refuses (limit : Option Nat) (state : State) (text : List Char) : Prop :=
  ∀ place, ∃ stop, readFrom limit state place text = .error ⟨.tooDeep, stop⟩

/-- The reader stops later as well. -/
theorem Continues.refuses {state after : State} {text rest : List Char}
    (hfirst : Continues limit state text after rest) (hrest : Refuses limit after rest) :
    Refuses limit state text := by
  intro place
  obtain ⟨next, hread⟩ := hfirst place
  obtain ⟨stop, hstop⟩ := hrest next
  exact ⟨stop, hread.trans hstop⟩

/-- A bracket that may come next is refused if it is one too many. -/
theorem refuses_open {state inside : State} {outer : List Level} (hstate : state.Expects outer)
    {c : Char} {token : Token} (hc : isBlank c = false) (hclose : token ≠ .closeArray)
    (htoken : ∀ place rest, tokenAt place (c :: rest) = (token, 1))
    (hstart : ∀ place, State.startValue limit place outer token =
      State.enter limit place outer inside)
    (hlimit : ¬ Allows limit outer.length 1) (rest : List Char) :
    Refuses limit state (c :: rest) := by
  intro place
  refine ⟨place.mark (c :: rest), ?_⟩
  rw [readFrom, hc, if_neg Bool.false_ne_true, htoken]
  dsimp only
  rw [hstate.step hclose, hstart, State.enter_eq_error hlimit]

/-- A key and its colon are read where a key may come next. -/
theorem continues_key {state : State} {done : List (String × Value)} {outer : List Level}
    {key : String}
    (hstate : ∀ place, state.step limit place (.text key) = .ok (.afterKey key done outer))
    (rest : List Char) :
    Continues limit state ((quote key).toList ++ ':' :: rest) (.value (.object done key :: outer))
      rest := by
  refine (continues_quote hstate _).trans ?_
  exact continues_mark (by decide) (fun _ _ ↦ rfl) (fun _ ↦ rfl) rest

/-! ### Values in a layout -/

namespace Layout

variable (layout : Layout)

mutual

/-- A value that is written is read where a value may come next, and put where it belongs. -/
theorem continues_write (value : Value) (hvalue : IsWhole value) {state : State}
    {outer : List Level} (hstate : state.Expects outer)
    (hlimit : Allows limit outer.length value.nesting) (depth : Nat) {rest : List Char}
    (hrest : EndsNumber rest) :
    Continues limit state (layout.write depth value ++ rest) (.put value.sorted outer) rest := by
  match value with
  | .null =>
    have hword : layout.write depth .null = ['n', 'u', 'l', 'l'] := rfl
    rw [hword]
    exact continues_scalar hstate (by simp [isBlank]) (List.cons_ne_nil _ _) fun _ ↦ rfl
  | .bool true =>
    have hword : layout.write depth (.bool true) = ['t', 'r', 'u', 'e'] := rfl
    rw [hword]
    exact continues_scalar hstate (by simp [isBlank]) (List.cons_ne_nil _ _) fun _ ↦ rfl
  | .bool false =>
    have hword : layout.write depth (.bool false) = ['f', 'a', 'l', 's', 'e'] := rfl
    rw [hword]
    exact continues_scalar hstate (by simp [isBlank]) (List.cons_ne_nil _ _) fun _ ↦ rfl
  | .int n =>
    have hword : IsWord n := by
      cases hvalue with
      | int hword => exact hword
    obtain ⟨c, others, hcons, hc⟩ := exists_toString_eq n
    have htoken (place : Place) := tokenAt_int hword hrest place
    have hwrite : layout.write depth (.int n) = (toString n).toList := rfl
    rw [hwrite]
    rw [hcons] at htoken ⊢
    refine continues_scalar hstate ?_ (List.cons_ne_nil c others) htoken
    simpa using isBlank_of_number hc
  | .float x => exact nomatch hvalue
  | .string text =>
    have hwrite : layout.write depth (.string text) = (quote text).toList := rfl
    rw [hwrite]
    refine continues_quote (fun place ↦ ?_) rest
    rw [hstate.step (by simp)]
    rfl
  | .array [] =>
    refine (continues_open hstate (by decide) (by simp) (fun _ _ ↦ rfl) (fun _ ↦ rfl)
      hlimit _).trans ?_
    exact continues_mark (by decide) (fun _ _ ↦ rfl) (fun _ ↦ rfl) rest
  | .array (item :: items) =>
    obtain ⟨hopen, hitemLimit, hothersLimit⟩ := allows_items hlimit
    have hitems : ∀ other ∈ item :: items, IsWhole other := by
      cases hvalue with
      | array hitems => exact hitems
    obtain ⟨hitem, hothers⟩ := List.forall_mem_cons.mp hitems
    rw [write, List.cons_append, List.append_assoc, List.append_assoc]
    refine (continues_open hstate (by decide) (by simp) (fun _ _ ↦ rfl) (fun _ ↦ rfl)
      hopen _).trans ?_
    refine (continues_blanks (layout.line_blank _) _ _).trans ?_
    have hfirst := continues_write item hitem (.firstItem outer) hitemLimit (depth + 1)
      (layout.endsNumber_behindItems depth items rest)
    exact hfirst.trans
      (continues_behindItems items hothers [item.sorted] outer hothersLimit depth rest)
  | .object [] =>
    refine (continues_open hstate (by decide) (by simp) (fun _ _ ↦ rfl) (fun _ ↦ rfl)
      hlimit _).trans ?_
    exact continues_mark (by decide) (fun _ _ ↦ rfl) (fun _ ↦ rfl) rest
  | .object ((key, value) :: members) =>
    obtain ⟨hopen, hvalueLimit, hothersLimit⟩ := allows_members hlimit
    have hmembers : ∀ member ∈ (key, value) :: members, IsWhole member.2 := by
      cases hvalue with
      | object hmembers => exact hmembers
    obtain ⟨hvalue, hothers⟩ := List.forall_mem_cons.mp hmembers
    rw [write]
    simp only [List.cons_append, List.append_assoc]
    refine (continues_open hstate (by decide) (by simp) (fun _ _ ↦ rfl) (fun _ ↦ rfl)
      hopen _).trans ?_
    refine (continues_blanks (layout.line_blank _) _ _).trans ?_
    refine (continues_key (fun _ ↦ rfl) _).trans ?_
    refine (continues_blanks layout.gap_blank _ _).trans ?_
    have hfirst := continues_write value hvalue (.value (.object [] key :: outer)) hvalueLimit
      (depth + 1) (layout.endsNumber_behindMembers depth members rest)
    exact hfirst.trans
      (continues_behindMembers members hothers [(key, value.sorted)] outer hothersLimit depth rest)

/-- The items behind an item are read one after another, up to the bracket that closes them. -/
theorem continues_behindItems (items : List Value) (hitems : ∀ item ∈ items, IsWhole item)
    (done : List Value) (outer : List Level)
    (hlimit : Allows limit (outer.length + 1) (Value.nestingOfItems items)) (depth : Nat)
    (rest : List Char) :
    Continues limit (.afterItem done outer) (layout.behindItems depth items ++ rest)
      (.put (.array (done.reverse ++ Value.sortedItems items)) outer) rest := by
  match items with
  | [] =>
    rw [Value.sortedItems, List.append_nil, behindItems, List.append_assoc]
    refine (continues_blanks (layout.line_blank depth) _ _).trans ?_
    exact continues_mark (by decide) (fun _ _ ↦ rfl) (fun _ ↦ rfl) rest
  | item :: items =>
    obtain ⟨hitem, hothers⟩ := List.forall_mem_cons.mp hitems
    rw [behindItems]
    simp only [List.cons_append, List.append_assoc]
    refine (continues_mark (by decide) (fun _ _ ↦ rfl) (fun _ ↦ rfl) _).trans ?_
    refine (continues_blanks (layout.line_blank _) _ _).trans ?_
    obtain ⟨hitemLimit, hothersLimit⟩ := allows_max_iff.mp hlimit
    refine (continues_write item hitem (.item done outer) hitemLimit (depth + 1)
      (layout.endsNumber_behindItems depth items rest)).trans ?_
    have hbehind :=
      continues_behindItems items hothers (item.sorted :: done) outer hothersLimit depth rest
    rw [List.reverse_cons, List.append_assoc] at hbehind
    exact hbehind

/-- The members behind a member are read one after another, up to the bracket that closes them. -/
theorem continues_behindMembers (members : List (String × Value))
    (hmembers : ∀ member ∈ members, IsWhole member.2) (done : List (String × Value))
    (outer : List Level)
    (hlimit : Allows limit (outer.length + 1) (Value.nestingOfMembers members)) (depth : Nat)
    (rest : List Char) :
    Continues limit (.afterMember done outer) (layout.behindMembers depth members ++ rest)
      (.put (Value.ofMembers (done.reverse ++ Value.sortedMembers members)) outer) rest := by
  match members with
  | [] =>
    rw [Value.sortedMembers, List.append_nil, behindMembers, List.append_assoc]
    refine (continues_blanks (layout.line_blank depth) _ _).trans ?_
    exact continues_mark (by decide) (fun _ _ ↦ rfl) (fun _ ↦ rfl) rest
  | (key, value) :: members =>
    obtain ⟨hvalue, hothers⟩ := List.forall_mem_cons.mp hmembers
    rw [behindMembers]
    simp only [List.cons_append, List.append_assoc]
    refine (continues_mark (by decide) (fun _ _ ↦ rfl) (fun _ ↦ rfl) _).trans ?_
    refine (continues_blanks (layout.line_blank _) _ _).trans ?_
    refine (continues_key (fun _ ↦ rfl) _).trans ?_
    refine (continues_blanks layout.gap_blank _ _).trans ?_
    obtain ⟨hvalueLimit, hothersLimit⟩ := allows_max_iff.mp hlimit
    refine (continues_write value hvalue (.value (.object done key :: outer)) hvalueLimit
      (depth + 1) (layout.endsNumber_behindMembers depth members rest)).trans ?_
    have hbehind := continues_behindMembers members hothers ((key, value.sorted) :: done) outer
      hothersLimit depth rest
    rw [List.reverse_cons, List.append_assoc] at hbehind
    exact hbehind

end

/-! ### Values beyond the limit -/

/-- That a value with too many brackets inside each other is refused where a value may come next. -/
def IsRefused (limit : Option Nat) (value : Value) : Prop :=
  ∀ {state : State} {outer : List Level}, state.Expects outer → Allows limit outer.length 0 →
    ¬ Allows limit outer.length value.nesting → ∀ (depth : Nat) {rest : List Char},
      EndsNumber rest → Refuses limit state (layout.write depth value ++ rest)

/-- Of items, the first one with too many brackets inside each other is refused. -/
theorem refuses_items {items : List Value} {item : Value}
    (hwhole : ∀ other ∈ item :: items, IsWhole other)
    (hrefused : ∀ other ∈ item :: items, layout.IsRefused limit other) {state : State}
    {done : List Value} {outer : List Level} (hstate : state.Expects (.array done :: outer))
    (hopened : Allows limit (outer.length + 1) 0)
    (hlimit : ¬ Allows limit (outer.length + 1) (Value.nestingOfItems (item :: items)))
    (depth : Nat) (rest : List Char) :
    Refuses limit state (layout.write (depth + 1) item ++
      (layout.behindItems depth items ++ rest)) := by
  induction items generalizing item state done with
  | nil =>
    have hbeyond : ¬ Allows limit (outer.length + 1) item.nesting :=
      fun hfits ↦ hlimit (allows_max_iff.mpr ⟨hfits, hopened⟩)
    exact hrefused item List.mem_cons_self hstate hopened hbeyond (depth + 1)
      (layout.endsNumber_behindItems depth [] rest)
  | cons next others ih =>
    obtain ⟨hitem, hothers⟩ := List.forall_mem_cons.mp hwhole
    obtain ⟨hitemRefused, hothersRefused⟩ := List.forall_mem_cons.mp hrefused
    have hends := layout.endsNumber_behindItems depth (next :: others) rest
    by_cases hfits : Allows limit (outer.length + 1) item.nesting
    · have hbeyond : ¬ Allows limit (outer.length + 1) (Value.nestingOfItems (next :: others)) :=
        fun hbehind ↦ hlimit (allows_max_iff.mpr ⟨hfits, hbehind⟩)
      refine (layout.continues_write item hitem hstate hfits (depth + 1) hends).refuses ?_
      rw [behindItems]
      simp only [List.cons_append, List.append_assoc]
      refine (continues_mark (by decide) (fun _ _ ↦ rfl) (fun _ ↦ rfl) _).refuses ?_
      refine (continues_blanks (layout.line_blank _) _ _).refuses ?_
      exact ih hothers hothersRefused (.item _ outer) hbeyond
    · exact hitemRefused hstate hopened hfits (depth + 1) hends

/-- Of members, the first one with too many brackets inside each other is refused. -/
theorem refuses_members {members : List (String × Value)} {key : String} {value : Value}
    (hwhole : ∀ member ∈ (key, value) :: members, IsWhole member.2)
    (hrefused : ∀ member ∈ (key, value) :: members, layout.IsRefused limit member.2)
    {state : State} {done : List (String × Value)} {outer : List Level}
    (hstate : ∀ place, state.step limit place (.text key) = .ok (.afterKey key done outer))
    (hopened : Allows limit (outer.length + 1) 0)
    (hlimit : ¬ Allows limit (outer.length + 1) (Value.nestingOfMembers ((key, value) :: members)))
    (depth : Nat) (rest : List Char) :
    Refuses limit state ((quote key).toList ++ ':' :: (layout.gap ++
      (layout.write (depth + 1) value ++ (layout.behindMembers depth members ++ rest)))) := by
  induction members generalizing key value state done with
  | nil =>
    have hinside := State.Expects.value (.object done key :: outer)
    have hbeyond : ¬ Allows limit (outer.length + 1) value.nesting :=
      fun hfits ↦ hlimit (allows_max_iff.mpr ⟨hfits, hopened⟩)
    refine (continues_key hstate _).refuses ?_
    refine (continues_blanks layout.gap_blank _ _).refuses ?_
    exact hrefused (key, value) List.mem_cons_self hinside hopened hbeyond (depth + 1)
      (layout.endsNumber_behindMembers depth [] rest)
  | cons next others ih =>
    obtain ⟨hvalue, hothers⟩ := List.forall_mem_cons.mp hwhole
    obtain ⟨hvalueRefused, hothersRefused⟩ := List.forall_mem_cons.mp hrefused
    have hinside := State.Expects.value (.object done key :: outer)
    have hends := layout.endsNumber_behindMembers depth (next :: others) rest
    refine (continues_key hstate _).refuses ?_
    refine (continues_blanks layout.gap_blank _ _).refuses ?_
    by_cases hfits : Allows limit (outer.length + 1) value.nesting
    · have hbeyond : ¬ Allows limit (outer.length + 1) (Value.nestingOfMembers (next :: others)) :=
        fun hbehind ↦ hlimit (allows_max_iff.mpr ⟨hfits, hbehind⟩)
      refine (layout.continues_write value hvalue hinside hfits (depth + 1) hends).refuses ?_
      rw [behindMembers]
      simp only [List.cons_append, List.append_assoc]
      refine (continues_mark (by decide) (fun _ _ ↦ rfl) (fun _ ↦ rfl) _).refuses ?_
      refine (continues_blanks (layout.line_blank _) _ _).refuses ?_
      exact ih hothers hothersRefused (fun _ ↦ rfl) hbeyond
    · exact hvalueRefused hinside hopened hfits (depth + 1) hends

/-- A value with too many brackets inside each other is refused. -/
theorem isRefused {value : Value} (hvalue : IsWhole value) : layout.IsRefused limit value := by
  induction hvalue with
  | null | bool | int | string => exact fun _ hopened hlimit ↦ absurd hopened hlimit
  | @array items hitems ih =>
    intro state outer hstate hopened hlimit depth rest _
    match items with
    | [] => exact refuses_open hstate (by decide) (by simp) (fun _ _ ↦ rfl) (fun _ ↦ rfl) hlimit _
    | item :: others =>
      rw [write, List.cons_append, List.append_assoc, List.append_assoc]
      by_cases hopen : Allows limit outer.length 1
      · refine (continues_open hstate (by decide) (by simp) (fun _ _ ↦ rfl) (fun _ ↦ rfl)
          hopen _).refuses ?_
        refine (continues_blanks (layout.line_blank _) _ _).refuses ?_
        exact layout.refuses_items hitems ih (.firstItem outer) (allows_succ_iff.mp hopen)
          (mt allows_succ_iff.mpr hlimit) depth rest
      · exact refuses_open hstate (by decide) (by simp) (fun _ _ ↦ rfl) (fun _ ↦ rfl) hopen _
  | @object members hmembers ih =>
    intro state outer hstate hopened hlimit depth rest _
    match members with
    | [] => exact refuses_open hstate (by decide) (by simp) (fun _ _ ↦ rfl) (fun _ ↦ rfl) hlimit _
    | (key, value) :: others =>
      rw [write]
      simp only [List.cons_append, List.append_assoc]
      by_cases hopen : Allows limit outer.length 1
      · refine (continues_open hstate (by decide) (by simp) (fun _ _ ↦ rfl) (fun _ ↦ rfl)
          hopen _).refuses ?_
        refine (continues_blanks (layout.line_blank _) _ _).refuses ?_
        exact layout.refuses_members hmembers ih (fun _ ↦ rfl) (allows_succ_iff.mp hopen)
          (mt allows_succ_iff.mpr hlimit) depth rest
      · exact refuses_open hstate (by decide) (by simp) (fun _ _ ↦ rfl) (fun _ ↦ rfl) hopen _

/-- What is written in a layout is read back, whatever blanks follow it, if the limit allows its
brackets. -/
theorem readsWithin_write {value : Value} (hvalue : IsWhole value) (depth : Nat)
    {blanks : List Char} (hblanks : ∀ c ∈ blanks, isBlank c = true) :
    ReadsWithin (String.ofList (layout.write depth value ++ blanks)) value.nesting
      value.sorted := by
  have hnil : EndsNumber [] := fun c hc ↦ absurd hc (by simp)
  have hends : EndsNumber (blanks ++ []) := hnil.blanks hblanks
  rw [List.append_nil] at hends
  intro limit
  rw [read, String.toList_ofList]
  constructor
  · intro hlimit
    obtain ⟨place, hread⟩ := layout.continues_write value hvalue (.value []) hlimit depth hends {}
    have hend := @continues_blanks limit blanks hblanks (.finished value.sorted) []
    obtain ⟨last, hfinish⟩ := hend place
    rw [List.append_nil] at hfinish
    rw [hread, State.put, hfinish, readFrom]
    rfl
  · intro hlimit
    have hopened : Allows limit 0 0 := fun _ _ ↦ Nat.zero_le _
    exact layout.isRefused hvalue (.value []) hopened hlimit depth hends {}

end Layout

end Steps

/-! ### The two layouts -/

/-- Texts with a separator between them are the first one and the others behind separators. -/
theorem toList_intercalate_cons (separator first : String) (others : List String) :
    (separator.intercalate (first :: others)).toList =
      first.toList ++ others.flatMap fun other ↦ separator.toList ++ other.toList := by
  induction others generalizing first with
  | nil => simp
  | cons second others ih =>
    rw [String.intercalate_cons_cons, String.toList_append, String.toList_append, ih]
    simp

/-- The layout without blanks. -/
def Layout.tight : Layout where
  line := fun _ ↦ []
  gap := []
  line_blank := by simp
  gap_blank := by simp

/-- The layout with a line for each item and each member. -/
def Layout.spread : Layout where
  line := fun depth ↦ '\n' :: List.replicate (2 * depth) ' '
  gap := [' ']
  line_blank := by
    intro depth c hc
    rcases List.mem_cons.mp hc with rfl | hc
    · rfl
    · rw [List.eq_of_mem_replicate hc]
      rfl
  gap_blank := by simp [isBlank]

mutual

/-- A value without blanks is written in the tight layout. -/
theorem toList_compact (value : Value) (depth : Nat) :
    (compact value).toList = Layout.tight.write depth value := by
  match value with
  | .null | .bool _ | .int _ | .float _ | .string _ => rfl
  | .array [] | .object [] => simp [compact, compactItems, compactMembers, Layout.write]
  | .array (item :: items) =>
    rw [compact, compactItems, String.toList_append, String.toList_append,
      toList_intercalate_cons, toList_compact item (depth + 1), List.append_assoc,
      List.append_assoc, flatMap_compactItems items depth]
    rfl
  | .object ((key, value) :: members) =>
    rw [compact, compactMembers, String.toList_append, String.toList_append,
      toList_intercalate_cons, List.append_assoc, List.append_assoc,
      flatMap_compactMembers members depth, String.toList_append, String.toList_append,
      toList_compact value (depth + 1), List.append_assoc, List.append_assoc]
    rfl

theorem flatMap_compactItems (items : List Value) (depth : Nat) :
    ((compactItems items).flatMap fun other ↦ ",".toList ++ other.toList) ++ "]".toList =
      Layout.tight.behindItems depth items := by
  match items with
  | [] => rfl
  | item :: items =>
    rw [compactItems, List.flatMap_cons, toList_compact item (depth + 1), List.append_assoc,
      List.append_assoc, flatMap_compactItems items depth]
    rfl

theorem flatMap_compactMembers (members : List (String × Value)) (depth : Nat) :
    ((compactMembers members).flatMap fun other ↦ ",".toList ++ other.toList) ++ "\x7d".toList =
      Layout.tight.behindMembers depth members := by
  match members with
  | [] => rfl
  | (key, value) :: members =>
    rw [compactMembers, List.flatMap_cons, String.toList_append, String.toList_append,
      toList_compact value (depth + 1)]
    simp only [List.append_assoc]
    rw [flatMap_compactMembers members depth]
    rfl

end

/-- Lines between brackets are the first one, the others behind commas, and the bracket. -/
theorem toList_block (opening closing first : String) (depth : Nat) (others : List String) :
    (block opening closing depth (first :: others)).toList =
      opening.toList ++ (Layout.spread.line (depth + 1) ++ (first.toList ++
        ((others.flatMap fun other ↦
          ',' :: (Layout.spread.line (depth + 1) ++ other.toList)) ++
            (Layout.spread.line depth ++ closing.toList)))) := by
  have hlines : ((others.map (indent (depth + 1) ++ ·)).flatMap fun other ↦
      ",\n".toList ++ other.toList) = others.flatMap fun other ↦
        ',' :: (Layout.spread.line (depth + 1) ++ other.toList) := by
    rw [List.flatMap_map]
    refine List.flatMap_congr fun other _ ↦ ?_
    simp only [String.toList_append, indent, String.toList_ofList]
    rfl
  rw [block, if_neg (by simp), List.map_cons]
  simp only [String.toList_append, toList_intercalate_cons, hlines, List.append_assoc]
  simp only [indent, String.toList_ofList]
  rfl

mutual

/-- A value on several lines is written in the spread layout. -/
theorem toList_pretty (value : Value) (depth : Nat) :
    (pretty depth value).toList = Layout.spread.write depth value := by
  match value with
  | .null | .bool _ | .int _ | .float _ | .string _ => rfl
  | .array [] | .object [] => simp [pretty, prettyItems, prettyMembers, block, Layout.write]
  | .array (item :: items) =>
    rw [pretty, prettyItems, toList_block, toList_pretty item (depth + 1),
      flatMap_prettyItems items depth]
    rfl
  | .object ((key, value) :: members) =>
    rw [pretty, prettyMembers, toList_block, flatMap_prettyMembers members depth,
      String.toList_append, String.toList_append, toList_pretty value (depth + 1),
      List.append_assoc, List.append_assoc]
    rfl

theorem flatMap_prettyItems (items : List Value) (depth : Nat) :
    ((prettyItems (depth + 1) items).flatMap fun other ↦
      ',' :: (Layout.spread.line (depth + 1) ++ other.toList)) ++
        (Layout.spread.line depth ++ "]".toList) = Layout.spread.behindItems depth items := by
  match items with
  | [] => rfl
  | item :: items =>
    rw [prettyItems, List.flatMap_cons, toList_pretty item (depth + 1), List.append_assoc,
      flatMap_prettyItems items depth, List.cons_append, List.append_assoc]
    rfl

theorem flatMap_prettyMembers (members : List (String × Value)) (depth : Nat) :
    ((prettyMembers (depth + 1) members).flatMap fun other ↦
      ',' :: (Layout.spread.line (depth + 1) ++ other.toList)) ++
        (Layout.spread.line depth ++ "\x7d".toList) =
      Layout.spread.behindMembers depth members := by
  match members with
  | [] => rfl
  | (key, value) :: members =>
    rw [prettyMembers, List.flatMap_cons, List.append_assoc, flatMap_prettyMembers members depth,
      String.toList_append, String.toList_append, toList_pretty value (depth + 1)]
    simp only [List.cons_append, List.append_assoc]
    rfl

end

/-- What is written is read back, with the members of objects in the order of their keys. -/
theorem read_compact {value : Value} (hvalue : IsWhole value) :
    read none (compact value) = .ok value.sorted := by
  have hread := Layout.tight.readsWithin_write hvalue 0 (List.forall_mem_nil _) none
  rw [List.append_nil, ← toList_compact, String.ofList_toList] at hread
  exact hread.1 allows_none

end Stencil.Json
