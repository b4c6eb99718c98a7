import Stencil.Proofs.Grammar.Context
import Stencil.Proofs.Grammar.Scripts
import Stencil.Proofs.Grammar.Sentences

/-!
# What calls of the parser promise

Every call that a parse makes is made where an item is left (`State.Within`), and closer to its end
than the call that makes it: fewer items are left, or no more and the function is one further down
(`Call.rank`). In turn a call that succeeds leaves the parse where an item is left, with the depths
that it was made with, and nearly every one with fewer items (`Call.Promises`).

Each script is shown to make only such calls and to keep its own promise, with nothing known of the
functions it calls but theirs (`Steps.Meets`). That all calls keep their promises follows by
induction on how close to the end they are made (`Call.promises`).
-/

set_option autoImplicit false
set_option relaxedAutoImplicit false

namespace Stencil.Syntax

/-- Whether an item of this kind ends a source. -/
def ItemKind.endsSource : ItemKind → Bool
  | eof | error => true
  | _ => false

/-- That the last of some items, and so at least one, ends a source. -/
def HaveEnd (items : List Item) : Prop :=
  ∃ before last, items = before ++ [last] ∧ last.kind.endsSource = true

theorem haveEnd_lex (delimiters : Delimiters) (source : String) :
    HaveEnd (lex delimiters source) := by
  obtain ⟨before, last, hitems, hkind, -⟩ := lex_eq_append delimiters source
  refine ⟨before, last, hitems, ?_⟩
  rcases hkind with hkind | hkind <;> rw [hkind] <;> rfl

namespace Parse

/-! ### Places among the items -/

/-- That a state is at one of some items, which is left to be read. -/
def State.Within (items : List Item) (s : State) : Prop :=
  ∃ cursor < items.length, s.rest = items.drop cursor

/-- A state is at an item exactly if what is left is the end of the items and is not empty. -/
theorem State.within_iff {items : List Item} {s : State} :
    s.Within items ↔ s.rest <:+ items ∧ s.rest ≠ [] := by
  constructor
  · rintro ⟨cursor, hcursor, hrest⟩
    rw [hrest]
    refine ⟨List.drop_suffix cursor items, fun hnil ↦ ?_⟩
    rw [List.drop_eq_nil_iff] at hnil
    omega
  · rintro ⟨⟨read, hitems⟩, hrest⟩
    refine ⟨read.length, ?_, ?_⟩
    · have := List.length_pos_iff.mpr hrest
      rw [← hitems, List.length_append]
      omega
    · rw [← hitems, List.drop_left]

/-- The state from one place to a later one, with the depths as they were. -/
structure State.Keeps (items : List Item) (s after : State) : Prop where
  within : after.Within items
  notLonger : after.NotLonger s
  sameDepths : s.SameDepths after

/-- The same with an item read. -/
structure State.Consumes (items : List Item) (s after : State) : Prop
    extends s.Keeps items after where
  shorter : after.Shorter s

section Places

variable {items passed : List Item} {s middle after other : State}

theorem State.Keeps.refl (hs : s.Within items) : s.Keeps items s := ⟨hs, .refl s, .refl s⟩

theorem State.Keeps.trans (hfirst : s.Keeps items middle) (hsecond : middle.Keeps items after) :
    s.Keeps items after :=
  ⟨hsecond.within, hfirst.notLonger.trans hsecond.notLonger,
    hfirst.sameDepths.trans hsecond.sameDepths⟩

theorem State.Keeps.trans_consumes (hfirst : s.Keeps items middle)
    (hsecond : middle.Consumes items after) : s.Consumes items after :=
  ⟨hfirst.trans hsecond.toKeeps, hfirst.notLonger.trans_shorter hsecond.shorter⟩

theorem State.Consumes.trans_keeps (hfirst : s.Consumes items middle)
    (hsecond : middle.Keeps items after) : s.Consumes items after :=
  ⟨hfirst.toKeeps.trans hsecond, hfirst.shorter.trans_notLonger hsecond.notLonger⟩

theorem State.Consumes.trans (hfirst : s.Consumes items middle)
    (hsecond : middle.Consumes items after) : s.Consumes items after :=
  hfirst.trans_keeps hsecond.toKeeps

/-- What does not touch the items and the depths keeps a place. -/
theorem State.Keeps.congr (hkeeps : s.Keeps items after) (hrest : other.rest = after.rest)
    (hloops : other.loopDepth = after.loopDepth) (hdepth : other.depth = after.depth) :
    s.Keeps items other := by
  obtain ⟨⟨cursor, hcursor, hafter⟩, hle, hsame⟩ := hkeeps
  refine ⟨⟨cursor, hcursor, hrest.trans hafter⟩, ?_, ?_⟩
  · rw [State.NotLonger, hrest]
    exact hle
  · exact ⟨hloops.trans hsame.loopDepth_eq, hdepth.trans hsame.depth_eq⟩

theorem State.Consumes.congr (hconsumes : s.Consumes items after)
    (hrest : other.rest = after.rest) (hloops : other.loopDepth = after.loopDepth)
    (hdepth : other.depth = after.depth) : s.Consumes items other := by
  refine ⟨hconsumes.toKeeps.congr hrest hloops hdepth, ?_⟩
  rw [State.Shorter, hrest]
  exact hconsumes.shorter

/-- A part that is entered one level deeper is left at the level from before. -/
theorem State.Consumes.leave (hinside : s.enter.Consumes items after) :
    s.Consumes items after.leave :=
  ⟨⟨hinside.within, hinside.notLonger, hinside.sameDepths.of_enter⟩, hinside.shorter⟩

/-- Behind the body of a control structure the parse is inside as many loops as before it. -/
theorem State.Consumes.leaveBranch {kind : BranchKind}
    (hinside : (s.enterBranch kind).Consumes items after) :
    s.Consumes items (after.leaveBranch kind) := by
  refine ⟨⟨hinside.within, hinside.notLonger, ?_, hinside.sameDepths.depth_eq⟩, hinside.shorter⟩
  change after.loopDepth - loopsOf kind = s.loopDepth
  rw [hinside.sameDepths.loopDepth_eq]
  exact Nat.add_sub_cancel ..

/-- Behind the body of a template the parse is inside as many loops as before it. -/
theorem State.Consumes.leaveTemplate (hinside : s.enterTemplate.Consumes items after) :
    s.Consumes items (after.leaveTemplate s) :=
  ⟨⟨hinside.within, hinside.notLonger, rfl, hinside.sameDepths.depth_eq⟩, hinside.shorter⟩

/-- Behind items that do not end a source a further one is left. -/
theorem State.Passes.within (hend : HaveEnd items) (hs : s.Within items)
    (hpasses : s.Passes passed after)
    (hinside : ∀ item ∈ passed, item.kind.endsSource = false) : after.Within items := by
  rw [State.within_iff] at hs ⊢
  refine ⟨hpasses.suffix.trans hs.1, fun hrest ↦ ?_⟩
  obtain ⟨read, hread, rfl⟩ := hpasses
  obtain ⟨before, last, hitems, hlast⟩ := hend
  rw [hrest, List.append_nil] at hread
  have hmem : last ∈ read := by
    obtain ⟨front, hfront⟩ := hs.1
    have hlast? := congrArg List.getLast? (hfront.trans hitems)
    rw [List.getLast?_append_of_ne_nil _ hs.2, List.getLast?_concat] at hlast?
    exact hread ▸ List.mem_of_getLast? hlast?
  have hspace : last.kind ≠ .space := fun hspace ↦ by
    rw [hspace] at hlast
    cases hlast
  rw [hinside last (List.mem_filter.mpr ⟨hmem, by simpa using hspace⟩)] at hlast
  cases hlast

variable (hend : HaveEnd items)

include hend

/-- Spaces are skipped up to a further item. -/
theorem State.keeps_skipSpaces (hs : s.Within items) : s.Keeps items s.skipSpaces :=
  ⟨s.passes_skipSpaces.1.within hend hs (by simp), s.skipSpaces_notLonger, ⟨rfl, rfl⟩⟩

/-- Behind an item that does not end the source a further one is left. -/
theorem State.Reads.consumes {item : Item} (hs : s.Within items) (hread : s.Reads item after)
    (hkind : item.kind.endsSource = false) : s.Consumes items after :=
  ⟨⟨hread.passes.within hend hs (by simpa using hkind), hread.shorter.notLonger,
    hread.sameDepths⟩, hread.shorter⟩

theorem State.consumes_advance (hs : s.Within items) (hkind : s.peek.kind.endsSource = false) :
    s.Consumes items s.advance := by
  have hpasses := s.passes_advance fun heof ↦ by
    rw [heof] at hkind
    cases hkind
  refine ⟨⟨hpasses.within hend hs fun item hitem ↦ ?_, s.advance_notLonger, s.sameDepths_advance⟩,
    State.advance_shorter (State.within_iff.mp hs).2⟩
  rw [List.mem_singleton.mp (List.mem_of_mem_filter hitem)]
  exact hkind

theorem EndsCommand.keeps (hs : s.Within items) (hending : EndsCommand s after) :
    s.Keeps items after := by
  cases hending with
  | closer => exact .refl hs
  | bar hkind => exact (State.consumes_advance hend hs (by rw [hkind]; rfl)).toKeeps

end Places

/-! ### What calls need and promise -/

namespace Call

variable {α β : Type}

/-- How far up a function is among those that call one another with no item read in between. -/
@[simp]
def rank : Call α → Nat
  | item => 0
  | fields => 1
  | leave => 2
  | leaveBranch _ => 3
  | declarations .. => 4
  | operand => 5
  | operands => 6
  | command => 7
  | commands .. => 8
  | pipeline .. => 9
  | action => 10
  | statement => 11
  | statements => 12
  | body => 13
  | branchBody _ => 14
  | nestedBody _ => 15
  | control _ => 16
  | blockControl => 17
  | definition => 18
  | root => 19
  | source => 20

/-- How many ranks there are. -/
def ranks : Nat := 21

theorem rank_lt (c : Call α) : c.rank < ranks := by
  cases c <;> simp [ranks]

/-- What a call needs of its arguments and of the depths where it is made. -/
def Ready : Call α → State → Prop
  | commands _ closer, _ | pipeline _ closer, _ => closer.endsSource = false
  | leave, s => 0 < s.depth
  | leaveBranch kind, s => loopsOf kind ≤ s.loopDepth
  | _, _ => True

/-- How many levels deeper than itself a function makes a call. -/
def opens : Call α → Call β → Nat
  | body, _ | operand, pipeline .. | operand, leave => 1
  | _, _ => 0

/-- How many loops a function makes its calls in if it is called in so many. -/
def loopsInside : Call α → Nat → Nat
  | branchBody kind, loops => loops + loopsOf kind
  | nestedBody _, _ => 0
  | _, loops => loops

/-- That a call may be made in the course of another one. -/
structure Admits (items : List Item) (caller : Call α) (s : State) (c : Call β) (t : State) :
    Prop where
  within : t.Within items
  progress : t.Shorter s ∨ t.NotLonger s ∧ c.rank < caller.rank
  depth_eq : t.depth = s.depth + caller.opens c
  loopDepth_eq : t.loopDepth = caller.loopsInside s.loopDepth
  ready : c.Ready t

/-- What a call promises of what it reads and of the state after it. -/
def Promises (items : List Item) : Call α → State → α × State → Prop
  | item, s, found => ∃ item, found.1 = some item ∧ s.Reads item found.2
  | fields, s, found | declarations .., s, found | root, s, found | source, s, found =>
    s.Keeps items found.2
  | operand, s, found => found.1 ≠ none → s.Consumes items found.2
  | operands, s, found => s.Keeps items found.2 ∧ (found.1 ≠ [] → found.2.Shorter s)
  | leave, s, found => found.2 = s.leave
  | leaveBranch kind, s, found => found.2 = s.leaveBranch kind
  | _, s, found => s.Consumes items found.2

end Call

section Admits

variable {items : List Item} {α β : Type} {caller : Call α} {c : Call β} {s after : State}

theorem State.Keeps.admits (hkeeps : s.Keeps items after) (hrank : c.rank < caller.rank)
    (hopens : caller.opens c = 0) (hloops : caller.loopsInside s.loopDepth = s.loopDepth)
    (hready : c.Ready after) : caller.Admits items s c after :=
  ⟨hkeeps.within, .inr ⟨hkeeps.notLonger, hrank⟩, by rw [hopens, hkeeps.sameDepths.depth_eq]; rfl,
    hkeeps.sameDepths.loopDepth_eq.trans hloops.symm, hready⟩

theorem State.Consumes.admits (hconsumes : s.Consumes items after)
    (hopens : caller.opens c = 0) (hloops : caller.loopsInside s.loopDepth = s.loopDepth)
    (hready : c.Ready after) : caller.Admits items s c after :=
  ⟨hconsumes.within, .inl hconsumes.shorter,
    by rw [hopens, hconsumes.sameDepths.depth_eq]; rfl,
    hconsumes.sameDepths.loopDepth_eq.trans hloops.symm, hready⟩

/-- What was entered one level deeper may be left. -/
theorem State.Keeps.admits_leave {inside : State} (hkeeps : s.Keeps items after)
    (hinside : after.enter.Consumes items inside) (hopens : caller.opens Call.leave = 1)
    (hloops : caller.loopsInside s.loopDepth = s.loopDepth) :
    caller.Admits items s Call.leave inside := by
  have hdepth : inside.depth = s.depth + 1 :=
    hinside.sameDepths.depth_eq.trans (congrArg (· + 1) hkeeps.sameDepths.depth_eq)
  have hafter := hkeeps.trans_consumes hinside.leave
  exact ⟨hinside.within, .inl hafter.shorter, by rw [hopens, hdepth],
    hafter.sameDepths.loopDepth_eq.trans hloops.symm,
    Nat.lt_of_lt_of_eq (Nat.succ_pos s.depth) hdepth.symm⟩

end Admits

/-! ### Steps that keep a promise -/

namespace Steps

variable {α β γ : Type}

/-- That steps taken in the course of a call make only calls that it may make, and come to good
results only, if the calls that they make keep their promises. -/
def Meets (items : List Item) (caller : Call γ) (s : State) (good : α → Prop) : Steps α → Prop
  | ends result => ∀ value, result = .ok value → good value
  | calls c t next =>
    caller.Admits items s c t ∧
      ∀ found, c.Promises items t found → (next found).Meets items caller s good

section Meets

variable {items : List Item} {caller : Call γ} {s : State} {good : α → Prop}

theorem Meets.pure {value : α} (hgood : good value) :
    (pure value : Steps α).Meets items caller s good := by
  intro other hother
  cases hother
  exact hgood

theorem meets_fail {t : State} {setting : Setting} {fault : ParseFault} :
    (liftM (t.fail setting fault : Except ParseError α) : Steps α).Meets items caller s good :=
  fun _ h ↦ absurd h fail_ne_ok

theorem meets_unexpected {t : State} {setting : Setting} {item : Item} {clause : Clause} :
    (liftM (t.unexpected setting item clause : Except ParseError α) : Steps α).Meets items caller
      s good := fun _ h ↦ absurd h unexpected_ne_ok

theorem Meets.mono {other : α → Prop} {steps : Steps α}
    (hsteps : steps.Meets items caller s other) (himp : ∀ value, other value → good value) :
    steps.Meets items caller s good := by
  induction steps with
  | ends result => exact fun value hvalue ↦ himp value (hsteps value hvalue)
  | calls c t next ih => exact ⟨hsteps.1, fun found hfound ↦ ih found (hsteps.2 found hfound)⟩

theorem Meets.bind {first : Steps β} {next : β → Steps α}
    (hfirst : first.Meets items caller s fun value ↦ (next value).Meets items caller s good) :
    (first >>= next).Meets items caller s good := by
  change (first.bind next).Meets items caller s good
  induction first with
  | ends result =>
    cases result with
    | error fault =>
      intro value hvalue
      cases hvalue
    | ok value => exact hfirst value rfl
  | calls c t next ih =>
    exact ⟨hfirst.1, fun found hfound ↦ ih found (hfirst.2 found hfound)⟩

theorem Meets.lift_bind {result : Except ParseError β} {next : β → Steps α}
    (hnext : ∀ value, result = .ok value → (next value).Meets items caller s good) :
    (liftM result >>= next : Steps α).Meets items caller s good :=
  .bind hnext

theorem Meets.call {c : Call α} {t : State} {good : α × State → Prop}
    (hadmits : caller.Admits items s c t)
    (hgood : ∀ value after, c.Promises items t (value, after) → good (value, after)) :
    (call c t).Meets items caller s good := by
  refine ⟨hadmits, fun found hfound value hvalue ↦ ?_⟩
  cases hvalue
  exact hgood found.1 found.2 hfound

theorem Meets.call_bind {c : Call β} {t : State} {next : β × State → Steps α}
    (hadmits : caller.Admits items s c t)
    (hnext : ∀ value after, c.Promises items t (value, after) →
      (next (value, after)).Meets items caller s good) :
    (Steps.call c t >>= next).Meets items caller s good :=
  .bind (.call hadmits hnext)

theorem Meets.ite {condition : Prop} [Decidable condition] {first second : Steps α}
    (hfirst : condition → first.Meets items caller s good)
    (hsecond : ¬ condition → second.Meets items caller s good) :
    (if condition then first else second).Meets items caller s good := by
  split
  next h => exact hfirst h
  next h => exact hsecond h

end Meets

end Steps

end Parse

end Stencil.Syntax
