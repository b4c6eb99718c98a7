import Stencil.Proofs.Grammar.Promises
import Stencil.Proofs.Lexing.Stages

/-!
# A parse ends

A call is closer to the end of the items than the call that makes it, so calls nest to a depth that
the number of items bounds, and every call has a result (`Call.evaluate_eq`). Between a call and a
further one of the same function inside it an item is read (`Call.Makes.progress`), and wherever a
call is made an item is left and the depths are those of the calls around it
(`Call.Reaches.admits`).
-/

set_option autoImplicit false
set_option relaxedAutoImplicit false

namespace Stencil.Syntax

open Parse

namespace Parse

/-! ### Promises are kept -/

namespace Call

variable {α β : Type}

/-- How far a call is from the end of the items. -/
def height (c : Call α) (s : State) : Nat := ranks * s.rest.length + c.rank

theorem Admits.height_lt {items : List Item} {caller : Call α} {s : State} {c : Call β} {t : State}
    (hadmits : caller.Admits items s c t) : c.height t < caller.height s := by
  have hrank := c.rank_lt
  unfold height ranks at *
  rcases hadmits.progress with hshorter | ⟨hle, hrank⟩
  · have : t.rest.length < s.rest.length := hshorter
    omega
  · have : t.rest.length ≤ s.rest.length := hle
    omega

end Call

/-- Steps come to good results if the calls that they may make keep their promises. -/
theorem Steps.Meets.of_eval {α γ : Type} {setting : Setting} {items : List Item} {caller : Call γ}
    {s : State} {good : α → Prop} {steps : Steps α} (hsteps : steps.Meets items caller s good)
    (hcalls : ∀ {β : Type} (c : Call β) t found, caller.Admits items s c t →
      c.run setting t = .ok found → c.Promises items t found)
    {value : α} (heval : steps.eval setting = .ok value) : good value := by
  induction steps with
  | ends result => exact hsteps value heval
  | calls c t next ih =>
    obtain ⟨found, hfound, hnext⟩ := bind_eq_ok.mp heval
    exact ih found (hsteps.2 found (hcalls c t found hsteps.1 hfound)) hnext

/-- Every call keeps its promise. -/
theorem Call.promises {α : Type} {setting : Setting} {items : List Item} (hend : HaveEnd items)
    (c : Call α) {s : State} (hs : s.Within items) (hready : c.Ready s) {found : α × State}
    (hrun : c.run setting s = .ok found) : c.Promises items s found := by
  rw [Call.run_eq] at hrun
  refine (c.meets_script hend hs hready).of_eval (fun d t other hadmits hother ↦ ?_) hrun
  have := hadmits.height_lt
  exact d.promises hend hadmits.within hadmits.ready hother
termination_by c.height s

/-! ### Results -/

/-- What steps come to with what is answered to their calls, if each is answered. -/
def Steps.answer {α : Type}
    (answers : {β : Type} → Call β → State → Option (Except ParseError (β × State))) :
    Steps α → Option (Except ParseError α)
  | ends result => some result
  | calls c s next =>
    match answers c s with
    | none => none
    | some (.error fault) => some (.error fault)
    | some (.ok found) => (next found).answer answers

/-- What a call gives if no more calls than so many are open at once, and nothing if more are. -/
def Call.evaluate {α : Type} (setting : Setting) (depth : Nat) (c : Call α) (s : State) :
    Option (Except ParseError (α × State)) :=
  match depth with
  | 0 => none
  | depth + 1 => (c.script setting s).answer fun d t ↦ d.evaluate setting depth t

/-- Steps that may be made come to their result where each call that they may make does. -/
theorem Steps.Meets.answer_eq {α γ : Type} {setting : Setting} {items : List Item}
    {caller : Call γ} {s : State} {good : α → Prop} {steps : Steps α}
    (hsteps : steps.Meets items caller s good)
    {answers : {β : Type} → Call β → State → Option (Except ParseError (β × State))}
    (hcalls : ∀ {β : Type} (c : Call β) t, caller.Admits items s c t →
      answers c t = some (c.run setting t) ∧
        ∀ found, c.run setting t = .ok found → c.Promises items t found) :
    steps.answer answers = some (steps.eval setting) := by
  induction steps with
  | ends result => rfl
  | calls c t next ih =>
    obtain ⟨hanswer, hpromise⟩ := hcalls c t hsteps.1
    rw [Steps.answer, Steps.eval, hanswer]
    cases hrun : c.run setting t with
    | error fault => rfl
    | ok found => exact ih found (hsteps.2 found (hpromise found hrun))

/-- Every call gives a result with no more calls open at once than the items left allow. -/
theorem Call.evaluate_eq {α : Type} {setting : Setting} {items : List Item} (hend : HaveEnd items)
    (depth : Nat) (c : Call α) {s : State} (hs : s.Within items) (hready : c.Ready s)
    (hdepth : c.height s < depth) : c.evaluate setting depth s = some (c.run setting s) := by
  induction depth generalizing α s with
  | zero => exact absurd hdepth (Nat.not_lt_zero _)
  | succ depth ih =>
    rw [Call.evaluate, Call.run_eq]
    refine (c.meets_script hend hs hready).answer_eq fun d t hadmits ↦ ?_
    have hheight := hadmits.height_lt
    exact ⟨ih d hadmits.within hadmits.ready (by omega),
      fun found hrun ↦ d.promises hend hadmits.within hadmits.ready hrun⟩

/-! ### Calls inside calls -/

/-- That steps come to a call, by the results of the calls before it. -/
inductive Steps.Makes {α β : Type} (setting : Setting) (c : Call β) (t : State) : Steps α → Prop
  | here {next : β × State → Steps α} : Makes setting c t (.calls c t next)
  | later {γ : Type} {first : Call γ} {u : State} {next : γ × State → Steps α} {found : γ × State}
    (hrun : first.run setting u = .ok found) (hmakes : Makes setting c t (next found)) :
    Makes setting c t (.calls first u next)

/-- That a call makes a further call. -/
def Call.Makes {α β : Type} (setting : Setting) (caller : Call α) (s : State) (c : Call β)
    (t : State) : Prop :=
  (caller.script setting s).Makes setting c t

/-- That a call is made inside another one, or is the same. -/
inductive Call.Reaches {α : Type} (setting : Setting) (caller : Call α) (s : State) :
    {β : Type} → Call β → State → Prop
  | refl : Reaches setting caller s caller s
  | step {β γ : Type} {c : Call β} {t : State} {d : Call γ} {u : State}
    (hreaches : Reaches setting caller s c t) (hmakes : c.Makes setting t d u) :
    Reaches setting caller s d u

section Calls

variable {α β γ : Type} {setting : Setting} {items : List Item} {caller : Call α} {c : Call β}
  {d : Call γ} {s t u : State}

/-- Steps come only to calls that they may make. -/
theorem Steps.Meets.admits {δ : Type} {good : δ → Prop} {steps : Steps δ}
    (hend : HaveEnd items) (hsteps : steps.Meets items caller s good)
    (hmakes : steps.Makes setting c t) : caller.Admits items s c t := by
  induction hmakes with
  | here => exact hsteps.1
  | later hrun _ ih =>
    exact ih (hsteps.2 _ (Call.promises hend _ hsteps.1.within hsteps.1.ready hrun))

theorem Call.Makes.admits (hend : HaveEnd items) (hs : s.Within items) (hready : caller.Ready s)
    (hmakes : caller.Makes setting s c t) : caller.Admits items s c t :=
  (caller.meets_script hend hs hready).admits hend hmakes

/-- Where a call is reached an item is left, and the call is ready. -/
theorem Call.Reaches.ready (hend : HaveEnd items) (hs : s.Within items) (hready : caller.Ready s)
    (hreaches : caller.Reaches setting s c t) : t.Within items ∧ c.Ready t := by
  induction hreaches with
  | refl => exact ⟨hs, hready⟩
  | step _ hmakes ih =>
    have hadmits := hmakes.admits hend ih.1 ih.2
    exact ⟨hadmits.within, hadmits.ready⟩

/-- Between a call and one inside it an item is read, unless the function is further down. -/
theorem Call.Makes.progress (hend : HaveEnd items) (hs : s.Within items)
    (hready : caller.Ready s) (hmakes : caller.Makes setting s c t)
    (hreaches : c.Reaches setting t d u) :
    u.Shorter s ∨ u.NotLonger s ∧ d.rank < caller.rank := by
  have hadmits := hmakes.admits hend hs hready
  induction hreaches with
  | refl => exact hadmits.progress
  | step hreaches hmakes ih =>
    have hinner := hreaches.ready hend hadmits.within hadmits.ready
    have hnext := (hmakes.admits hend hinner.1 hinner.2).progress
    rcases ih, hnext with ⟨hshorter | ⟨hle, hrank⟩, hshorter' | ⟨hle', hrank'⟩⟩
    · exact .inl (hshorter.trans hshorter')
    · exact .inl (hshorter.trans_notLonger hle')
    · exact .inl (hle.trans_shorter hshorter')
    · exact .inr ⟨hle.trans hle', Nat.lt_trans hrank' hrank⟩

end Calls

/-! ### A whole parse -/

/-- How a parse goes through its items. -/
structure Halts (setting : Setting) (items : List Item) : Prop where
  /-- A result is there with no more calls open at once than some for each item. -/
  ends : Call.source.evaluate setting (Call.ranks * (items.length + 1)) (.initial items) =
    some (Call.source.run setting (.initial items))
  /-- Where a call is made an item is left to be read. -/
  within : ∀ {α : Type} {c : Call α} {s : State},
    Call.source.Reaches setting (.initial items) c s → s.Within items
  /-- What is read is one of the items, and what is left is those behind it. -/
  reads : ∀ {s : State} {found : Option Item × State},
    Call.source.Reaches setting (.initial items) Call.item s →
    Call.item.run setting s = .ok found → ∃ cursor item, items[cursor]? = some item ∧
      found.1 = some item ∧ found.2.rest = items.drop (cursor + 1)
  /-- Between a call and one of the same function inside it, or of one further up, an item is
  read. -/
  progress : ∀ {α β γ : Type} {c : Call α} {d : Call β} {e : Call γ} {s t u : State},
    Call.source.Reaches setting (.initial items) c s → c.Makes setting s d t →
    d.Reaches setting t e u → c.rank ≤ e.rank → u.Shorter s
  /-- A call is made with the depths of the call that makes it, but for what that one opens. -/
  depths : ∀ {α β : Type} {c : Call α} {d : Call β} {s t : State},
    Call.source.Reaches setting (.initial items) c s → c.Makes setting s d t →
    t.depth = s.depth + c.opens d ∧ t.loopDepth = c.loopsInside s.loopDepth
  /-- What is left was entered. -/
  leave : ∀ {s : State}, Call.source.Reaches setting (.initial items) Call.leave s → 0 < s.depth
  leaveBranch : ∀ {kind : BranchKind} {s : State},
    Call.source.Reaches setting (.initial items) (Call.leaveBranch kind) s →
    loopsOf kind ≤ s.loopDepth
  /-- What a call gives is what it promises. -/
  promises : ∀ {α : Type} {c : Call α} {s : State} {found : α × State},
    Call.source.Reaches setting (.initial items) c s → c.run setting s = .ok found →
    c.Promises items s found

/-- A parse of items that have an end comes to an end. -/
theorem halts (setting : Setting) {items : List Item} (hend : HaveEnd items) :
    Halts setting items := by
  have hs : (State.initial items).Within items := by
    obtain ⟨before, last, rfl, -⟩ := hend
    exact ⟨0, by simp, rfl⟩
  have hsource : Call.source.Ready (State.initial items) := trivial
  have hready {α : Type} {c : Call α} {s : State}
      (hreaches : Call.source.Reaches setting (.initial items) c s) :
      s.Within items ∧ c.Ready s := hreaches.ready hend hs hsource
  constructor
  case ends =>
    refine Call.evaluate_eq hend _ _ hs hsource ?_
    change Call.ranks * items.length + 20 < Call.ranks * (items.length + 1)
    unfold Call.ranks
    omega
  case within => exact fun hreaches ↦ (hready hreaches).1
  case reads =>
    intro s found hreaches hrun
    obtain ⟨item, hfound, hread⟩ :=
      Call.promises hend Call.item (hready hreaches).1 (hready hreaches).2 hrun
    obtain ⟨cursor, hcursor, hrest⟩ :=
      (State.keeps_skipSpaces hend (hready hreaches).1).within
    rw [hread.rest_eq, List.drop_eq_getElem_cons hcursor, List.cons.injEq] at hrest
    exact ⟨cursor, item, List.getElem?_eq_some_iff.mpr ⟨hcursor, hrest.1.symm⟩, hfound, hrest.2⟩
  case progress =>
    intro _ _ _ c d e s t u hreaches hmakes hinner hrank
    rcases hmakes.progress hend (hready hreaches).1 (hready hreaches).2 hinner with
      hshorter | ⟨-, hlower⟩
    · exact hshorter
    · omega
  case depths =>
    intro _ _ _ _ _ _ hreaches hmakes
    have hadmits := hmakes.admits hend (hready hreaches).1 (hready hreaches).2
    exact ⟨hadmits.depth_eq, hadmits.loopDepth_eq⟩
  case leave => exact fun hreaches ↦ (hready hreaches).2
  case leaveBranch => exact fun hreaches ↦ (hready hreaches).2
  case promises =>
    exact fun hreaches hrun ↦
      Call.promises hend _ (hready hreaches).1 (hready hreaches).2 hrun

end Parse

/-- Lexing and parsing come to an end on every source, for all delimiters and functions: the lexer
gives the items after a number of stages that the length of the source bounds, and the parser trees
or a fault with no more calls open at once than the number of items allows. A stage of the lexer
takes something of the text away or hands it over to one that does, a function of the parser calls
itself again only behind an item that was read in between, the parser is always at one of the items,
and it leaves only bodies, parentheses and loops that it entered. -/
theorem parse_halts (name source : String) (delimiters : Delimiters)
    (isFunction : String → Bool) :
    Lexing.Halts delimiters source ∧
      Parse.Halts ⟨name, isFunction⟩ (lex delimiters source) ∧
      (Call.source.evaluate ⟨name, isFunction⟩ (Call.ranks * ((lex delimiters source).length + 1))
        (.initial (lex delimiters source))).map (Prod.fst <$> ·) =
        some (parse name delimiters isFunction source) := by
  have hhalts := Parse.halts ⟨name, isFunction⟩ (haveEnd_lex delimiters source)
  refine ⟨Lexing.halts delimiters source, hhalts, ?_⟩
  rw [hhalts.ends, parse_eq_run]
  rfl

end Stencil.Syntax
