import Stencil.Proofs.Grammar.Termination
import Stencil.Proofs.Unfolding.Items

/-!
# Two parses in step

The shorter and the longer source are parsed in step: the same calls on both, with states that
differ in nothing but positions, lines, depths and the items (`State.Level`), and with items that
are related. `Accords` says what that comes to. Either both are refused, or both give values that
are related, or the longer one alone is refused, for being too deep.

The calls of the first parse are answered by answers that may be missing, so that what is proved of
its steps holds by induction on how many calls may be open.
-/

set_option autoImplicit false
set_option relaxedAutoImplicit false

namespace Stencil.Syntax

namespace Parse

/-! ### Results -/

/-- That two results go together: related values, two faults, or a value and the fault of being too
deep. Nothing is said where the first result is missing. -/
def Accords {α β : Type} (related : α → β → Prop) :
    Option (Except ParseError α) → Except ParseError β → Prop
  | none, _ => True
  | some (.error _), .error _ => True
  | some (.error _), .ok _ => False
  | some (.ok _), .error error => error.fault = .tooDeep
  | some (.ok value), .ok other => related value other

/-- Results go together for every relation that is weaker. -/
theorem Accords.imp {α β : Type} {related weaker : α → β → Prop}
    {first : Option (Except ParseError α)} {second : Except ParseError β}
    (haccords : Accords related first second)
    (himp : ∀ value other, related value other → weaker value other) :
    Accords weaker first second := by
  rcases first with _ | _ | value <;> rcases second with _ | other
  · trivial
  · trivial
  · trivial
  · exact haccords
  · exact haccords
  · exact himp value other haccords

/-- What is taken of values that go together goes together. -/
theorem Accords.map {α β γ δ : Type} {related : γ → δ → Prop} (f : α → γ) (g : β → δ)
    {first : Except ParseError α} {second : Except ParseError β}
    (haccords : Accords (fun value other ↦ related (f value) (g other)) (some first) second) :
    Accords related (some (f <$> first)) (g <$> second) := by
  cases first <;> cases second <;> exact haccords

/-- Results go together if each has a value where the other has one, and the values are related. -/
theorem Accords.of_ok {α β : Type} {related : α → β → Prop} {first : Except ParseError α}
    {second : Except ParseError β}
    (hforth : ∀ value, first = .ok value → ∃ other, second = .ok other ∧ related value other)
    (hback : ∀ other, second = .ok other → ∃ value, first = .ok value) :
    Accords related (some first) second := by
  cases first with
  | error fault =>
    cases second with
    | error fault' => trivial
    | ok other =>
      obtain ⟨value, hvalue⟩ := hback other rfl
      cases hvalue
  | ok value =>
    obtain ⟨other, rfl, hrelated⟩ := hforth value rfl
    exact hrelated

/-- Faults about items go together. -/
theorem Accords.unexpected {α β : Type} {related : α → β → Prop} {setting : Setting} {s t : State}
    {item item' : Item} {clause clause' : Clause} :
    Accords related (some (s.unexpected setting item clause))
      (t.unexpected setting item' clause') := by
  unfold State.unexpected
  split <;> split <;> trivial

/-- Answers to calls, of which none is wrong. -/
def AreAnswers (setting : Setting)
    (answers : {β : Type} → Call β → State → Option (Except ParseError (β × State))) : Prop :=
  ∀ {β : Type} (c : Call β) (s : State) (result : Except ParseError (β × State)),
    answers c s = some result → c.run setting s = result

namespace Steps

section Answer

variable {α β : Type}
  {answers : {β : Type} → Call β → State → Option (Except ParseError (β × State))}

@[simp]
theorem answer_pure (value : α) : (pure value : Steps α).answer answers = some (.ok value) := rfl

@[simp]
theorem answer_liftM (result : Except ParseError α) :
    (liftM result : Steps α).answer answers = some result := rfl

theorem answer_bind (first : Steps α) (second : α → Steps β) :
    (first >>= second).answer answers =
      match first.answer answers with
      | none => none
      | some (.error fault) => some (.error fault)
      | some (.ok value) => (second value).answer answers := by
  change (first.bind second).answer answers = _
  induction first with
  | ends result => cases result <;> rfl
  | calls c s next ih =>
    simp only [bind, answer]
    rcases answers c s with _ | _ | found
    · rfl
    · rfl
    · exact ih found

@[simp]
theorem answer_call (c : Call α) (s : State) : (call c s).answer answers = answers c s := by
  simp only [call, answer]
  rcases answers c s with _ | _ | _ <;> rfl

/-- What steps come to with answers is what they come to. -/
theorem eval_of_answer {setting : Setting} (hanswers : AreAnswers setting answers)
    {steps : Steps α} {result : Except ParseError α}
    (hanswer : steps.answer answers = some result) : steps.eval setting = result := by
  induction steps with
  | ends other => exact Option.some.inj hanswer
  | calls c s next ih =>
    rw [answer] at hanswer
    rw [eval]
    cases hcall : answers c s with
    | none =>
      rw [hcall] at hanswer
      cases hanswer
    | some found =>
      rw [hcall] at hanswer
      rw [hanswers c s found hcall]
      cases found with
      | error fault => exact Option.some.inj hanswer
      | ok found => exact ih found hanswer

end Answer

end Steps

/-- The answers that come from a bounded number of open calls are right. -/
theorem areAnswers_evaluate (setting : Setting) (depth : Nat) :
    AreAnswers setting fun {_} c s ↦ Call.evaluate setting depth c s := by
  induction depth with
  | zero =>
    intro β c s result hresult
    cases hresult
  | succ depth ih =>
    intro β c s result hresult
    rw [Call.run_eq]
    exact Steps.eval_of_answer ih hresult

/-! ### Steps -/

section Steps

variable {α β γ δ : Type} {setting : Setting}
  {answers : {β : Type} → Call β → State → Option (Except ParseError (β × State))}

/-- That what the first steps come to with answers goes together with what the second come to. -/
def Steps.Follow (setting : Setting)
    (answers : {β : Type} → Call β → State → Option (Except ParseError (β × State)))
    (related : α → β → Prop) (first : Steps α) (second : Steps β) : Prop :=
  Accords related (first.answer answers) (second.eval setting)

namespace Steps.Follow

variable {related : α → β → Prop}

theorem imp {weaker : α → β → Prop} {first : Steps α} {second : Steps β}
    (hfollow : first.Follow setting answers related second)
    (himp : ∀ value other, related value other → weaker value other) :
    first.Follow setting answers weaker second :=
  Accords.imp hfollow himp

theorem pure {value : α} {other : β} (hrelated : related value other) :
    (Pure.pure value : Steps α).Follow setting answers related (Pure.pure other) := hrelated

/-- Faults go together. -/
theorem fail {s t : State} {fault fault' : ParseFault} :
    (liftM (s.fail setting fault : Except ParseError α) : Steps α).Follow setting answers related
      (liftM (t.fail setting fault' : Except ParseError β)) := trivial

/-- Faults about items go together. -/
theorem unexpected {s t : State} {item item' : Item} {clause clause' : Clause} :
    (liftM (s.unexpected setting item clause : Except ParseError α) : Steps α).Follow setting
      answers related (liftM (t.unexpected setting item' clause' : Except ParseError β)) :=
  Accords.unexpected

/-- Steps go together if their parts do. -/
theorem bind {next : γ → δ → Prop} {first : Steps α} {first' : Steps β} {second : α → Steps γ}
    {second' : β → Steps δ} (hfirst : first.Follow setting answers related first')
    (hsecond : ∀ value other, related value other →
      (second value).Follow setting answers next (second' other)) :
    (first >>= second).Follow setting answers next (first' >>= second') := by
  unfold Follow at *
  rw [answer_bind, eval_bind]
  generalize first.answer answers = found at hfirst
  generalize first'.eval setting = found' at hfirst
  rcases found with _ | _ | value <;> rcases found' with _ | other
  · trivial
  · trivial
  · trivial
  · exact absurd hfirst not_false
  · -- the second source alone is refused, and what comes next does not matter
    change Accords next ((second value).answer answers) (.error _)
    rcases (second value).answer answers with _ | _ | _
    · trivial
    · trivial
    · exact hfirst
  · exact hsecond value other hfirst

/-- Steps go together where the same branch is taken. -/
theorem ite {condition condition' : Prop} [Decidable condition] [Decidable condition']
    {first second : Steps α} {first' second' : Steps β} (hiff : condition ↔ condition')
    (hfirst : condition → first.Follow setting answers related first')
    (hsecond : ¬ condition → second.Follow setting answers related second') :
    (if condition then first else second).Follow setting answers related
      (if condition' then first' else second') := by
  by_cases hcondition : condition
  · rw [if_pos hcondition, if_pos (hiff.mp hcondition)]
    exact hfirst hcondition
  · rw [if_neg hcondition, if_neg (mt hiff.mpr hcondition)]
    exact hsecond hcondition

/-- Steps that come to the same go together with the same steps. -/
theorem congr_right {first : Steps α} {second second' : Steps β}
    (hfollow : first.Follow setting answers related second')
    (heval : second.eval setting = second'.eval setting) :
    first.Follow setting answers related second := by
  unfold Follow at *
  rwa [heval]

/-- A call goes together with steps that a call and a value come to. -/
theorem of_bind_pure {first : Steps α} {second : Steps β}
    (hfollow : (first >>= Pure.pure).Follow setting answers related second) :
    first.Follow setting answers related second := by
  unfold Follow at *
  rw [answer_bind] at hfollow
  generalize first.answer answers = found at hfollow ⊢
  rcases found with _ | _ | _ <;> exact hfollow

/-- What the second parse alone refuses for being too deep is admitted. -/
theorem checkDepth {first : Steps α} {second : Unit → Steps β} (s : State)
    (hfollow : first.Follow setting answers related (second ())) :
    first.Follow setting answers related (liftM (checkDepth setting s) >>= second) := by
  unfold Follow at *
  rw [eval_bind, eval_liftM, Parse.checkDepth]
  split
  next =>
    generalize first.answer answers = found
    rcases found with _ | _ | _
    · trivial
    · trivial
    · rfl
  next => exact hfollow

/-- Results that are there already go together. -/
theorem lift {first : Except ParseError α} {second : Except ParseError β}
    (haccords : Accords related (some first) second) :
    (liftM first : Steps α).Follow setting answers related (liftM second) := haccords

/-- A call goes together with a call if its answer does with what the other gives. -/
theorem call {found : α × State → β × State → Prop} {c : Call α} {d : Call β} {s t : State}
    (haccords : Accords found (answers c s) (d.run setting t)) :
    (Steps.call c s).Follow setting answers found (Steps.call d t) := by
  unfold Follow
  rw [eval_call, answer_call]
  exact haccords

/-- Steps go together if what they come to does, as no answer is wrong. -/
theorem of_eval (hanswers : AreAnswers setting answers) {first : Steps α} {second : Steps β}
    (haccords : Accords related (some (first.eval setting)) (second.eval setting)) :
    first.Follow setting answers related second := by
  unfold Follow
  cases hanswer : first.answer answers with
  | none => trivial
  | some result => exact eval_of_answer hanswers hanswer ▸ haccords

end Steps.Follow

end Steps

end Parse

end Stencil.Syntax
