import Stencil.Proofs.Grammar.Derivation

/-!
# The steps of the parser

What each step of the parser that is not itself recursive reads: one equivalence for each, between
the step's success and the relation of the grammar that describes it. The recursive parts of the
parser are built from these steps, and their proofs cite the equivalences and open no step again.
-/

set_option autoImplicit false
set_option relaxedAutoImplicit false

namespace Stencil.Syntax.Parse

/-! ### Failing and going on -/

/-- What follows a step gives a result exactly if the step does and what follows it does. -/
theorem bind_eq_ok {ε α β : Type} {step : Except ε α} {next : α → Except ε β} {result : β} :
    (step >>= next) = .ok result ↔ ∃ value, step = .ok value ∧ next value = .ok result := by
  cases step with
  | error fault => simp [bind, Except.bind]
  | ok value => simp [bind, Except.bind]

@[simp]
theorem pure_eq_ok {ε α : Type} {value result : α} :
    (pure value : Except ε α) = .ok result ↔ value = result := by
  simp [pure, Except.pure]

section Steps

variable {setting : Setting} {s : State}

@[simp]
theorem fail_ne_ok {α : Type} {fault : ParseFault} {value : α} :
    s.fail setting fault ≠ .ok value := by
  simp [State.fail]

@[simp]
theorem unexpected_ne_ok {α : Type} {item : Item} {clause : Clause} {value : α} :
    s.unexpected setting item clause ≠ .ok value := by
  unfold State.unexpected
  split <;> simp

/-! ### Items -/

/-- Reading an item leaves fewer. -/
theorem State.Reads.shorter {item : Item} {after : State} (hread : s.Reads item after) :
    after.Shorter s := by
  have hle := s.skipSpaces_notLonger
  rw [State.NotLonger, hread.rest_eq, List.length_cons] at hle
  exact hle

/-- The item that is read is the next one. -/
theorem State.Reads.peek_eq {item : Item} {after : State} (hread : s.Reads item after) :
    s.skipSpaces.peek = item := by
  rw [State.peek, hread.rest_eq]
  rfl

/-- Reading an item leaves the variables as they are. -/
theorem State.Reads.visible_eq {item : Item} {after : State} (hread : s.Reads item after) :
    after.visible = s.visible := by
  rw [hread.state_eq]

/-- The item that is read is the next one, and the state after it is the next state. -/
theorem next_eq_some_iff {reading : Reading Item s} :
    s.next = some reading ↔ s.Reads reading.value reading.state := by
  unfold State.next
  constructor
  · intro hnext
    split at hnext
    · rename_i hne
      obtain ⟨item, rest, hrest⟩ := List.exists_cons_of_ne_nil hne
      cases hnext
      simp only [State.peek, State.advance, hrest]
      exact ⟨hrest, rfl⟩
    · cases hnext
  · intro hread
    obtain ⟨item, after, hshorter⟩ := reading
    obtain ⟨hrest, hstate⟩ := hread
    simp only at hrest hstate
    rw [dif_pos (by rw [hrest]; exact List.cons_ne_nil item after.rest)]
    congr 2
    · rw [State.peek, hrest]
      rfl
    · rw [hstate]
      simp only [State.advance, hrest]
      rfl

/-- No item is left exactly if none is read. -/
theorem next_eq_none_iff : s.next = none ↔ s.skipSpaces.rest = [] := by
  unfold State.next
  split <;> simp_all

theorem nextItem_eq_ok_iff {clause : Clause} {reading : Reading Item s} :
    nextItem setting s clause = .ok reading ↔ s.Reads reading.value reading.state := by
  rw [← next_eq_some_iff]
  unfold nextItem
  cases s.next <;> simp

theorem expect_eq_ok_iff {kinds : List ItemKind} {clause : Clause} {reading : Reading Item s} :
    expect setting s kinds clause = .ok reading ↔
      s.Reads reading.value reading.state ∧ reading.value.kind ∈ kinds := by
  unfold expect
  rw [bind_eq_ok]
  constructor
  · rintro ⟨found, hfound, hresult⟩
    split at hresult
    · rename_i hkind
      rw [pure_eq_ok] at hresult
      subst hresult
      exact ⟨nextItem_eq_ok_iff.mp hfound, by simpa using hkind⟩
    · exact absurd hresult unexpected_ne_ok
  · rintro ⟨hread, hkind⟩
    exact ⟨reading, nextItem_eq_ok_iff.mpr hread, by rw [if_pos (by simpa using hkind)]; rfl⟩

/-- An item of one kind is expected and read. -/
theorem expect_singleton_eq_ok_iff {kind : ItemKind} {clause : Clause} {reading : Reading Item s} :
    expect setting s [kind] clause = .ok reading ↔
      s.Reads reading.value reading.state ∧ reading.value.kind = kind := by
  rw [expect_eq_ok_iff, List.mem_singleton]

theorem literalValue_eq_ok_iff {item : Item} {text : String} :
    literalValue setting s item = .ok text ↔ Literal.unquote item.value = some text := by
  unfold literalValue
  cases Literal.unquote item.value <;> simp

theorem checkDepth_eq_ok_iff {value : Unit} :
    checkDepth setting s = .ok value ↔ s.depth < maxDepth := by
  unfold checkDepth
  by_cases hdepth : maxDepth ≤ s.depth
  · rw [if_pos hdepth]
    simpa using hdepth
  · rw [if_neg hdepth]
    simpa using hdepth

/-! ### Declarations -/

/-- Spaces are skipped at once. -/
theorem skipFrom_skipFrom (line : Nat) (items : List Item) :
    State.skipFrom (State.skipFrom line items).1 (State.skipFrom line items).2 =
      State.skipFrom line items := by
  induction items generalizing line with
  | nil => rfl
  | cons item rest ih =>
    simp only [State.skipFrom]
    split
    next => exact ih item.position.line
    next hkind => simp [State.skipFrom, hkind]

@[simp]
theorem skipSpaces_skipSpaces : s.skipSpaces.skipSpaces = s.skipSpaces := by
  simp only [State.skipSpaces, skipFrom_skipFrom]

/-- One item is read at a time. -/
theorem State.Reads.unique {first second : Item} {afterFirst afterSecond : State}
    (hfirst : s.Reads first afterFirst) (hsecond : s.Reads second afterSecond) :
    first = second ∧ afterFirst = afterSecond := by
  have hrest := hfirst.rest_eq.symm.trans hsecond.rest_eq
  rw [List.cons.injEq] at hrest
  refine ⟨hrest.1, ?_⟩
  rw [hfirst.state_eq, hsecond.state_eq, hrest.1, hrest.2]

/-- Where no item is left none is read. -/
theorem not_reads_of_next_eq_none (hnext : s.next = none) (item : Item) (after : State) :
    ¬ s.Reads item after := by
  intro hread
  rw [next_eq_none_iff, hread.rest_eq] at hnext
  cases hnext

/-- No declaration starts with an item that is no variable. -/
theorem not_startsDeclaration_of_kind {item : Item} {after : State} (hread : s.Reads item after)
    (hkind : item.kind ≠ .variable) : ¬ StartsDeclaration s := by
  rintro ⟨first, afterFirst, _, _, hfirst, hvariable, _⟩
  exact hkind ((hread.unique hfirst).1 ▸ hvariable)

/-- No declaration starts where nothing is left after a variable. -/
theorem not_startsDeclaration_of_next {item : Item} {after : State} (hread : s.Reads item after)
    (hnext : after.next = none) : ¬ StartsDeclaration s := by
  rintro ⟨first, afterFirst, sign, afterSign, hfirst, _, hsign, _⟩
  rw [(hread.unique hfirst).2] at hnext
  exact not_reads_of_next_eq_none hnext sign afterSign hsign

/-- No declaration starts where neither a sign nor a separator stands after a variable. -/
theorem not_startsDeclaration_of_sign {item sign : Item} {afterName afterSign : State}
    (hname : s.Reads item afterName) (hsign : afterName.Reads sign afterSign)
    (hdeclaring : isDeclaring sign.kind ≠ true) (hseparator : isSeparator sign ≠ true) :
    ¬ StartsDeclaration s := by
  rintro ⟨first, afterFirst, second, _, hfirst, _, hsecond, hkind⟩
  rw [← (hname.unique hfirst).2] at hsecond
  rw [← (hsign.unique hsecond).1] at hkind
  exact hkind.elim hdeclaring hseparator

/-- What the parser reads of a declaration is derived. -/
theorem declares_of_declarations {clause : Clause} {more : Nat} {reading : Maybe Declarations s}
    (hparse : declarations setting clause more s = .ok reading) :
    Declares more s reading.value reading.state := by
  fun_induction declarations setting clause more s with
  | case1 =>
    rename_i hnext
    cases hparse
    exact .none fun ⟨_, _, _, _, hread, _⟩ ↦ not_reads_of_next_eq_none hnext _ _ hread
  | case2 =>
    rename_i hname _ hnext
    cases hparse
    exact .none (not_startsDeclaration_of_next (next_eq_some_iff.mp hname) hnext)
  | case3 =>
    rename_i hname hvariable _ _ _ hsign _ _ _ hkind
    cases hparse
    exact .last (next_eq_some_iff.mp hname) hvariable (next_eq_some_iff.mp hsign) hkind
  | case4 => exact absurd hparse fail_ne_ok
  | case5 =>
    rename_i hname hvariable _ _ _ hsign _ _ _ _ hseparator _ hfollows ih
    obtain ⟨others, hothers, hresult⟩ := bind_eq_ok.mp hparse
    cases hresult
    exact .more (next_eq_some_iff.mp hname) hvariable (next_eq_some_iff.mp hsign) hseparator
      hfollows (ih hothers)
  | case6 => exact absurd hparse fail_ne_ok
  | case7 =>
    rename_i hname _ _ _ _ hsign _ hdeclaring hseparator
    cases hparse
    exact .none (not_startsDeclaration_of_sign (next_eq_some_iff.mp hname)
      (next_eq_some_iff.mp hsign) hdeclaring hseparator)
  | case8 =>
    rename_i hname hkind
    cases hparse
    exact .none (not_startsDeclaration_of_kind (next_eq_some_iff.mp hname) hkind)

/-- Reading an item makes a next item. -/
theorem State.Reads.next_eq {item : Item} {after : State} (hread : s.Reads item after) :
    s.next = some ⟨item, after, hread.shorter⟩ :=
  next_eq_some_iff.mpr hread

/-- A declaration that is derived is read by the parser. -/
theorem declarations_of_declares {clause : Clause} {more : Nat} {found : Declarations}
    {after : State} (hdeclares : Declares more s found after) :
    ∃ hle, declarations setting clause more s = .ok ⟨found, after, hle⟩ := by
  induction hdeclares with
  | @none more s hnone =>
    refine ⟨s.skipSpaces_notLonger, ?_⟩
    unfold declarations
    cases hnext : s.next with
    | none => rfl
    | some reading =>
      obtain ⟨item, afterName, h1⟩ := reading
      have hname := next_eq_some_iff.mp hnext
      dsimp only
      by_cases hvariable : item.kind = .variable
      · rw [if_pos hvariable]
        cases hafter : afterName.next with
        | none => rfl
        | some reading =>
          obtain ⟨sign, afterSign, h2⟩ := reading
          have hsign := next_eq_some_iff.mp hafter
          have hneither : ¬ (isDeclaring sign.kind = true ∨ isSeparator sign = true) :=
            fun hkind ↦ hnone ⟨item, afterName, sign, afterSign, hname, hvariable, hsign, hkind⟩
          rw [not_or] at hneither
          dsimp only
          exact (if_neg hneither.1).trans (if_neg hneither.2)
      · rw [if_neg hvariable]
  | @last more s afterName afterSign item sign hname hvariable hsign hkind =>
    refine ⟨(hname.shorter.trans hsign.shorter).notLonger, ?_⟩
    unfold declarations
    rw [hname.next_eq]
    dsimp only
    rw [if_pos hvariable, hsign.next_eq]
    dsimp only
    exact if_pos hkind
  | @more more s afterName afterSign after item sign others hname hvariable hsign hseparator
      hnext hothers ih =>
    obtain ⟨hle, hparse⟩ := ih
    refine ⟨((hname.shorter.trans hsign.shorter).trans_notLonger hle).notLonger, ?_⟩
    have hdeclaring : ¬ isDeclaring sign.kind = true := by
      simp only [isSeparator, Bool.and_eq_true, decide_eq_true_eq] at hseparator
      simp [isDeclaring, hseparator.1]
    unfold declarations
    rw [hname.next_eq]
    dsimp only
    rw [if_pos hvariable, hsign.next_eq]
    dsimp only
    refine (if_neg hdeclaring).trans ((if_pos hseparator).trans ((if_pos hnext).trans ?_))
    exact bind_eq_ok.mpr ⟨_, hparse, rfl⟩

/-! ### Terms -/

theorem numberTerm_eq_ok_iff {item : Item} {found : Node} :
    numberTerm setting s item = .ok found ↔
      ∃ literal, NumberLiteral.ofText item.position item.value = .ok literal ∧
        .number literal = found := by
  unfold numberTerm
  cases NumberLiteral.ofText item.position item.value with
  | ok literal => simp
  | error fault => cases fault <;> simp

/-- A number keeps its position and its text. -/
theorem eq_of_ofText {position : Position} {text : String} {literal : NumberLiteral}
    (hvalue : NumberLiteral.ofText position text = .ok literal) :
    literal.position = position ∧ literal.text = text := by
  unfold NumberLiteral.ofText at hvalue
  dsimp only at hvalue
  split at hvalue
  · cases hvalue
    exact ⟨rfl, rfl⟩
  · cases hvalue
    exact ⟨rfl, rfl⟩
  · split at hvalue
    · cases hvalue
    · split at hvalue
      · cases hvalue
        exact ⟨rfl, rfl⟩
      · cases hvalue

/-- An item is a term by itself exactly if the grammar says so. -/
theorem simpleTerm_eq_some_iff {item : Item} {found : Node} :
    simpleTerm setting s item = .ok (some found) ↔ IsTerm setting s.visible item found := by
  constructor
  · intro hterm
    unfold simpleTerm at hterm
    split at hterm
    next hkind =>
      split at hterm
      next hfunction =>
        cases hterm
        exact .identifier hkind hfunction
      next => exact absurd hterm fail_ne_ok
    next hkind =>
      cases hterm
      exact .dot hkind
    next hkind =>
      cases hterm
      exact .nil hkind
    next hkind =>
      split at hterm
      next hvisible =>
        cases hterm
        exact .variableName hkind (by simpa using hvisible)
      next => exact absurd hterm fail_ne_ok
    next hkind =>
      cases hterm
      exact .field hkind
    next hkind =>
      cases hterm
      exact .bool hkind
    next hkind =>
      split at hterm
      next c hvalue =>
        cases hterm
        exact .charConstant hkind hvalue
      next => exact absurd hterm fail_ne_ok
    next hkind =>
      obtain ⟨node, hnumber, hresult⟩ := bind_eq_ok.mp hterm
      obtain ⟨literal, hvalue, rfl⟩ := numberTerm_eq_ok_iff.mp hnumber
      cases hresult
      exact .number hkind hvalue
    next hkind =>
      obtain ⟨text, hvalue, hresult⟩ := bind_eq_ok.mp hterm
      cases hresult
      exact .string (.inl hkind) (literalValue_eq_ok_iff.mp hvalue)
    next hkind =>
      obtain ⟨text, hvalue, hresult⟩ := bind_eq_ok.mp hterm
      cases hresult
      exact .string (.inr hkind) (literalValue_eq_ok_iff.mp hvalue)
    next => cases hterm
  · intro hterm
    cases hterm with
    | identifier hkind hfunction => simp [simpleTerm, hkind, hfunction]
    | dot hkind => simp [simpleTerm, hkind]
    | nil hkind => simp [simpleTerm, hkind]
    | variableName hkind hvisible => simp [simpleTerm, hkind, hvisible, targetOf]
    | field hkind => simp [simpleTerm, hkind]
    | bool hkind => simp [simpleTerm, hkind]
    | charConstant hkind hvalue => simp [simpleTerm, hkind, hvalue]
    | number hkind hvalue =>
      simp only [simpleTerm, hkind]
      exact bind_eq_ok.mpr ⟨_, numberTerm_eq_ok_iff.mpr ⟨_, hvalue, rfl⟩, rfl⟩
    | string hkind hvalue =>
      rcases hkind with hkind | hkind <;> simp only [simpleTerm, hkind] <;>
        exact bind_eq_ok.mpr ⟨_, literalValue_eq_ok_iff.mpr hvalue, rfl⟩

/-- An item is no term by itself, without being refused, exactly if no operand starts with it or it
opens a parenthesis. -/
theorem simpleTerm_eq_none_iff {item : Item} :
    simpleTerm setting s item = .ok none ↔
      startsOperand item.kind = false ∨ item.kind = .leftParen := by
  have hbind {α : Type} {step : Except ParseError α} {next : α → Node} :
      (do return some (next (← step))) ≠ (.ok none : Except ParseError (Option Node)) := by
    intro hstep
    obtain ⟨_, _, hresult⟩ := bind_eq_ok.mp hstep
    cases hresult
  cases hkind : item.kind with
  | keyword word => cases word <;> simp [simpleTerm, hkind, startsOperand]
  | identifier | «variable» => simp only [simpleTerm, hkind, startsOperand]; split <;> simp
  | charConstant => simp only [simpleTerm, hkind, startsOperand]; split <;> simp
  | number => simpa [simpleTerm, hkind, startsOperand] using hbind
  | string => simpa [simpleTerm, hkind, startsOperand] using hbind
  | rawString => simpa [simpleTerm, hkind, startsOperand] using hbind
  | _ => simp [simpleTerm, hkind, startsOperand]

/-- A term by itself that is a variable has a name. -/
theorem IsTerm.path_ne_nil {visible : List String} {item : Item} {base : Node}
    (hterm : IsTerm setting visible item base) :
    ∀ reference, base = .var reference → reference.path ≠ [] := by
  rintro reference rfl
  cases hterm
  simp [targetOf]

/-- There are fields where the next item is one. -/
theorem fields_ne_nil_iff : s.fields.value ≠ [] ↔ s.peek.kind = .field := by
  change (fieldsFrom s.line s.rest).1 ≠ [] ↔ (s.rest.headD State.exhausted).kind = .field
  cases s.rest with
  | nil => simp [fieldsFrom, State.exhausted]
  | cons item rest => by_cases hkind : item.kind = .field <;> simp [fieldsFrom, hkind]

/-- Fields are taken of a term exactly if it has fields. -/
theorem withFields_eq_ok_iff {base found : Node} {position : Position} {names : List String} :
    withFields setting s base position names = .ok found ↔
      hasFields base = true ∧ takeFields base position names = found := by
  cases base <;> simp [withFields, hasFields, takeFields]

theorem chained_eq_ok_iff {base : Node} {reading : Maybe Node s} :
    chained setting base s = .ok reading ↔ Chained base s reading.value reading.state := by
  unfold chained
  constructor
  · intro hchained
    split at hchained
    next hkind =>
      obtain ⟨node, hnode, hresult⟩ := bind_eq_ok.mp hchained
      obtain ⟨hfields, rfl⟩ := withFields_eq_ok_iff.mp hnode
      cases hresult
      exact .fields hkind hfields
    next hkind =>
      cases hchained
      exact .alone hkind
  · intro hchained
    obtain ⟨node, after, hle⟩ := reading
    change Chained base s node after at hchained
    cases hchained with
    | alone hkind =>
      rw [if_neg hkind]
      rfl
    | fields hkind hfields =>
      rw [if_pos hkind]
      exact bind_eq_ok.mpr ⟨_, withFields_eq_ok_iff.mpr ⟨hfields, rfl⟩, rfl⟩

/-! ### Pipelines -/

theorem commandEnd_eq_ok_iff {reading : Maybe Unit s} :
    commandEnd setting s = .ok reading ↔ EndsCommand s reading.state := by
  unfold commandEnd
  constructor
  · intro hend
    split at hend
    next hkind =>
      cases hend
      exact .closer (.inl hkind)
    next hkind =>
      cases hend
      exact .closer (.inr hkind)
    next hkind =>
      cases hend
      exact .bar hkind
    next => exact absurd hend unexpected_ne_ok
  · intro hend
    obtain ⟨⟨⟩, after, hle⟩ := reading
    change EndsCommand s after at hend
    cases hend with
    | closer hkind => rcases hkind with hkind | hkind <;> simp [hkind]
    | bar hkind => simp [hkind]

theorem checkCommands_eq_ok_iff {clause : Clause} {found : List Command} {value : Unit} :
    checkCommands setting clause s found = .ok value ↔
      found ≠ [] ∧ valueStage? 2 found.tail = none := by
  cases found with
  | nil => simp [checkCommands]
  | cons first others =>
    simp only [checkCommands, List.tail_cons, ne_eq, reduceCtorEq, not_false_eq_true, true_and]
    cases valueStage? 2 others <;> simp

/-! ### Statements -/

theorem namesTemplate_iff {clause : Clause} {reading : Reading (String × Position) s} :
    templateName setting clause s = .ok reading ↔
      NamesTemplate s reading.value.1 reading.value.2 reading.state := by
  unfold templateName
  constructor
  · intro hname
    obtain ⟨⟨item, after, hshorter⟩, hitem, hrest⟩ := bind_eq_ok.mp hname
    obtain ⟨text, hvalue, hresult⟩ := bind_eq_ok.mp hrest
    obtain ⟨hread, hkind⟩ := expect_eq_ok_iff.mp hitem
    cases hresult
    exact .name hread (by simpa using hkind) (literalValue_eq_ok_iff.mp hvalue)
  · intro hname
    obtain ⟨⟨text, position⟩, after, hshorter⟩ := reading
    cases hname with
    | name hread hkind hvalue =>
      refine bind_eq_ok.mpr ⟨⟨_, _, hread.shorter⟩, expect_eq_ok_iff.mpr ⟨hread, ?_⟩, ?_⟩
      · simpa using hkind
      · exact bind_eq_ok.mpr ⟨text, literalValue_eq_ok_iff.mpr hvalue, rfl⟩

/-- An action that starts with none of the words for actions is a pipeline. -/
theorem startsControl_eq_false {kind : ItemKind} (hblock : kind ≠ .keyword .blockWord)
    (hbreak : kind ≠ .keyword .breakWord) (hcontinue : kind ≠ .keyword .continueWord)
    (helse : kind ≠ .keyword .elseWord) (hend : kind ≠ .keyword .endWord)
    (hif : kind ≠ .keyword .ifWord) (hrange : kind ≠ .keyword .rangeWord)
    (hwith : kind ≠ .keyword .withWord) (htemplate : kind ≠ .keyword .templateWord) :
    startsControl kind = false := by
  cases kind with
  | keyword word => cases word <;> first | rfl | contradiction
  | _ => rfl

/-- A definition starts exactly where the parser finds its opening. -/
theorem definitionStart?_eq_some_iff {reading : Reading Unit s} :
    definitionStart? s = some reading ↔ OpensDefinition s reading.state := by
  unfold definitionStart?
  constructor
  · intro hstart
    split at hstart
    next hkind =>
      split at hstart
      next => cases hstart
      next word after h hnext =>
        split at hstart
        next hword =>
          cases hstart
          exact ⟨hkind, word, next_eq_some_iff.mp hnext, hword⟩
        next => cases hstart
    next => cases hstart
  · rintro ⟨hkind, word, hread, hword⟩
    rw [if_pos hkind, hread.next_eq]
    exact if_pos hword

/-- No definition starts where the parser finds no opening of one. -/
theorem definitionStart?_eq_none_iff :
    definitionStart? s = none ↔ ∀ afterWord, ¬ OpensDefinition s afterWord := by
  constructor
  · intro hstart afterWord hopens
    obtain ⟨word, hread, _⟩ := hopens.word
    have hreading : definitionStart? s = some ⟨(), afterWord, hread.shorter.ofAdvance⟩ :=
      definitionStart?_eq_some_iff.mpr hopens
    rw [hstart] at hreading
    cases hreading
  · intro hopens
    cases hstart : definitionStart? s with
    | none => rfl
    | some reading => exact absurd (definitionStart?_eq_some_iff.mp hstart) (hopens reading.state)

/-- At the opening of a definition, a source is read as the definition and what is behind it. -/
theorem root_of_opensDefinition {afterWord : State} (hopens : OpensDefinition s afterWord) :
    root setting s = (do
      let ⟨_, after, _⟩ ← definition setting afterWord
      root setting after) := by
  have hpeek : s.peek.kind ≠ .eof := by simp [hopens.delimited]
  rw [root, if_neg hpeek]
  split
  next hstart =>
    obtain ⟨_, hread, _⟩ := hopens.word
    obtain ⟨_, hfound, _⟩ := (definitionStart?_eq_some_iff.mp hstart).word
    obtain ⟨-, rfl⟩ := hread.unique hfound
    rfl
  next hstart => exact absurd hopens (definitionStart?_eq_none_iff.mp hstart afterWord)

/-- Anywhere else before its end, a source is read as a statement and what is behind it. -/
theorem root_of_not_opensDefinition (hpeek : s.peek.kind ≠ .eof)
    (hopens : ∀ afterWord, ¬ OpensDefinition s afterWord) :
    root setting s = do
      let ⟨first, afterFirst, _⟩ ← statement setting s
      match first with
      | .ending .finished => afterFirst.fail setting .strayEnd
      | .ending (.otherwise _) => afterFirst.fail setting .strayElse
      | .node node =>
        let (nodes, after) ← root setting afterFirst
        return (node :: nodes, after) := by
  rw [root, if_neg hpeek]
  split
  next hstart => exact absurd (definitionStart?_eq_some_iff.mp hstart) (hopens _)
  next => rfl

end Steps

end Stencil.Syntax.Parse
