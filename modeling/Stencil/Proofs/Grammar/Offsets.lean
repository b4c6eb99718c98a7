import Stencil.Proofs.Grammar.Completeness
import Stencil.Proofs.Grammar.Plain

/-!
# Parsing does not look at offsets

The parser looks at the kinds, lines and values of items, and at no value of a delimiter. Two states
are alike (`State.Alike`) if they differ in nothing else than offsets and the text of delimiters.
What is derived from a state is derived from every state that is alike, up to offsets: so two
sources whose items are the same but for what `Item.plain` leaves out are both accepted or both
refused, and give the same trees up to offsets (`parse_alike`).

The proof is by induction on derivations. `Phrase.Recurs` and `Passage.Recurs` tell what it proves
of a part of the grammar: the part is read from the other state too, with a value that is the same
up to offsets.
-/

set_option autoImplicit false
set_option relaxedAutoImplicit false

namespace Stencil.Syntax

/-! ### Items -/

section Items

variable {item other : Item}

theorem Item.kind_eq (hplain : item.plain = other.plain) : item.kind = other.kind := by
  have hkind := congrArg Item.kind hplain
  exact hkind

theorem Item.position_eq (hplain : item.plain = other.plain) :
    item.position.plain = other.position.plain :=
  congrArg Item.position hplain

theorem Item.line_eq (hplain : item.plain = other.plain) :
    item.position.line = other.position.line :=
  congrArg (·.position.line) hplain

/-- Items that are the same without offsets have the same text, unless they are delimiters. -/
theorem Item.value_eq (hplain : item.plain = other.plain) (hleft : item.kind ≠ .leftDelim)
    (hright : item.kind ≠ .rightDelim) : item.value = other.value := by
  have hvalue := congrArg Item.value hplain
  have hleft' : other.kind ≠ .leftDelim := Item.kind_eq hplain ▸ hleft
  have hright' : other.kind ≠ .rightDelim := Item.kind_eq hplain ▸ hright
  simpa [Item.plain, hleft, hright, hleft', hright'] using hvalue

end Items

namespace Parse

/-- Items that are the same without offsets are separators alike. -/
theorem isSeparator_of_plain {item other : Item} (hplain : item.plain = other.plain)
    (hseparator : isSeparator item = true) : isSeparator other = true := by
  simp only [isSeparator, Bool.and_eq_true, decide_eq_true_eq] at hseparator ⊢
  obtain ⟨hkind, hvalue⟩ := hseparator
  rw [← Item.kind_eq hplain, ← Item.value_eq hplain (by simp [hkind]) (by simp [hkind])]
  exact ⟨hkind, hvalue⟩

/-! ### States -/

/-- A state without offsets and without the text of delimiters. -/
def State.plain (s : State) : State :=
  { s with rest := s.rest.map Item.plain, trees := s.trees.plain }

/-- That two states differ in offsets and in the text of delimiters alone. -/
def State.Alike (s t : State) : Prop := s.plain = t.plain

@[simp]
theorem State.peek_plain (s : State) : s.plain.peek = s.peek.plain := by
  unfold State.peek State.plain
  cases s.rest <;> rfl

@[simp]
theorem State.advance_plain (s : State) : s.plain.advance = s.advance.plain := by
  obtain ⟨line, rest, visible, trees, actionLine, loopDepth, depth⟩ := s
  cases rest <;> rfl

theorem State.skipFrom_plain (line : Nat) (items : List Item) :
    State.skipFrom line (items.map Item.plain) =
      ((State.skipFrom line items).1, (State.skipFrom line items).2.map Item.plain) := by
  induction items generalizing line with
  | nil => rfl
  | cons item rest ih =>
    by_cases hkind : item.kind = .space
    · simpa [State.skipFrom, hkind] using ih item.position.line
    · simp [State.skipFrom, hkind]

@[simp]
theorem State.skipSpaces_plain (s : State) : s.plain.skipSpaces = s.skipSpaces.plain := by
  simp only [State.skipSpaces, State.plain, State.skipFrom_plain]

theorem fieldsFrom_plain (line : Nat) (items : List Item) :
    fieldsFrom line (items.map Item.plain) =
      ((fieldsFrom line items).1, (fieldsFrom line items).2.1,
        (fieldsFrom line items).2.2.map Item.plain) := by
  induction items generalizing line with
  | nil => rfl
  | cons item rest ih =>
    by_cases hkind : item.kind = .field
    · have hname : fieldName item.plain = fieldName item := by
        simp [fieldName, Item.plain, hkind]
      simp [fieldsFrom, hkind, hname, ih]
    · simp [fieldsFrom, hkind]

section Alike

variable {s t : State}

theorem State.Alike.symm (halike : s.Alike t) : t.Alike s := Eq.symm halike

theorem State.Alike.peek_eq (halike : s.Alike t) : s.peek.plain = t.peek.plain := by
  rw [← s.peek_plain, halike, t.peek_plain]

theorem State.Alike.kind_peek_eq (halike : s.Alike t) : s.peek.kind = t.peek.kind :=
  Item.kind_eq halike.peek_eq

theorem State.Alike.visible_eq (halike : s.Alike t) : s.visible = t.visible := by
  have hvisible := congrArg State.visible halike
  exact hvisible

theorem State.Alike.depth_eq (halike : s.Alike t) : s.depth = t.depth := by
  have hdepth := congrArg State.depth halike
  exact hdepth

theorem State.Alike.loopDepth_eq (halike : s.Alike t) : s.loopDepth = t.loopDepth := by
  have hloopDepth := congrArg State.loopDepth halike
  exact hloopDepth

theorem State.Alike.advance (halike : s.Alike t) : s.advance.Alike t.advance := by
  rw [State.Alike, ← s.advance_plain, halike, t.advance_plain]

theorem State.Alike.skipSpaces (halike : s.Alike t) : s.skipSpaces.Alike t.skipSpaces := by
  rw [State.Alike, ← s.skipSpaces_plain, halike, t.skipSpaces_plain]

/-- The next item after spaces starts at the same place up to offsets. -/
theorem State.Alike.position_eq (halike : s.Alike t) :
    t.skipSpaces.peek.position.plain = s.skipSpaces.peek.position.plain :=
  (Item.position_eq halike.skipSpaces.peek_eq).symm

theorem State.Alike.declare (halike : s.Alike t) (name : String) :
    (s.declare name).Alike (t.declare name) := by
  have hdeclare := congrArg (State.declare · name) halike
  exact hdeclare

theorem State.Alike.enter (halike : s.Alike t) : s.enter.Alike t.enter := by
  have henter := congrArg State.enter halike
  exact henter

theorem State.Alike.leave (halike : s.Alike t) : s.leave.Alike t.leave := by
  have hleave := congrArg State.leave halike
  exact hleave

/-- The fields after a term are the same, and so is what is left after them. -/
theorem State.Alike.fields (halike : s.Alike t) :
    s.fields.value = t.fields.value ∧ s.fields.state.Alike t.fields.state := by
  have hfields (s : State) : s.plain.fields.value = s.fields.value ∧
      s.plain.fields.state = s.fields.state.plain := by
    simp [State.fields, State.plain, fieldsFrom_plain]
  obtain ⟨hvalue, hstate⟩ := hfields s
  obtain ⟨hvalue', hstate'⟩ := hfields t
  exact ⟨by rw [← hvalue, halike, hvalue'], by rw [State.Alike, ← hstate, halike, hstate']⟩

/-- Where an item is read, an item that is the same without offsets is read from a state that is
alike. -/
theorem State.Alike.reads (halike : s.Alike t) {item : Item} {after : State}
    (hread : s.Reads item after) :
    ∃ item' after', t.Reads item' after' ∧ item.plain = item'.plain ∧ after.Alike after' := by
  have hrest := congrArg State.rest halike.skipSpaces
  change s.skipSpaces.rest.map Item.plain = t.skipSpaces.rest.map Item.plain at hrest
  rw [hread.rest_eq, List.map_cons] at hrest
  obtain ⟨item', rest', hrest', hitem, hothers⟩ := List.map_eq_cons_iff.mp hrest.symm
  refine ⟨item', { t with line := item'.position.line, rest := rest' }, ⟨hrest', rfl⟩,
    hitem.symm, ?_⟩
  rw [State.Alike, hread.state_eq]
  have hline := Item.line_eq hitem
  have hstate := congrArg (fun s : State ↦
    { s with line := item.position.line, rest := after.rest.map Item.plain }) halike
  simp only [State.plain] at hstate ⊢
  rw [hothers, hline]
  exact hstate

/-! ### Terms -/

/-- The reading of a number does not depend on where it stands. -/
theorem ofText_position (position other : Position) (text : String) :
    NumberLiteral.ofText other text =
      (NumberLiteral.ofText position text).map
        fun literal ↦ { literal with position := other } := by
  unfold NumberLiteral.ofText
  dsimp only
  split
  next => rfl
  next => rfl
  next =>
    split
    next => rfl
    next => split <;> rfl

/-- An item that is the same without offsets is the same term by itself. -/
theorem IsTerm.alike {setting : Setting} {visible : List String} {item other : Item} {found : Node}
    (hterm : IsTerm setting visible item found) (hplain : item.plain = other.plain) :
    ∃ found', found'.plain = found.plain ∧ IsTerm setting visible other found' := by
  have hkind' := Item.kind_eq hplain
  have hposition := (Item.position_eq hplain).symm
  have hvalue' (hkind : item.kind ≠ .leftDelim ∧ item.kind ≠ .rightDelim) :
      item.value = other.value := Item.value_eq hplain hkind.1 hkind.2
  cases hterm with
  | identifier hkind hfunction =>
    have hvalue := hvalue' (by simp [hkind])
    refine ⟨_, ?_, .identifier (hkind' ▸ hkind) (hvalue ▸ hfunction)⟩
    simp only [Node.mapPosition, hposition, hvalue]
  | dot hkind => exact ⟨_, by simp only [Node.mapPosition, hposition], .dot (hkind' ▸ hkind)⟩
  | nil hkind => exact ⟨_, by simp only [Node.mapPosition, hposition], .nil (hkind' ▸ hkind)⟩
  | variableName hkind hvisible =>
    have hvalue := hvalue' (by simp [hkind])
    refine ⟨_, ?_, .variableName (hkind' ▸ hkind) (hvalue ▸ hvisible)⟩
    simp only [Node.mapPosition, Variable.mapPosition, targetOf, hposition, hvalue]
  | field hkind =>
    have hvalue := hvalue' (by simp [hkind])
    exact ⟨_, by simp only [Node.mapPosition, hposition, hvalue], .field (hkind' ▸ hkind)⟩
  | bool hkind =>
    have hvalue := hvalue' (by simp [hkind])
    exact ⟨_, by simp only [Node.mapPosition, hposition, hvalue], .bool (hkind' ▸ hkind)⟩
  | charConstant hkind hchar =>
    have hvalue := hvalue' (by simp [hkind])
    refine ⟨_, ?_, .charConstant (hkind' ▸ hkind) (hvalue ▸ hchar)⟩
    simp only [Node.mapPosition, NumberLiteral.mapPosition, NumberLiteral.ofCodePoint, hposition,
      hvalue]
  | @number literal hkind hnumber =>
    have hvalue := hvalue' (by simp [hkind])
    have hother : NumberLiteral.ofText other.position other.value =
        .ok { literal with position := other.position } := by
      rw [← hvalue, ofText_position item.position, hnumber]
      rfl
    refine ⟨_, ?_, .number (hkind' ▸ hkind) hother⟩
    simp only [Node.mapPosition, NumberLiteral.mapPosition, hposition, (eq_of_ofText hnumber).1]
  | string hkind htext =>
    have hvalue := hvalue' (by rcases hkind with hkind | hkind <;> simp [hkind])
    refine ⟨_, ?_, .string (hkind' ▸ hkind) (hvalue ▸ htext)⟩
    simp only [Node.mapPosition, hposition, hvalue]

/-- An item of the same kind and value is the same term up to positions. -/
theorem IsTerm.again {setting : Setting} {visible : List String} {item other : Item} {found : Node}
    (hterm : IsTerm setting visible item found) (hkind : other.kind = item.kind)
    (hvalue : other.value = item.value) :
    ∃ again, again.unplaced = found.unplaced ∧ IsTerm setting visible other again := by
  obtain ⟨kind, position, value⟩ := other
  simp only at hkind hvalue
  subst hkind hvalue
  cases hterm with
  | identifier hkind hfunction =>
    refine ⟨_, ?_, .identifier hkind hfunction⟩
    rfl
  | dot hkind =>
    refine ⟨_, ?_, .dot hkind⟩
    rfl
  | nil hkind =>
    refine ⟨_, ?_, .nil hkind⟩
    rfl
  | variableName hkind hvisible =>
    refine ⟨_, ?_, .variableName hkind hvisible⟩
    rfl
  | field hkind =>
    refine ⟨_, ?_, .field hkind⟩
    rfl
  | bool hkind =>
    refine ⟨_, ?_, .bool hkind⟩
    rfl
  | charConstant hkind hchar =>
    refine ⟨_, ?_, .charConstant hkind hchar⟩
    rfl
  | @number literal hkind hnumber =>
    have hother : NumberLiteral.ofText position item.value =
        .ok { literal with position := position } := by
      rw [ofText_position item.position, hnumber]
      rfl
    refine ⟨_, ?_, .number hkind hother⟩
    rfl
  | string hkind htext =>
    refine ⟨_, ?_, .string hkind htext⟩
    rfl

theorem hasFields_plain (node : Node) : hasFields node.plain = hasFields node :=
  hasFields_mapPosition _ node

theorem takeFields_plain (base : Node) (position : Position) (names : List String) :
    (takeFields base position names).plain = takeFields base.plain position.plain names :=
  takeFields_mapPosition _ base position names

/-- The same fields are taken of a term from a state that is alike. -/
theorem Chained.alike {base base' found : Node} {after : State}
    (hchained : Chained base s found after) (hbase : base'.plain = base.plain)
    (halike : s.Alike t) :
    ∃ found' after', found'.plain = found.plain ∧ after.Alike after' ∧
      Chained base' t found' after' := by
  cases hchained with
  | alone hkind =>
    exact ⟨base', t, hbase, halike, .alone (halike.kind_peek_eq ▸ hkind)⟩
  | fields hkind hfields =>
    have hfields' : hasFields base' = true := by
      rw [← hasFields_plain, hbase, hasFields_plain]
      exact hfields
    refine ⟨_, _, ?_, halike.fields.2, .fields (halike.kind_peek_eq ▸ hkind) hfields'⟩
    rw [takeFields_plain, takeFields_plain, hbase, halike.fields.1,
      Item.position_eq halike.peek_eq]

/-! ### Declarations -/

/-- A declaration starts at every state that is alike. -/
theorem StartsDeclaration.alike (hstarts : StartsDeclaration s) (halike : s.Alike t) :
    StartsDeclaration t := by
  obtain ⟨item, afterName, sign, afterSign, hname, hvariable, hsign, hkind⟩ := hstarts
  obtain ⟨item', afterName', hname', hitem, halikeName⟩ := halike.reads hname
  obtain ⟨sign', afterSign', hsign', hplain, _⟩ := halikeName.reads hsign
  refine ⟨item', afterName', sign', afterSign', hname', Item.kind_eq hitem ▸ hvariable, hsign', ?_⟩
  exact hkind.imp (fun hdeclaring ↦ Item.kind_eq hplain ▸ hdeclaring)
    (isSeparator_of_plain hplain)

/-- The same is declared from a state that is alike. -/
theorem Declares.alike {more : Nat} {declared : Declarations} {after : State}
    (hdeclares : Declares more s declared after) (halike : s.Alike t) :
    ∃ declared' after', declared'.isAssign = declared.isAssign ∧
      declared'.targets.map Variable.plain = declared.targets.map Variable.plain ∧
      after.Alike after' ∧ Declares more t declared' after' := by
  induction hdeclares generalizing t with
  | none hnone =>
    exact ⟨{}, _, rfl, rfl, halike.skipSpaces,
      .none fun hstarts ↦ hnone (hstarts.alike halike.symm)⟩
  | @last more s afterName afterSign item sign hname hvariable hsign hkind =>
    obtain ⟨item', afterName', hname', hitem, halikeName⟩ := halike.reads hname
    obtain ⟨sign', afterSign', hsign', hplain, halikeSign⟩ := halikeName.reads hsign
    have hvalue := Item.value_eq hitem (by simp [hvariable]) (by simp [hvariable])
    have hdeclared := halikeSign.declare item.value
    refine ⟨_, _, ?_, ?_, ?_, .last hname' (Item.kind_eq hitem ▸ hvariable) hsign'
      (Item.kind_eq hplain ▸ hkind)⟩
    · rw [Item.kind_eq hplain]
    · simp [targetOf, Variable.mapPosition, Item.position_eq hitem, hvalue]
    · rw [← hvalue]
      exact hdeclared
  | @more more s afterName afterSign after item sign others hname hvariable hsign hseparator hnext
      _ ih =>
    obtain ⟨item', afterName', hname', hitem, halikeName⟩ := halike.reads hname
    obtain ⟨sign', afterSign', hsign', hplain, halikeSign⟩ := halikeName.reads hsign
    have hvalue := Item.value_eq hitem (by simp [hvariable]) (by simp [hvariable])
    have hdeclared := halikeSign.declare item.value
    rw [hvalue] at hdeclared
    obtain ⟨others', after', hassign, htargets, halikeAfter, hothers'⟩ := ih (hvalue ▸ hdeclared)
    have hnext' := hdeclared.skipSpaces.kind_peek_eq
    refine ⟨{ others' with targets := targetOf item' :: others'.targets }, after', hassign, ?_,
      halikeAfter, .more hname' (Item.kind_eq hitem ▸ hvariable) hsign'
        (isSeparator_of_plain hplain hseparator) ?_ ?_⟩
    · simp [targetOf, Variable.mapPosition, Item.position_eq hitem, hvalue, htargets]
    · rw [← hnext', ← hvalue]
      exact hnext
    · rw [← hvalue]
      exact hothers'

/-! ### Pipelines -/

/-- Pipelines that are the same without offsets start at the same place up to offsets. -/
theorem Pipeline.position_eq {pipeline other : Pipeline}
    (hplain : pipeline.plain = other.plain) :
    pipeline.position.plain = other.position.plain := by
  cases pipeline
  cases other
  exact congrArg Pipeline.position hplain

theorem valueStage?_plain (stage : Nat) (commands : List Command) :
    valueStage? stage (commands.map Command.plain) = valueStage? stage commands :=
  valueStage?_mapPosition _ stage commands

/-- What ends a command ends it in a state that is alike. -/
theorem EndsCommand.alike {after : State} (hend : EndsCommand s after) (halike : s.Alike t) :
    ∃ after', after.Alike after' ∧ EndsCommand t after' := by
  cases hend with
  | closer hkind => exact ⟨t, halike, .closer (halike.kind_peek_eq ▸ hkind)⟩
  | bar hkind => exact ⟨t.advance, halike.advance, .bar (halike.kind_peek_eq ▸ hkind)⟩

/-- That a phrase is derived from a state up to offsets. -/
def Phrase.Recurs (setting : Setting) (phrase : Phrase) (t after : State) : Prop :=
  match phrase with
  | pipeline clause closer found =>
    ∃ found' after', found'.plain = found.plain ∧ after.Alike after' ∧
      DerivesPhrase setting (.pipeline clause closer found') t after'
  | commands closer found =>
    ∃ found' after', found'.map Command.plain = found.map Command.plain ∧ after.Alike after' ∧
      DerivesPhrase setting (.commands closer found') t after'
  | command found =>
    ∃ found' after', found'.plain = found.plain ∧ after.Alike after' ∧
      DerivesPhrase setting (.command found') t after'
  | operands found =>
    ∃ found' after', found'.map Node.plain = found.map Node.plain ∧ after.Alike after' ∧
      DerivesPhrase setting (.operands found') t after'
  | operand found =>
    ∃ found' after', found'.plain = found.plain ∧ after.Alike after' ∧
      DerivesPhrase setting (.operand found') t after'

/-- A phrase is derived from every state that is alike, up to offsets. -/
theorem DerivesPhrase.recurs {setting : Setting} {phrase : Phrase} {after : State}
    (hderives : DerivesPhrase setting phrase s after) (halike : s.Alike t) :
    phrase.Recurs setting t after := by
  induction hderives generalizing t with
  | @pipeline clause closer s afterDeclarations after declared found hdeclares _ hvalue hcallable
      ih =>
    obtain ⟨declared', _, hassign, htargets, halikeDeclared, hdeclares'⟩ := hdeclares.alike halike
    obtain ⟨found', after', hfound, halikeAfter, hcommands'⟩ := ih halikeDeclared
    have hvalue' : found' ≠ [] := by
      rintro rfl
      exact hvalue (List.map_eq_nil_iff.mp hfound.symm)
    have hcallable' : valueStage? 2 found'.tail = Option.none := by
      rw [← valueStage?_plain, List.map_tail, hfound, ← List.map_tail, valueStage?_plain]
      exact hcallable
    refine ⟨_, after', ?_, halikeAfter, .pipeline hdeclares' hcommands' hvalue' hcallable'⟩
    simp only [Pipeline.mapPosition, Command.mapPositions_eq_map, hassign, htargets, hfound,
      halike.position_eq]
  | commandsEnd hread hcloser =>
    obtain ⟨item', after', hread', hitem, halikeAfter⟩ := halike.reads hread
    exact ⟨[], after', rfl, halikeAfter, .commandsEnd hread' (Item.kind_eq hitem ▸ hcloser)⟩
  | commandsMore hread hcloser hstart _ _ ihFirst ihOthers =>
    obtain ⟨item', _, hread', hitem, _⟩ := halike.reads hread
    obtain ⟨first', _, hfirst, halikeFirst, hfirst'⟩ := ihFirst halike
    obtain ⟨others', after', hothers, halikeAfter, hothers'⟩ := ihOthers halikeFirst
    have hkind := Item.kind_eq hitem
    refine ⟨first' :: others', after', ?_, halikeAfter, .commandsMore hread' (hkind ▸ hcloser)
      (hkind ▸ hstart) hfirst' hothers'⟩
    rw [List.map_cons, List.map_cons, hfirst, hothers]
  | command _ hvalue ih =>
    obtain ⟨found', after', hfound, halikeAfter, hoperands'⟩ := ih halike
    have hvalue' : found' ≠ [] := by
      rintro rfl
      exact hvalue (List.map_eq_nil_iff.mp hfound.symm)
    refine ⟨_, after', ?_, halikeAfter, .command hoperands' hvalue'⟩
    simp only [Command.mapPosition, Node.mapPositions_eq_map, hfound, halike.position_eq]
  | operandsEnd hnone hend =>
    obtain ⟨after', halikeAfter, hend'⟩ := hend.alike halike.skipSpaces
    rw [halike.skipSpaces.kind_peek_eq] at hnone
    exact ⟨[], after', rfl, halikeAfter, .operandsEnd hnone hend'⟩
  | operandsMore _ hspace _ ihFirst ihOthers =>
    obtain ⟨first', _, hfirst, halikeFirst, hfirst'⟩ := ihFirst halike.skipSpaces
    obtain ⟨others', after', hothers, halikeAfter, hothers'⟩ := ihOthers halikeFirst.advance
    rw [halikeFirst.kind_peek_eq] at hspace
    refine ⟨first' :: others', after', ?_, halikeAfter, .operandsMore hfirst' hspace hothers'⟩
    rw [List.map_cons, List.map_cons, hfirst, hothers]
  | operandsLast _ hspace hend ih =>
    obtain ⟨first', _, hfirst, halikeFirst, hfirst'⟩ := ih halike.skipSpaces
    obtain ⟨after', halikeAfter, hend'⟩ := hend.alike halikeFirst
    rw [halikeFirst.kind_peek_eq] at hspace
    refine ⟨[first'], after', ?_, halikeAfter, .operandsLast hfirst' hspace hend'⟩
    rw [List.map_singleton, List.map_singleton, hfirst]
  | @parenthesized s _ _ _ _ inner _ hread hkind hdepth _ hchained ih =>
    obtain ⟨item', _, hread', hitem, halikeItem⟩ := halike.reads hread
    obtain ⟨inner', _, hinner, halikeInner, hinner'⟩ := ih halikeItem.enter
    have hbase : (Node.pipeline inner').plain = (Node.pipeline inner).plain := by
      simp only [Node.mapPosition, hinner]
    obtain ⟨found', after', hfound, halikeAfter, hchained'⟩ :=
      hchained.alike hbase halikeInner.leave
    exact ⟨found', after', hfound, halikeAfter, .parenthesized hread'
      (Item.kind_eq hitem ▸ hkind) (halikeItem.depth_eq ▸ hdepth) hinner' hchained'⟩
  | term hread hterm hchained =>
    obtain ⟨item', _, hread', hitem, halikeItem⟩ := halike.reads hread
    obtain ⟨base', hbase, hterm'⟩ := hterm.alike hitem
    obtain ⟨found', after', hfound, halikeAfter, hchained'⟩ := hchained.alike hbase halikeItem
    exact ⟨found', after', hfound, halikeAfter, .term hread' (halike.visible_eq ▸ hterm')
      hchained'⟩

/-! ### Statements -/

theorem State.Alike.enterAction (halike : s.Alike t) {line other : Nat} (hline : line = other) :
    (s.enterAction line).Alike (t.enterAction other) := by
  have henter := congrArg (State.enterAction · line) halike
  exact hline ▸ henter

theorem State.Alike.leaveAction (halike : s.Alike t) : s.leaveAction.Alike t.leaveAction := by
  have hleave := congrArg State.leaveAction halike
  exact hleave

theorem State.Alike.enterBranch (halike : s.Alike t) (kind : BranchKind) :
    (s.enterBranch kind).Alike (t.enterBranch kind) := by
  have henter := congrArg (State.enterBranch · kind) halike
  exact henter

theorem State.Alike.leaveBranch (halike : s.Alike t) (kind : BranchKind) :
    (s.leaveBranch kind).Alike (t.leaveBranch kind) := by
  have hleave := congrArg (State.leaveBranch · kind) halike
  exact hleave

theorem State.Alike.enterTemplate (halike : s.Alike t) : s.enterTemplate.Alike t.enterTemplate := by
  have henter := congrArg State.enterTemplate halike
  exact henter

theorem State.Alike.leaveTemplate (halike : s.Alike t) {before before' : State}
    (hbefore : before.Alike before') :
    (s.leaveTemplate before).Alike (t.leaveTemplate before') := by
  have hleave := congrArg₂ State.leaveTemplate halike hbefore
  exact hleave

theorem State.Alike.keepVariables (halike : s.Alike t) {before before' : State}
    (hbefore : before.Alike before') :
    (s.keepVariables before.visible.length).Alike (t.keepVariables before'.visible.length) := by
  have hkeep := congrArg (State.keepVariables · before.visible.length) halike
  exact hbefore.visible_eq ▸ hkeep

theorem State.Alike.withTrees (halike : s.Alike t) {trees trees' : TreeSet}
    (htrees : trees'.plain = trees.plain) :
    State.Alike { s with trees := trees } { t with trees := trees' } := by
  have hstate := congrArg (fun s : State ↦ { s with trees := trees.plain }) halike
  simp only [State.Alike, State.plain] at hstate ⊢
  rw [htrees]
  exact hstate

/-- The ending of a body without its offset. -/
def Ending.plain : Ending → Ending
  | finished => finished
  | otherwise position => otherwise position.plain

/-- A statement without offsets. -/
def Statement.plain : Statement → Statement
  | node found => node found.plain
  | ending found => ending found.plain

/-- An item of a kind is read from a state that is alike. -/
theorem State.ReadsKind.alike {kind : ItemKind} {after : State} (hread : s.ReadsKind kind after)
    (halike : s.Alike t) : ∃ after', after.Alike after' ∧ t.ReadsKind kind after' := by
  obtain ⟨item, hread, hkind⟩ := hread
  obtain ⟨item', after', hread', hitem, halikeAfter⟩ := halike.reads hread
  exact ⟨after', halikeAfter, item', hread', Item.kind_eq hitem ▸ hkind⟩

/-- The same name of a template is read from a state that is alike. -/
theorem NamesTemplate.alike {name : String} {position : Position} {after : State}
    (hname : NamesTemplate s name position after) (halike : s.Alike t) :
    ∃ position' after', position'.plain = position.plain ∧ after.Alike after' ∧
      NamesTemplate t name position' after' := by
  cases hname with
  | name hread hkind hvalue =>
    obtain ⟨item', after', hread', hitem, halikeAfter⟩ := halike.reads hread
    have htext := Item.value_eq hitem (by rcases hkind with hkind | hkind <;> simp [hkind])
      (by rcases hkind with hkind | hkind <;> simp [hkind])
    exact ⟨item'.position, after', (Item.position_eq hitem).symm, halikeAfter,
      .name hread' (Item.kind_eq hitem ▸ hkind) (htext ▸ hvalue)⟩

theorem define_plain (setting : Setting) (s : State) (tree : Tree) :
    define setting s.plain tree.plain = (define setting s tree).map TreeSet.plain := by
  have hcontent : s.plain.trees.hasContent tree.plain.name = s.trees.hasContent tree.name :=
    s.trees.hasContent_mapPosition Position.plain tree.name
  unfold define
  rw [hcontent, tree.isEmpty_mapPosition]
  split
  next => rfl
  next => exact congrArg Except.ok (s.trees.merge_mapPosition Position.plain tree)

/-- A tree that is the same up to offsets is added to the trees of a state that is alike. -/
theorem exists_define {setting : Setting} (halike : s.Alike t) {tree tree' : Tree}
    (htree : tree'.plain = tree.plain) {trees : TreeSet}
    (hdefine : define setting s tree = .ok trees) :
    ∃ trees', trees'.plain = trees.plain ∧ define setting t tree' = .ok trees' := by
  have hplain := define_plain setting t tree'
  rw [htree, ← halike, define_plain, hdefine] at hplain
  cases hdefine' : define setting t tree' with
  | error error => simp [hdefine', Except.map] at hplain
  | ok trees' =>
    rw [hdefine'] at hplain
    exact ⟨trees', (Except.ok.inj hplain).symm, rfl⟩

/-- That a passage is derived from a state up to offsets. -/
def Passage.Recurs (setting : Setting) (passage : Passage) (t after : State) : Prop :=
  match passage with
  | body found ending =>
    ∃ found' ending' after', found'.plain = found.plain ∧ ending'.plain = ending.plain ∧
      after.Alike after' ∧ DerivesPassage setting (.body found' ending') t after'
  | statements found ending =>
    ∃ found' ending' after', found'.map Node.plain = found.map Node.plain ∧
      ending'.plain = ending.plain ∧ after.Alike after' ∧
      DerivesPassage setting (.statements found' ending') t after'
  | statement found =>
    ∃ found' after', found'.plain = found.plain ∧ after.Alike after' ∧
      DerivesPassage setting (.statement found') t after'
  | action found =>
    ∃ found' after', found'.plain = found.plain ∧ after.Alike after' ∧
      DerivesPassage setting (.action found') t after'
  | branchBody kind found ending =>
    ∃ found' ending' after', found'.plain = found.plain ∧ ending'.plain = ending.plain ∧
      after.Alike after' ∧ DerivesPassage setting (.branchBody kind found' ending') t after'
  | nestedBody found =>
    ∃ found' after', found'.plain = found.plain ∧ after.Alike after' ∧
      DerivesPassage setting (.nestedBody found') t after'
  | control kind found =>
    ∃ found' after', found'.plain = found.plain ∧ after.Alike after' ∧
      DerivesPassage setting (.control kind found') t after'
  | block found =>
    ∃ found' after', found'.plain = found.plain ∧ after.Alike after' ∧
      DerivesPassage setting (.block found') t after'

/-- A statement that is a node up to offsets is a node. -/
theorem Statement.exists_node {statement : Statement} {found : Node}
    (hplain : statement.plain = (node found).plain) :
    ∃ found', statement = node found' ∧ found'.plain = found.plain := by
  cases statement with
  | node found' => exact ⟨found', rfl, Statement.node.inj hplain⟩
  | ending => cases hplain

/-- A statement that is an ending up to offsets is an ending. -/
theorem Statement.exists_ending {statement : Statement} {found : Ending}
    (hplain : statement.plain = (ending found).plain) :
    ∃ found', statement = ending found' ∧ found'.plain = found.plain := by
  cases statement with
  | node => cases hplain
  | ending found' => exact ⟨found', rfl, Statement.ending.inj hplain⟩

/-- An ending that is finished up to offsets is finished. -/
theorem Ending.eq_finished {ending : Ending} (hplain : ending.plain = finished.plain) :
    ending = finished := by
  cases ending with
  | finished => rfl
  | otherwise => cases hplain

/-- An ending that is an else up to offsets is an else. -/
theorem Ending.exists_otherwise {ending : Ending} {position : Position}
    (hplain : ending.plain = (otherwise position).plain) :
    ∃ position', ending = otherwise position' ∧ position'.plain = position.plain := by
  cases ending with
  | finished => cases hplain
  | otherwise position' => exact ⟨position', rfl, Ending.otherwise.inj hplain⟩

/-- A passage is derived from every state that is alike, up to offsets. -/
theorem DerivesPassage.recurs {setting : Setting} {passage : Passage} {after : State}
    (hderives : DerivesPassage setting passage s after) (halike : s.Alike t) :
    passage.Recurs setting t after := by
  induction hderives generalizing t with
  | body hdepth _ ih =>
    obtain ⟨found', ending', after', hfound, hending, halikeAfter, hfound'⟩ := ih halike.enter
    refine ⟨_, ending', _, ?_, hending, halikeAfter.leave,
      .body (halike.depth_eq ▸ hdepth) hfound'⟩
    simp only [Body.mapPosition, Node.mapPositions_eq_map, hfound, halike.position_eq]
  | statementsEnd hpeek _ ih =>
    obtain ⟨found', after', hfound, halikeAfter, hending'⟩ := ih halike
    obtain ⟨ending', rfl, hending⟩ := Statement.exists_ending hfound
    rw [halike.skipSpaces.kind_peek_eq] at hpeek
    exact ⟨[], ending', after', rfl, hending, halikeAfter, .statementsEnd hpeek hending'⟩
  | statementsMore hpeek _ _ ihFirst ihOthers =>
    obtain ⟨found', _, hfound, halikeFirst, hfirst'⟩ := ihFirst halike
    obtain ⟨first', rfl, hfirst⟩ := Statement.exists_node hfound
    obtain ⟨others', ending', after', hothers, hending, halikeAfter, hothers'⟩ :=
      ihOthers halikeFirst
    rw [halike.skipSpaces.kind_peek_eq] at hpeek
    refine ⟨first' :: others', ending', after', ?_, hending, halikeAfter,
      .statementsMore hpeek hfirst' hothers'⟩
    rw [List.map_cons, List.map_cons, hfirst, hothers]
  | text hread hkind =>
    obtain ⟨item', after', hread', hitem, halikeAfter⟩ := halike.reads hread
    have hvalue := Item.value_eq hitem (by simp [hkind]) (by simp [hkind])
    refine ⟨_, after', ?_, halikeAfter, .text hread' (Item.kind_eq hitem ▸ hkind)⟩
    simp only [Statement.plain, Node.mapPosition, Item.position_eq hitem, hvalue]
  | comment hread hkind =>
    obtain ⟨item', after', hread', hitem, halikeAfter⟩ := halike.reads hread
    have hvalue := Item.value_eq hitem (by simp [hkind]) (by simp [hkind])
    refine ⟨_, after', ?_, halikeAfter, .comment hread' (Item.kind_eq hitem ▸ hkind)⟩
    simp only [Statement.plain, Node.mapPosition, Item.position_eq hitem, hvalue]
  | delimited hread hkind _ ih =>
    obtain ⟨item', _, hread', hitem, halikeItem⟩ := halike.reads hread
    obtain ⟨found', after', hfound, halikeAfter, hfound'⟩ :=
      ih (halikeItem.enterAction (Item.line_eq hitem))
    exact ⟨found', _, hfound, halikeAfter.leaveAction,
      .delimited hread' (Item.kind_eq hitem ▸ hkind) hfound'⟩
  | blockAction hread hkind _ ih =>
    obtain ⟨item', _, hread', hitem, halikeItem⟩ := halike.reads hread
    obtain ⟨found', after', hfound, halikeAfter, hfound'⟩ := ih halikeItem
    refine ⟨_, after', ?_, halikeAfter,
      .blockAction hread' (Item.kind_eq hitem ▸ hkind) hfound'⟩
    rw [Statement.plain, Statement.plain, hfound]
  | breakAction hread hkind hclose hloop =>
    obtain ⟨item', _, hread', hitem, halikeItem⟩ := halike.reads hread
    obtain ⟨after', halikeAfter, hclose'⟩ := hclose.alike halikeItem
    refine ⟨_, after', ?_, halikeAfter, .breakAction hread' (Item.kind_eq hitem ▸ hkind) hclose'
      (halikeAfter.loopDepth_eq ▸ hloop)⟩
    simp only [Statement.plain, Node.mapPosition, Item.position_eq hitem]
  | continueAction hread hkind hclose hloop =>
    obtain ⟨item', _, hread', hitem, halikeItem⟩ := halike.reads hread
    obtain ⟨after', halikeAfter, hclose'⟩ := hclose.alike halikeItem
    refine ⟨_, after', ?_, halikeAfter, .continueAction hread' (Item.kind_eq hitem ▸ hkind)
      hclose' (halikeAfter.loopDepth_eq ▸ hloop)⟩
    simp only [Statement.plain, Node.mapPosition, Item.position_eq hitem]
  | elseWord hread hkind hcontinues =>
    obtain ⟨item', _, hread', hitem, halikeItem⟩ := halike.reads hread
    rw [halikeItem.skipSpaces.kind_peek_eq] at hcontinues
    refine ⟨_, _, ?_, halikeItem.skipSpaces,
      .elseWord hread' (Item.kind_eq hitem ▸ hkind) hcontinues⟩
    simp only [Statement.plain, Ending.plain, halikeItem.position_eq]
  | elseAction hread hkind hclose hcloser =>
    obtain ⟨item', _, hread', hitem, halikeItem⟩ := halike.reads hread
    obtain ⟨closer', after', hclose', hplain, halikeAfter⟩ := halikeItem.reads hclose
    refine ⟨_, after', ?_, halikeAfter, .elseAction hread' (Item.kind_eq hitem ▸ hkind) hclose'
      (Item.kind_eq hplain ▸ hcloser)⟩
    simp only [Statement.plain, Ending.plain, Item.position_eq hplain]
  | endAction hread hkind hclose =>
    obtain ⟨item', _, hread', hitem, halikeItem⟩ := halike.reads hread
    obtain ⟨after', halikeAfter, hclose'⟩ := hclose.alike halikeItem
    exact ⟨_, after', rfl, halikeAfter, .endAction hread' (Item.kind_eq hitem ▸ hkind) hclose'⟩
  | branchAction hread hkind _ ih =>
    obtain ⟨item', _, hread', hitem, halikeItem⟩ := halike.reads hread
    obtain ⟨found', after', hfound, halikeAfter, hfound'⟩ := ih halikeItem
    refine ⟨_, after', ?_, halikeAfter,
      .branchAction hread' (Item.kind_eq hitem ▸ hkind) hfound'⟩
    rw [Statement.plain, Statement.plain, hfound]
  | templateBare hread hkind hname hclose =>
    obtain ⟨item', _, hread', hitem, halikeItem⟩ := halike.reads hread
    obtain ⟨position', _, hposition, halikeName, hname'⟩ := hname.alike halikeItem
    obtain ⟨after', halikeAfter, hclose'⟩ := hclose.alike halikeName
    refine ⟨_, after', ?_, halikeAfter,
      .templateBare hread' (Item.kind_eq hitem ▸ hkind) hname' hclose'⟩
    simp only [Statement.plain, Node.mapPosition, hposition]
  | templateWith hread hkind hname hnext hopen hargument =>
    obtain ⟨item', _, hread', hitem, halikeItem⟩ := halike.reads hread
    obtain ⟨position', _, hposition, halikeName, hname'⟩ := hname.alike halikeItem
    obtain ⟨next', _, hnext', hplain, _⟩ := halikeName.reads hnext
    obtain ⟨argument', after', hinner, halikeAfter, hargument'⟩ := hargument.recurs halikeName
    refine ⟨_, after', ?_, halikeAfter, .templateWith hread' (Item.kind_eq hitem ▸ hkind) hname'
      hnext' (Item.kind_eq hplain ▸ hopen) hargument'⟩
    simp only [Statement.plain, Node.mapPosition, hposition, hinner]
  | pipelineAction hread hkind hfound =>
    obtain ⟨item', _, hread', hitem, _⟩ := halike.reads hread
    obtain ⟨found', after', hinner, halikeAfter, hfound'⟩ := hfound.recurs halike
    refine ⟨_, after', ?_, halikeAfter,
      .pipelineAction hread' (Item.kind_eq hitem ▸ hkind) hfound'⟩
    simp only [Statement.plain, Node.mapPosition, halike.position_eq, hinner]
  | @branchBody kind _ _ _ _ _ ih =>
    obtain ⟨found', ending', after', hfound, hending, halikeAfter, hfound'⟩ :=
      ih (halike.enterBranch kind)
    exact ⟨found', ending', _, hfound, hending, halikeAfter.leaveBranch kind, .branchBody hfound'⟩
  | nestedBody _ ih =>
    obtain ⟨found', ending', after', hfound, hending, halikeAfter, hfound'⟩ :=
      ih halike.enterTemplate
    obtain rfl := Ending.eq_finished hending
    exact ⟨found', _, hfound, halikeAfter.leaveTemplate halike, .nestedBody hfound'⟩
  | controlOnly hhead _ ih =>
    obtain ⟨head', _, hheadPlain, halikeHead, hhead'⟩ := hhead.recurs halike
    obtain ⟨first', ending', after', hfirst, hending, halikeAfter, hfirst'⟩ := ih halikeHead
    obtain rfl := Ending.eq_finished hending
    refine ⟨_, _, ?_, halikeAfter.keepVariables halike, .controlOnly hhead' hfirst'⟩
    simp only [Node.mapPosition, Pipeline.position_eq hheadPlain, hheadPlain, hfirst]
  | controlContinued hhead _ hword hpeek _ ihFirst ihInner =>
    obtain ⟨head', _, hheadPlain, halikeHead, hhead'⟩ := hhead.recurs halike
    obtain ⟨first', ending', _, hfirst, hending, halikeFirst, hfirst'⟩ := ihFirst halikeHead
    obtain ⟨position', rfl, hposition⟩ := Ending.exists_otherwise hending
    obtain ⟨inner', after', hinner, halikeAfter, hinner'⟩ := ihInner halikeFirst.advance
    rw [halikeFirst.kind_peek_eq] at hpeek
    refine ⟨_, _, ?_, halikeAfter.keepVariables halike,
      .controlContinued hhead' hfirst' hword hpeek hinner'⟩
    simp only [Node.mapPosition, Body.mapPosition, Node.mapPositions,
      Pipeline.position_eq hheadPlain, hheadPlain, hfirst, hposition, hinner]
  | controlOtherwise hhead _ hother _ ihFirst ihSecond =>
    obtain ⟨head', _, hheadPlain, halikeHead, hhead'⟩ := hhead.recurs halike
    obtain ⟨first', ending', _, hfirst, hending, halikeFirst, hfirst'⟩ := ihFirst halikeHead
    obtain ⟨position', rfl, hposition⟩ := Ending.exists_otherwise hending
    obtain ⟨second', last', after', hsecond, hlast, halikeAfter, hsecond'⟩ := ihSecond halikeFirst
    obtain rfl := Ending.eq_finished hlast
    rw [halikeFirst.kind_peek_eq] at hother
    refine ⟨_, _, ?_, halikeAfter.keepVariables halike,
      .controlOtherwise hhead' hfirst' hother hsecond'⟩
    simp only [Node.mapPosition, Pipeline.position_eq hheadPlain, hheadPlain, hfirst, hsecond]
  | @block _ _ _ _ name _ _ root _ hname hargument _ hdefine ih =>
    obtain ⟨position', _, hposition, halikeName, hname'⟩ := hname.alike halike
    obtain ⟨argument', _, hinner, halikeHead, hargument'⟩ := hargument.recurs halikeName
    obtain ⟨root', after', hroot, halikeAfter, hroot'⟩ := ih halikeHead
    have htree : Tree.plain ⟨name, setting.template, root'⟩ =
        Tree.plain ⟨name, setting.template, root⟩ := by
      simp only [Tree.mapPosition, hroot]
    obtain ⟨trees', htrees, hdefine'⟩ := exists_define halikeAfter htree hdefine
    refine ⟨_, _, ?_, halikeAfter.withTrees htrees, .block hname' hargument' hroot' hdefine'⟩
    simp only [Node.mapPosition, hposition, hinner]

/-! ### Sources -/

/-- A definition is derived from every state that is alike, up to offsets. -/
theorem Defines.alike {setting : Setting} {after : State} (hdefines : Defines setting s after)
    (halike : s.Alike t) : ∃ after', after.Alike after' ∧ Defines setting t after' := by
  cases hdefines with
  | @definition _ _ _ name _ root _ hname hclose hroot hdefine =>
    obtain ⟨_, _, _, halikeName, hname'⟩ := hname.alike halike
    obtain ⟨_, halikeHead, hclose'⟩ := hclose.alike halikeName
    obtain ⟨root', _, hplain, halikeAfter, hroot'⟩ := hroot.recurs halikeHead
    have htree : Tree.plain ⟨name, setting.template, root'⟩ =
        Tree.plain ⟨name, setting.template, root⟩ := by
      simp only [Tree.mapPosition, hplain]
    obtain ⟨trees', htrees, hdefine'⟩ := exists_define halikeAfter htree hdefine
    exact ⟨_, halikeAfter.withTrees htrees, .definition hname' hclose' hroot' hdefine'⟩

/-- A definition starts at every state that is alike. -/
theorem OpensDefinition.alike {afterWord : State} (hopens : OpensDefinition s afterWord)
    (halike : s.Alike t) : ∃ afterWord', afterWord.Alike afterWord' ∧
      OpensDefinition t afterWord' := by
  obtain ⟨afterWord', halikeWord, hword'⟩ := hopens.word.alike halike.advance
  exact ⟨afterWord', halikeWord, halike.kind_peek_eq ▸ hopens.delimited, hword'⟩

/-- What is derived of a source is derived from every state that is alike, up to offsets. -/
theorem DerivesRoot.alike {setting : Setting} {found : List Node} {after : State}
    (hderives : DerivesRoot setting found s after) (halike : s.Alike t) :
    ∃ found' after', found'.map Node.plain = found.map Node.plain ∧ after.Alike after' ∧
      DerivesRoot setting found' t after' := by
  induction hderives generalizing t with
  | finished hpeek =>
    exact ⟨[], t, rfl, halike, .finished (halike.kind_peek_eq ▸ hpeek)⟩
  | definition hopens hdefines _ ih =>
    obtain ⟨_, halikeWord, hopens'⟩ := hopens.alike halike
    obtain ⟨_, halikeFirst, hdefines'⟩ := hdefines.alike halikeWord
    obtain ⟨found', after', hfound, halikeAfter, hothers'⟩ := ih halikeFirst
    exact ⟨found', after', hfound, halikeAfter, .definition hopens' hdefines' hothers'⟩
  | statement hpeek hopens hfirst _ ih =>
    obtain ⟨found', _, hfound, halikeFirst, hfirst'⟩ := hfirst.recurs halike
    obtain ⟨first', rfl, hplain⟩ := Statement.exists_node hfound
    obtain ⟨others', after', hothers, halikeAfter, hothers'⟩ := ih halikeFirst
    have hopens' (afterWord : State) : ¬ OpensDefinition t afterWord := by
      intro hopens'
      obtain ⟨other, _, hother⟩ := hopens'.alike halike.symm
      exact hopens other hother
    refine ⟨first' :: others', after', ?_, halikeAfter,
      .statement (halike.kind_peek_eq ▸ hpeek) hopens' hfirst' hothers'⟩
    rw [List.map_cons, List.map_cons, hplain, hothers]

end Alike

/-- The states at the start of two sources are alike if their items are. -/
theorem State.alike_initial {items others : List Item}
    (hitems : items.map Item.plain = others.map Item.plain) :
    (State.initial items).Alike (State.initial others) := by
  have hline (items : List Item) : ((items.map Item.plain).head?.map (·.position.line)).getD 1 =
      (items.head?.map (·.position.line)).getD 1 := by
    cases items <;> rfl
  simp only [State.Alike, State.plain, State.initial]
  rw [← hline items, ← hline others, hitems]

end Parse

/-- A source whose items are those of another one up to offsets and delimiters is parsed as the
other is, with the same trees up to offsets. -/
theorem exists_parse_alike {name source other : String} {old new : Delimiters}
    {isFunction : String → Bool} {set : TreeSet}
    (hitems : (lex old source).map Item.plain = (lex new other).map Item.plain)
    (hparse : parse name old isFunction source = .ok set) :
    ∃ set', set'.plain = set.plain ∧ parse name new isFunction other = .ok set' := by
  obtain ⟨nodes, after, hderives, hdefine⟩ := parse_eq_ok_iff.mp hparse
  have halike := Parse.State.alike_initial hitems
  obtain ⟨nodes', after', hnodes, halikeAfter, hderives'⟩ := hderives.alike halike
  have htree : Tree.plain ⟨name, name, ⟨(Parse.State.initial (lex new other)).peek.position,
      nodes'⟩⟩ = Tree.plain ⟨name, name, ⟨(Parse.State.initial (lex old source)).peek.position,
      nodes⟩⟩ := by
    simp only [Tree.mapPosition, Body.mapPosition, Node.mapPositions_eq_map, hnodes,
      Item.position_eq halike.peek_eq]
  obtain ⟨set', hset, hdefine'⟩ := Parse.exists_define halikeAfter htree hdefine
  exact ⟨set', hset, parse_eq_ok_iff.mpr ⟨nodes', after', hderives', hdefine'⟩⟩

/-- Two sources whose items are the same up to offsets and delimiters are both refused, or both
accepted with the same trees up to offsets. -/
theorem parse_alike {source other : String} {old new : Delimiters}
    (hitems : (lex old source).map Item.plain = (lex new other).map Item.plain) (name : String)
    (isFunction : String → Bool) :
    (parse name new isFunction other).toOption.map TreeSet.plain =
      (parse name old isFunction source).toOption.map TreeSet.plain := by
  cases hparse : parse name old isFunction source with
  | ok set =>
    obtain ⟨set', hset, hparse'⟩ := exists_parse_alike hitems hparse
    rw [hparse']
    exact congrArg some hset
  | error error =>
    cases hother : parse name new isFunction other with
    | error => rfl
    | ok set =>
      obtain ⟨set', _, hparse'⟩ := exists_parse_alike hitems.symm hother
      rw [hparse] at hparse'
      cases hparse'

end Stencil.Syntax
