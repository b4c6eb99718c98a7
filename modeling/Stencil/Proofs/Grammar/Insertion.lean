import Stencil.Proofs.Grammar.Context
import Stencil.Proofs.Grammar.Offsets
import Stencil.Proofs.Grammar.Positions
import Stencil.Proofs.Grammar.Starts
import Stencil.Proofs.Grammar.Trees
import Stencil.Proofs.Lexing.Outside

/-!
# A source inside another

A source may stand inside another one: at other positions, with other items where it ends, and with
more variables visible (`Surroundings`). The parser reads it there as it does alone, and gives the
same nodes at their new positions (`DerivesPhrase.inside`, `DerivesPassage.inside`), as long as it
defines no further template: what a definition adds to the trees is there for the whole source.

Where the parser looks ahead at the end of the source, it finds what a source starts with and not
what an action goes on with (`ItemKind.isOutside`). So it stops there as it does at the end.
-/

set_option autoImplicit false
set_option relaxedAutoImplicit false

namespace Stencil.Syntax

/-! ### Surroundings -/

/-- An item at another position. -/
def Item.mapPosition (place : Position → Position) (item : Item) : Item :=
  { item with position := place item.position }

@[simp]
theorem Item.kind_mapPosition (place : Position → Position) (item : Item) :
    (item.mapPosition place).kind = item.kind := rfl

/-- What a source that stands inside another one differs in: the positions, the items in the place
of its end, and the variables in the place of the dollar sign. -/
structure Surroundings where
  place : Position → Position
  behind : List Item
  outer : List String
  starts : ∃ first ∈ behind.head?, first.kind.isOutside = true
  dollar : "$" ∈ outer

/-- That items are those of a source, none of which starts a definition, inside of surroundings. -/
inductive Surroundings.Extends (around : Surroundings) : List Item → List Item → Prop
  | ending {item : Item} (hend : item.kind = .eof) : around.Extends [item] around.behind
  | item {item : Item} {items others : List Item} (hend : item.kind ≠ .eof)
    (hsingle : item.kind ≠ .keyword .defineWord ∧ item.kind ≠ .keyword .blockWord)
    (hitems : around.Extends items others) :
    around.Extends (item :: items) (item.mapPosition around.place :: others)

section Items

variable {around : Surroundings} {items others : List Item}

/-- Behind the end of a source stands what a source starts with. -/
theorem Surroundings.exists_behind (around : Surroundings) :
    ∃ first rest, around.behind = first :: rest ∧ first.kind.isOutside = true := by
  obtain ⟨first, hfirst, houtside⟩ := around.starts
  cases hbehind : around.behind with
  | nil =>
    rw [hbehind] at hfirst
    cases hfirst
  | cons head rest =>
    rw [hbehind] at hfirst
    cases hfirst
    exact ⟨first, rest, rfl, houtside⟩

/-- An item outside of actions is none that stands inside of them. -/
theorem ne_of_isOutside {kind other : ItemKind} (houtside : kind.isOutside = true)
    (hother : other.isOutside = false) : kind ≠ other := by
  rintro rfl
  rw [houtside] at hother
  cases hother

namespace Parse

/-- Spaces are skipped up to the same place. -/
theorem extends_skipFrom (hextends : around.Extends items others) (line line' : Nat) :
    around.Extends (State.skipFrom line items).2 (State.skipFrom line' others).2 := by
  induction hextends generalizing line line' with
  | @ending item hend =>
    obtain ⟨first, rest, hbehind, houtside⟩ := around.exists_behind
    have hspace : first.kind ≠ .space := ne_of_isOutside houtside rfl
    have hitem : item.kind ≠ .space := by simp [hend]
    have hbehind' : (State.skipFrom line' around.behind).2 = around.behind := by
      rw [hbehind, State.skipFrom, if_neg hspace]
    rw [State.skipFrom, if_neg hitem, hbehind']
    exact .ending hend
  | @item item _ _ hend hsingle hitems ih =>
    rw [State.skipFrom, State.skipFrom, Item.kind_mapPosition]
    by_cases hspace : item.kind = .space
    · rw [if_pos hspace, if_pos hspace]
      exact ih _ _
    · rw [if_neg hspace, if_neg hspace]
      exact .item hend hsingle hitems

/-- The same fields are read, up to the same place. -/
theorem extends_fieldsFrom (hextends : around.Extends items others) (line line' : Nat) :
    (fieldsFrom line' others).1 = (fieldsFrom line items).1 ∧
      around.Extends (fieldsFrom line items).2.2 (fieldsFrom line' others).2.2 := by
  induction hextends generalizing line line' with
  | @ending item hend =>
    obtain ⟨first, rest, hbehind, houtside⟩ := around.exists_behind
    have hfield : first.kind ≠ .field := ne_of_isOutside houtside rfl
    have hitem : item.kind ≠ .field := by simp [hend]
    have hbehind' : fieldsFrom line' around.behind = ([], line', around.behind) := by
      rw [hbehind, fieldsFrom, if_neg hfield]
    rw [fieldsFrom, if_neg hitem, hbehind']
    exact ⟨rfl, .ending hend⟩
  | @item item _ _ hend hsingle hitems ih =>
    rw [fieldsFrom, fieldsFrom, Item.kind_mapPosition]
    by_cases hfield : item.kind = .field
    · rw [if_pos hfield, if_pos hfield]
      obtain ⟨hnames, hrest⟩ := ih item.position.line (item.mapPosition around.place).position.line
      exact ⟨congrArg (fieldName item :: ·) hnames, hrest⟩
    · rw [if_neg hfield, if_neg hfield]
      exact ⟨rfl, .item hend hsingle hitems⟩

end Parse

end Items

namespace Parse

/-- That a state is in a source, and the other one at the same place of the source inside of
surroundings. Of what no derivation asks, the line of the last item, nothing is said. -/
structure State.Inside (around : Surroundings) (s t : State) : Prop where
  items : around.Extends s.rest t.rest
  visible : ∃ inner, s.visible = inner ++ ["$"] ∧ t.visible = inner ++ around.outer
  trees : s.trees = {} ∧ t.trees = {}
  loopDepth_eq : t.loopDepth = s.loopDepth
  depth_eq : t.depth = s.depth

section Inside

variable {setting : Setting} {around : Surroundings} {s t after : State}

/-! ### Reading -/

namespace State.Inside

theorem skipSpaces (hinside : s.Inside around t) : s.skipSpaces.Inside around t.skipSpaces :=
  ⟨extends_skipFrom hinside.items s.line t.line, hinside.visible, hinside.trees,
    hinside.loopDepth_eq, hinside.depth_eq⟩

/-- What is read alone, other than the end, is read inside at its new position. -/
theorem reads (hinside : s.Inside around t) {item : Item} (hread : s.Reads item after)
    (hend : item.kind ≠ .eof) :
    ∃ after', after.Inside around after' ∧ t.Reads (item.mapPosition around.place) after' := by
  have hitems := hinside.skipSpaces.items
  rw [hread.rest_eq] at hitems
  generalize hothers : t.skipSpaces.rest = others at hitems
  generalize hrest : after.rest = rest at hitems
  cases hitems with
  | ending heof => exact absurd heof hend
  | @item _ _ others _ _ hitems =>
    refine ⟨{ t with line := (around.place item.position).line, rest := others }, ?_, hothers, rfl⟩
    rw [hread.state_eq, hrest]
    exact ⟨hitems, hinside.visible, hinside.trees, hinside.loopDepth_eq, hinside.depth_eq⟩

/-- What is read inside, and no source starts with, is read alone. -/
theorem reads_back (hinside : s.Inside around t) {item : Item} (hread : t.Reads item after)
    (houtside : item.kind.isOutside = false) :
    ∃ alone before, item = alone.mapPosition around.place ∧ before.Inside around after ∧
      s.Reads alone before := by
  have hitems := hinside.skipSpaces.items
  rw [hread.rest_eq] at hitems
  generalize hothers : s.skipSpaces.rest = others at hitems
  generalize hinner : item :: after.rest = inner at hitems
  cases hitems with
  | ending heof =>
    obtain ⟨first, rest, hbehind, hfirst⟩ := around.exists_behind
    rw [← hinner] at hbehind
    cases hbehind
    exact absurd rfl (ne_of_isOutside hfirst houtside)
  | @item alone others _ _ _ hitems =>
    cases hinner
    refine ⟨alone, { s with line := alone.position.line, rest := others }, rfl, ?_, hothers, rfl⟩
    rw [hread.state_eq]
    exact ⟨hitems, hinside.visible, hinside.trees, hinside.loopDepth_eq, hinside.depth_eq⟩

/-- No item that is read starts a definition. -/
theorem single (hinside : s.Inside around t) {item : Item} (hread : s.Reads item after) :
    item.kind ≠ .keyword .defineWord ∧ item.kind ≠ .keyword .blockWord := by
  have hitems := hinside.skipSpaces.items
  rw [hread.rest_eq] at hitems
  generalize t.skipSpaces.rest = others at hitems
  generalize after.rest = rest at hitems
  cases hitems with
  | ending heof => simp [heof]
  | item _ hsingle => exact hsingle

/-- The next item is the same at its new position, unless it is the end. -/
theorem peek_eq (hinside : s.Inside around t) (hend : s.peek.kind ≠ .eof) :
    t.peek = s.peek.mapPosition around.place := by
  have hitems := hinside.items
  unfold State.peek at hend ⊢
  generalize s.rest = items, t.rest = others at hitems hend
  cases hitems with
  | ending heof => exact absurd heof hend
  | item => rfl

/-- The next item is no other in an action, be it the end or not. -/
theorem peek_ne (hinside : s.Inside around t) {kind : ItemKind} (hkind : kind.isOutside = false)
    (hne : s.peek.kind ≠ kind) : t.peek.kind ≠ kind := by
  have hitems := hinside.items
  unfold State.peek at hne ⊢
  generalize s.rest = items, t.rest = others at hitems hne
  cases hitems with
  | ending =>
    obtain ⟨first, rest, hbehind, houtside⟩ := around.exists_behind
    rw [hbehind]
    exact ne_of_isOutside houtside hkind
  | item => exact hne

/-- What starts no operand alone starts none inside. -/
theorem startsOperand_peek (hinside : s.Inside around t)
    (hnone : startsOperand s.peek.kind = false) : startsOperand t.peek.kind = false := by
  rw [Bool.eq_false_iff]
  intro hstart
  have houtside : t.peek.kind.isOutside = false := by
    generalize t.peek.kind = kind at hstart
    cases kind <;> first | rfl | cases hstart
  refine hinside.peek_ne houtside (fun hkind ↦ ?_) rfl
  rw [hkind, hstart] at hnone
  cases hnone

theorem advance (hinside : s.Inside around t) (hend : s.peek.kind ≠ .eof) :
    s.advance.Inside around t.advance := by
  obtain ⟨line, items, visible, trees, actionLine, loopDepth, depth⟩ := s
  obtain ⟨line', others, visible', trees', actionLine', loopDepth', depth'⟩ := t
  obtain ⟨hitems, hvisible, htrees, hloopDepth, hdepth⟩ := hinside
  change around.Extends items others at hitems
  cases hitems with
  | ending heof => exact absurd heof hend
  | item _ _ hitems => exact ⟨hitems, hvisible, htrees, hloopDepth, hdepth⟩

/-- The next item after spaces stands at its new position, unless it is the end. -/
theorem position_eq (hinside : s.Inside around t) (hend : s.skipSpaces.peek.kind ≠ .eof) :
    t.skipSpaces.peek.position = around.place s.skipSpaces.peek.position :=
  congrArg Item.position (hinside.skipSpaces.peek_eq hend)

theorem declare (hinside : s.Inside around t) (name : String) :
    (s.declare name).Inside around (t.declare name) := by
  obtain ⟨inner, hvisible, hvisible'⟩ := hinside.visible
  exact ⟨hinside.items, ⟨name :: inner, congrArg (name :: ·) hvisible,
    congrArg (name :: ·) hvisible'⟩, hinside.trees, hinside.loopDepth_eq, hinside.depth_eq⟩

/-- The variables that are visible alone are visible inside. -/
theorem mem_visible (hinside : s.Inside around t) {name : String} (hname : name ∈ s.visible) :
    name ∈ t.visible := by
  obtain ⟨inner, hvisible, hvisible'⟩ := hinside.visible
  rw [hvisible] at hname
  rw [hvisible']
  rcases List.mem_append.mp hname with hname | hname
  · exact List.mem_append_left _ hname
  · rw [List.mem_singleton.mp hname]
    exact List.mem_append_right _ around.dollar

theorem enter (hinside : s.Inside around t) : s.enter.Inside around t.enter :=
  ⟨hinside.items, hinside.visible, hinside.trees, hinside.loopDepth_eq,
    congrArg (· + 1) hinside.depth_eq⟩

theorem leave (hinside : s.Inside around t) : s.leave.Inside around t.leave :=
  ⟨hinside.items, hinside.visible, hinside.trees, hinside.loopDepth_eq,
    congrArg (· - 1) hinside.depth_eq⟩

theorem fields (hinside : s.Inside around t) :
    t.fields.value = s.fields.value ∧ s.fields.state.Inside around t.fields.state := by
  obtain ⟨hnames, hitems⟩ := extends_fieldsFrom hinside.items s.line t.line
  exact ⟨hnames, hitems, hinside.visible, hinside.trees, hinside.loopDepth_eq, hinside.depth_eq⟩

end State.Inside

/-! ### Declarations -/

/-- Declarations at other positions. -/
def Declarations.mapPosition (place : Position → Position) (declared : Declarations) :
    Declarations :=
  { declared with targets := declared.targets.map (Variable.mapPosition place) }

/-- A declaration that starts inside starts alone. -/
theorem StartsDeclaration.of_inside (hstarts : StartsDeclaration t) (hinside : s.Inside around t) :
    StartsDeclaration s := by
  obtain ⟨item, afterName, sign, afterSign, hname, hvariable, hsign, hkind⟩ := hstarts
  have hsignKind : sign.kind.isOutside = false := by
    rcases hkind with hkind | hkind
    · simp only [isDeclaring, Bool.or_eq_true, decide_eq_true_eq] at hkind
      rcases hkind with hkind | hkind <;> rw [hkind] <;> rfl
    · simp only [isSeparator, Bool.and_eq_true, decide_eq_true_eq] at hkind
      rw [hkind.1]
      rfl
  obtain ⟨alone, before, rfl, hbefore, hname'⟩ := hinside.reads_back hname (by rw [hvariable]; rfl)
  obtain ⟨aloneSign, _, rfl, _, hsign'⟩ := hbefore.reads_back hsign hsignKind
  exact ⟨alone, before, aloneSign, _, hname', hvariable, hsign', hkind⟩

/-- What is declared alone is declared inside. -/
theorem Declares.inside {more : Nat} {declared : Declarations}
    (hdeclares : Declares more s declared after) (hinside : s.Inside around t) :
    ∃ after', after.Inside around after' ∧
      Declares more t (declared.mapPosition around.place) after' := by
  induction hdeclares generalizing t with
  | none hnone =>
    exact ⟨_, hinside.skipSpaces, .none fun hstarts ↦ hnone (hstarts.of_inside hinside)⟩
  | @last _ _ _ _ item sign hname hvariable hsign hkind =>
    have hsignEnd : sign.kind ≠ .eof := by
      intro hend
      rw [hend] at hkind
      cases hkind
    obtain ⟨afterName', hinsideName, hname'⟩ := hinside.reads hname (by simp [hvariable])
    obtain ⟨afterSign', hinsideSign, hsign'⟩ := hinsideName.reads hsign hsignEnd
    exact ⟨_, hinsideSign.declare item.value, @Declares.last _ t afterName' afterSign'
      (item.mapPosition around.place) (sign.mapPosition around.place) hname' hvariable hsign' hkind⟩
  | @more _ _ _ afterSign _ item sign _ hname hvariable hsign hseparator hnext _ ih =>
    have hsignEnd : sign.kind ≠ .eof := by
      intro hend
      simp [isSeparator, hend] at hseparator
    obtain ⟨afterName', hinsideName, hname'⟩ := hinside.reads hname (by simp [hvariable])
    obtain ⟨afterSign', hinsideSign, hsign'⟩ := hinsideName.reads hsign hsignEnd
    have hdeclared := hinsideSign.declare item.value
    obtain ⟨after', hinsideAfter, hothers'⟩ := ih hdeclared
    have hend : (afterSign.declare item.value).skipSpaces.peek.kind ≠ .eof := by
      intro hend
      rw [hend] at hnext
      cases hnext
    refine ⟨after', hinsideAfter, .more hname' hvariable hsign' hseparator ?_ hothers'⟩
    change mayFollowSeparator (State.declare afterSign' item.value).skipSpaces.peek.kind = true
    rw [hdeclared.skipSpaces.peek_eq hend]
    exact hnext

/-! ### Terms -/

/-- An item is the same term at another position. -/
theorem IsTerm.mapPosition (place : Position → Position) {visible others : List String}
    {item : Item} {found : Node} (hterm : IsTerm setting visible item found)
    (hvisible : ∀ name ∈ visible, name ∈ others) :
    IsTerm setting others (item.mapPosition place) (found.mapPosition place) := by
  cases hterm with
  | identifier hkind hfunction =>
    exact @IsTerm.identifier _ _ (item.mapPosition place) hkind hfunction
  | dot hkind => exact @IsTerm.dot _ _ (item.mapPosition place) hkind
  | nil hkind => exact @IsTerm.nil _ _ (item.mapPosition place) hkind
  | variableName hkind hmem =>
    exact @IsTerm.variableName _ _ (item.mapPosition place) hkind (hvisible _ hmem)
  | field hkind => exact @IsTerm.field _ _ (item.mapPosition place) hkind
  | bool hkind => exact @IsTerm.bool _ _ (item.mapPosition place) hkind
  | charConstant hkind hvalue =>
    exact @IsTerm.charConstant _ _ (item.mapPosition place) _ hkind hvalue
  | @number literal hkind hvalue =>
    have hother : NumberLiteral.ofText (place item.position) item.value =
        .ok (literal.mapPosition place) := by
      rw [ofText_position item.position, hvalue, NumberLiteral.mapPosition, (eq_of_ofText hvalue).1]
      rfl
    exact @IsTerm.number _ _ (item.mapPosition place) _ hkind hother
  | string hkind hvalue => exact @IsTerm.string _ _ (item.mapPosition place) _ hkind hvalue

/-- The fields taken of a term alone are taken of it inside. -/
theorem Chained.inside {base found : Node} (hchained : Chained base s found after)
    (hinside : s.Inside around t) :
    ∃ after', after.Inside around after' ∧
      Chained (base.mapPosition around.place) t (found.mapPosition around.place) after' := by
  cases hchained with
  | alone hkind => exact ⟨t, hinside, .alone (hinside.peek_ne rfl hkind)⟩
  | fields hkind hfields =>
    have hpeek := hinside.peek_eq (by simp [hkind])
    obtain ⟨hnames, hstate⟩ := hinside.fields
    refine ⟨_, hstate, ?_⟩
    rw [takeFields_mapPosition, ← hnames]
    have hposition : around.place s.peek.position = t.peek.position := by
      rw [hpeek]
      rfl
    rw [hposition]
    exact .fields (by rw [hpeek]; exact hkind) ((hasFields_mapPosition around.place base).trans
      hfields)

/-- What ends a command alone ends it inside. -/
theorem EndsCommand.inside (hend : EndsCommand s after) (hinside : s.Inside around t) :
    ∃ after', after.Inside around after' ∧ EndsCommand t after' := by
  cases hend with
  | closer hkind =>
    have hpeek := hinside.peek_eq (by rcases hkind with hkind | hkind <;> simp [hkind])
    exact ⟨t, hinside, .closer (by rw [hpeek]; exact hkind)⟩
  | bar hkind =>
    have hpeek := hinside.peek_eq (by simp [hkind])
    exact ⟨t.advance, hinside.advance (by simp [hkind]), .bar (by rw [hpeek]; exact hkind)⟩

/-! ### Pipelines -/

/-- A phrase at other positions. -/
def Phrase.mapPosition (place : Position → Position) : Phrase → Phrase
  | pipeline clause closer found => pipeline clause closer (found.mapPosition place)
  | commands closer found => commands closer (Command.mapPositions place found)
  | command found => command (found.mapPosition place)
  | operands found => operands (Node.mapPositions place found)
  | operand found => operand (found.mapPosition place)

/-- That a phrase goes no further than its source. -/
def Phrase.EndsBefore : Phrase → Prop
  | pipeline _ closer _ | commands closer _ => closer ≠ .eof
  | _ => True

theorem mapPositions_ne_nil {place : Position → Position} {nodes : List Node} (hne : nodes ≠ []) :
    Node.mapPositions place nodes ≠ [] := by
  cases nodes with
  | nil => exact absurd rfl hne
  | cons node rest => exact List.cons_ne_nil _ _

theorem startsOperand_ne_eof {kind : ItemKind} (hstart : startsOperand kind = true) :
    kind ≠ .eof := by
  rintro rfl
  cases hstart

/-- A phrase that is derived alone is derived inside. -/
theorem DerivesPhrase.inside {phrase : Phrase} (hderives : DerivesPhrase setting phrase s after)
    (hcloser : phrase.EndsBefore) (hinside : s.Inside around t) :
    ∃ after', after.Inside around after' ∧
      DerivesPhrase setting (phrase.mapPosition around.place) t after' := by
  induction hderives generalizing t with
  | @pipeline clause closer s afterDeclarations after declared found hdeclares hcommands hvalue
      hcallable ih =>
    obtain ⟨item, _, hread, hstart⟩ :=
      exists_reads_of_pipeline (.pipeline hdeclares hcommands hvalue hcallable)
    have hposition := hinside.position_eq (hread.peek_eq ▸ startsOperand_ne_eof hstart)
    obtain ⟨afterDeclarations', hinsideDeclared, hdeclares'⟩ := hdeclares.inside hinside
    obtain ⟨after', hinsideAfter, hcommands'⟩ := ih hcloser hinsideDeclared
    have hvalue' : Command.mapPositions around.place found ≠ [] := by
      rw [Command.mapPositions_eq_map]
      simpa using hvalue
    have hcallable' : valueStage? 2 (Command.mapPositions around.place found).tail =
        Option.none := by
      rw [Command.mapPositions_eq_map, ← List.map_tail, valueStage?_mapPosition]
      exact hcallable
    refine ⟨after', hinsideAfter, ?_⟩
    have hderives := DerivesPhrase.pipeline hdeclares' hcommands' hvalue' hcallable'
    rw [hposition] at hderives
    exact hderives
  | commandsEnd hread hkind =>
    obtain ⟨after', hinsideAfter, hread'⟩ := hinside.reads hread (hkind ▸ hcloser)
    exact ⟨after', hinsideAfter, .commandsEnd hread' hkind⟩
  | commandsMore hread hkind hstart _ _ ihFirst ihOthers =>
    obtain ⟨_, _, hread'⟩ := hinside.reads hread (startsOperand_ne_eof hstart)
    obtain ⟨_, hinsideFirst, hfirst'⟩ := ihFirst trivial hinside
    obtain ⟨after', hinsideAfter, hothers'⟩ := ihOthers hcloser hinsideFirst
    exact ⟨after', hinsideAfter, .commandsMore hread' hkind hstart hfirst' hothers'⟩
  | @command s after found hoperands hvalue ih =>
    obtain ⟨item, _, hread, hstart⟩ := exists_reads_of_command (.command hoperands hvalue)
    have hposition := hinside.position_eq (hread.peek_eq ▸ startsOperand_ne_eof hstart)
    obtain ⟨after', hinsideAfter, hoperands'⟩ := ih trivial hinside
    refine ⟨after', hinsideAfter, ?_⟩
    have hderives := DerivesPhrase.command hoperands' (mapPositions_ne_nil hvalue)
    rw [hposition] at hderives
    exact hderives
  | operandsEnd hnone hend =>
    obtain ⟨after', hinsideAfter, hend'⟩ := hend.inside hinside.skipSpaces
    exact ⟨after', hinsideAfter, .operandsEnd (hinside.skipSpaces.startsOperand_peek hnone) hend'⟩
  | operandsMore _ hspace _ ihFirst ihOthers =>
    obtain ⟨_, hinsideFirst, hfirst'⟩ := ihFirst trivial hinside.skipSpaces
    have hpeek := hinsideFirst.peek_eq (by simp [hspace])
    obtain ⟨after', hinsideAfter, hothers'⟩ :=
      ihOthers trivial (hinsideFirst.advance (by simp [hspace]))
    exact ⟨after', hinsideAfter, .operandsMore hfirst' (by rw [hpeek]; exact hspace) hothers'⟩
  | operandsLast _ hspace hend ih =>
    obtain ⟨_, hinsideFirst, hfirst'⟩ := ih trivial hinside.skipSpaces
    obtain ⟨after', hinsideAfter, hend'⟩ := hend.inside hinsideFirst
    exact ⟨after', hinsideAfter, .operandsLast hfirst' (hinsideFirst.peek_ne rfl hspace) hend'⟩
  | parenthesized hread hkind hdepth _ hchained ih =>
    obtain ⟨_, hinsideItem, hread'⟩ := hinside.reads hread (by simp [hkind])
    obtain ⟨_, hinsideInner, hinner'⟩ := ih (by simp [Phrase.EndsBefore]) hinsideItem.enter
    obtain ⟨after', hinsideAfter, hchained'⟩ := hchained.inside hinsideInner.leave
    exact ⟨after', hinsideAfter, .parenthesized hread' hkind (hinsideItem.depth_eq ▸ hdepth)
      hinner' hchained'⟩
  | @term _ _ _ item _ _ hread hterm hchained =>
    have hend : item.kind ≠ .eof := by
      obtain ⟨other, _, hother, hstart⟩ := exists_reads_of_operand (.term hread hterm hchained)
      rw [(hread.unique hother).1]
      exact startsOperand_ne_eof hstart
    obtain ⟨_, hinsideItem, hread'⟩ := hinside.reads hread hend
    obtain ⟨after', hinsideAfter, hchained'⟩ := hchained.inside hinsideItem
    exact ⟨after', hinsideAfter, .term hread' (hterm.mapPosition around.place fun _ ↦
      hinside.mem_visible) hchained'⟩

/-! ### Statements -/

namespace State.Inside

theorem enterAction (hinside : s.Inside around t) (line line' : Nat) :
    (s.enterAction line).Inside around (t.enterAction line') :=
  ⟨hinside.items, hinside.visible, hinside.trees, hinside.loopDepth_eq, hinside.depth_eq⟩

theorem leaveAction (hinside : s.Inside around t) : s.leaveAction.Inside around t.leaveAction :=
  ⟨hinside.items, hinside.visible, hinside.trees, hinside.loopDepth_eq, hinside.depth_eq⟩

theorem enterBranch (hinside : s.Inside around t) (kind : BranchKind) :
    (s.enterBranch kind).Inside around (t.enterBranch kind) :=
  ⟨hinside.items, hinside.visible, hinside.trees, congrArg (· + loopsOf kind) hinside.loopDepth_eq,
    hinside.depth_eq⟩

theorem leaveBranch (hinside : s.Inside around t) (kind : BranchKind) :
    (s.leaveBranch kind).Inside around (t.leaveBranch kind) :=
  ⟨hinside.items, hinside.visible, hinside.trees, congrArg (· - loopsOf kind) hinside.loopDepth_eq,
    hinside.depth_eq⟩

/-- At the end of a control structure as many variables are kept inside as are visible there. -/
theorem keepVariables (hinside : s.Inside around t) {after' : State}
    (hafter : after.Inside around after') (hsuffix : s.visible <:+ after.visible) :
    (after.keepVariables s.visible.length).Inside around
      (after'.keepVariables t.visible.length) := by
  obtain ⟨inner, hvisible, hvisible'⟩ := hinside.visible
  obtain ⟨further, hfurther, hfurther'⟩ := hafter.visible
  have hmore : ∃ newer, further = newer ++ inner := by
    obtain ⟨newer, hnewer⟩ := hsuffix
    rw [hvisible, hfurther, ← List.append_assoc] at hnewer
    exact ⟨newer, (List.append_cancel_right hnewer).symm⟩
  obtain ⟨newer, rfl⟩ := hmore
  have hsuffix' : t.visible <:+ after'.visible := by
    rw [hvisible', hfurther', List.append_assoc]
    exact List.suffix_append _ _
  refine ⟨hafter.items, ⟨inner, ?_, ?_⟩, hafter.trees, hafter.loopDepth_eq, hafter.depth_eq⟩
  · rw [State.visible_keepVariables hsuffix, hvisible]
  · rw [State.visible_keepVariables hsuffix', hvisible']

/-- An item of a kind that is read alone is read inside. -/
theorem readsKind (hinside : s.Inside around t) {kind : ItemKind} (hread : s.ReadsKind kind after)
    (hend : kind ≠ .eof) : ∃ after', after.Inside around after' ∧ t.ReadsKind kind after' := by
  obtain ⟨item, hread, hkind⟩ := hread
  obtain ⟨after', hinsideAfter, hread'⟩ := hinside.reads hread (hkind ▸ hend)
  exact ⟨after', hinsideAfter, _, hread', hkind⟩

/-- The name of a template that is read alone is read inside. -/
theorem namesTemplate (hinside : s.Inside around t) {name : String} {position : Position}
    (hname : NamesTemplate s name position after) :
    ∃ after', after.Inside around after' ∧
      NamesTemplate t name (around.place position) after' := by
  cases hname with
  | @name item _ _ hread hkind hvalue =>
    have hend : item.kind ≠ .eof := by rcases hkind with hkind | hkind <;> simp [hkind]
    obtain ⟨after', hinsideAfter, hread'⟩ := hinside.reads hread hend
    exact ⟨after', hinsideAfter,
      @NamesTemplate.name t (item.mapPosition around.place) after' _ hread' hkind hvalue⟩

end State.Inside

/-- The ending of a body at another position. -/
def Ending.mapPosition (place : Position → Position) : Ending → Ending
  | finished => finished
  | otherwise position => otherwise (place position)

/-- A statement at other positions. -/
def Statement.mapPosition (place : Position → Position) : Statement → Statement
  | node found => node (found.mapPosition place)
  | ending found => ending (found.mapPosition place)

/-- A passage at other positions. -/
def Passage.mapPosition (place : Position → Position) : Passage → Passage
  | body found ending => body (found.mapPosition place) (ending.mapPosition place)
  | statements found ending =>
    statements (Node.mapPositions place found) (ending.mapPosition place)
  | statement found => statement (found.mapPosition place)
  | action found => action (found.mapPosition place)
  | branchBody kind found ending =>
    branchBody kind (found.mapPosition place) (ending.mapPosition place)
  | nestedBody found => nestedBody (found.mapPosition place)
  | control kind found => control kind (found.mapPosition place)
  | block found => block (found.mapPosition place)

/-- That a passage is not a template of its own. -/
def Passage.IsSingle : Passage → Prop
  | nestedBody _ | block _ => False
  | _ => True

/-- A passage that is derived alone is derived inside. -/
theorem DerivesPassage.inside {passage : Passage}
    (hderives : DerivesPassage setting passage s after) (hsingle : passage.IsSingle)
    (hinside : s.Inside around t) :
    ∃ after', after.Inside around after' ∧
      DerivesPassage setting (passage.mapPosition around.place) t after' := by
  induction hderives generalizing t with
  | @body s after found ending hdepth hfound ih =>
    obtain ⟨_, hinsideAfter, hfound'⟩ := ih trivial hinside.enter
    have hpeek : s.enter.skipSpaces.peek.kind ≠ .eof := by
      cases hfound with
      | statementsEnd hpeek | statementsMore hpeek => exact hpeek
    have hposition : t.skipSpaces.peek.position = around.place s.skipSpaces.peek.position :=
      hinside.enter.position_eq hpeek
    refine ⟨_, hinsideAfter.leave, ?_⟩
    have hderives := DerivesPassage.body (hinside.depth_eq ▸ hdepth) hfound'
    rw [hposition] at hderives
    exact hderives
  | statementsEnd _ _ ih =>
    obtain ⟨after', hinsideAfter, hending'⟩ := ih trivial hinside
    exact ⟨after', hinsideAfter, .statementsEnd (peek_ne_eof_of_statement hending') hending'⟩
  | statementsMore _ _ _ ihFirst ihOthers =>
    obtain ⟨_, hinsideFirst, hfirst'⟩ := ihFirst trivial hinside
    obtain ⟨after', hinsideAfter, hothers'⟩ := ihOthers trivial hinsideFirst
    exact ⟨after', hinsideAfter,
      .statementsMore (peek_ne_eof_of_statement hfirst') hfirst' hothers'⟩
  | @text _ _ item hread hkind =>
    obtain ⟨after', hinsideAfter, hread'⟩ := hinside.reads hread (by simp [hkind])
    exact ⟨after', hinsideAfter,
      @DerivesPassage.text _ t after' (item.mapPosition around.place) hread' hkind⟩
  | @comment _ _ item hread hkind =>
    obtain ⟨after', hinsideAfter, hread'⟩ := hinside.reads hread (by simp [hkind])
    exact ⟨after', hinsideAfter,
      @DerivesPassage.comment _ t after' (item.mapPosition around.place) hread' hkind⟩
  | @delimited _ _ _ item _ hread hkind _ ih =>
    obtain ⟨_, hinsideItem, hread'⟩ := hinside.reads hread (by simp [hkind])
    obtain ⟨_, hinsideAfter, hfound'⟩ := ih trivial (hinsideItem.enterAction item.position.line
      (item.mapPosition around.place).position.line)
    exact ⟨_, hinsideAfter.leaveAction, .delimited hread' hkind hfound'⟩
  | blockAction hread hkind => exact absurd hkind (hinside.single hread).2
  | @breakAction _ _ _ item hread hkind hclose hloop =>
    obtain ⟨afterItem', hinsideItem, hread'⟩ := hinside.reads hread (by simp [hkind])
    obtain ⟨after', hinsideAfter, hclose'⟩ := hinsideItem.readsKind hclose (by simp)
    exact ⟨after', hinsideAfter, @DerivesPassage.breakAction _ t afterItem' after'
      (item.mapPosition around.place) hread' hkind hclose' (hinsideAfter.loopDepth_eq ▸ hloop)⟩
  | @continueAction _ _ _ item hread hkind hclose hloop =>
    obtain ⟨afterItem', hinsideItem, hread'⟩ := hinside.reads hread (by simp [hkind])
    obtain ⟨after', hinsideAfter, hclose'⟩ := hinsideItem.readsKind hclose (by simp)
    exact ⟨after', hinsideAfter, @DerivesPassage.continueAction _ t afterItem' after'
      (item.mapPosition around.place) hread' hkind hclose' (hinsideAfter.loopDepth_eq ▸ hloop)⟩
  | @elseWord _ afterItem _ hread hkind hcontinues =>
    obtain ⟨afterItem', hinsideItem, hread'⟩ := hinside.reads hread (by simp [hkind])
    have hend : afterItem.skipSpaces.peek.kind ≠ .eof := by
      intro hend
      rw [hend] at hcontinues
      cases hcontinues
    have hpeek := hinsideItem.skipSpaces.peek_eq hend
    refine ⟨_, hinsideItem.skipSpaces, ?_⟩
    have hcontinues' : continues afterItem'.skipSpaces.peek.kind = true := by
      rw [hpeek]
      exact hcontinues
    have hderives := @DerivesPassage.elseWord setting t afterItem' _ hread' hkind hcontinues'
    rw [hinsideItem.position_eq hend] at hderives
    exact hderives
  | @elseAction _ _ _ _ closer hread hkind hclose hcloser =>
    obtain ⟨afterItem', hinsideItem, hread'⟩ := hinside.reads hread (by simp [hkind])
    obtain ⟨after', hinsideAfter, hclose'⟩ := hinsideItem.reads hclose (by simp [hcloser])
    exact ⟨after', hinsideAfter, @DerivesPassage.elseAction _ t afterItem' after' _
      (closer.mapPosition around.place) hread' hkind hclose' hcloser⟩
  | endAction hread hkind hclose =>
    obtain ⟨_, hinsideItem, hread'⟩ := hinside.reads hread (by simp [hkind])
    obtain ⟨after', hinsideAfter, hclose'⟩ := hinsideItem.readsKind hclose (by simp)
    exact ⟨after', hinsideAfter, .endAction hread' hkind hclose'⟩
  | branchAction hread hkind _ ih =>
    obtain ⟨_, hinsideItem, hread'⟩ := hinside.reads hread (by simp [hkind])
    obtain ⟨after', hinsideAfter, hfound'⟩ := ih trivial hinsideItem
    exact ⟨after', hinsideAfter, .branchAction hread' hkind hfound'⟩
  | templateBare hread hkind hname hclose =>
    obtain ⟨_, hinsideItem, hread'⟩ := hinside.reads hread (by simp [hkind])
    obtain ⟨_, hinsideName, hname'⟩ := hinsideItem.namesTemplate hname
    obtain ⟨after', hinsideAfter, hclose'⟩ := hinsideName.readsKind hclose (by simp)
    exact ⟨after', hinsideAfter, .templateBare hread' hkind hname' hclose'⟩
  | templateWith hread hkind hname _ _ hargument =>
    obtain ⟨_, hinsideItem, hread'⟩ := hinside.reads hread (by simp [hkind])
    obtain ⟨_, hinsideName, hname'⟩ := hinsideItem.namesTemplate hname
    obtain ⟨after', hinsideAfter, hargument'⟩ :=
      hargument.inside (by simp [Phrase.EndsBefore]) hinsideName
    obtain ⟨next, _, hnext', hstart⟩ := exists_reads_of_pipeline hargument'
    refine ⟨after', hinsideAfter, .templateWith hread' hkind hname' hnext' ?_ hargument'⟩
    intro hclose
    rw [hclose] at hstart
    cases hstart
  | @pipelineAction s _ _ _ _ _ _ hfound =>
    obtain ⟨after', hinsideAfter, hfound'⟩ := hfound.inside (by simp [Phrase.EndsBefore]) hinside
    obtain ⟨_, _, hread, hstart⟩ := exists_reads_of_pipeline hfound
    have hposition := hinside.position_eq (hread.peek_eq ▸ startsOperand_ne_eof hstart)
    obtain ⟨_, _, hread', hstart'⟩ := exists_reads_of_pipeline hfound'
    refine ⟨after', hinsideAfter, ?_⟩
    have hderives :=
      DerivesPassage.pipelineAction hread' (startsControl_of_startsOperand hstart') hfound'
    rw [hposition] at hderives
    exact hderives
  | @branchBody kind _ _ _ _ _ ih =>
    obtain ⟨_, hinsideAfter, hfound'⟩ := ih trivial (hinside.enterBranch kind)
    exact ⟨_, hinsideAfter.leaveBranch kind, .branchBody hfound'⟩
  | nestedBody => exact absurd hsingle id
  | @controlOnly kind _ _ _ head _ hhead hfirst ih =>
    obtain ⟨_, hinsideHead, hhead'⟩ := hhead.inside (by simp [Phrase.EndsBefore]) hinside
    obtain ⟨_, hinsideAfter, hfirst'⟩ := ih trivial hinsideHead
    refine ⟨_, hinside.keepVariables hinsideAfter
      (hhead.visible_suffix.trans hfirst.visible_suffix), ?_⟩
    have hderives := DerivesPassage.controlOnly hhead' hfirst'
    rw [head.position_mapPosition around.place] at hderives
    exact hderives
  | @controlContinued _ _ _ afterFirst _ head _ _ _ _ hhead hfirst hword hpeek hinner ihFirst
      ihInner =>
    obtain ⟨_, hinsideHead, hhead'⟩ := hhead.inside (by simp [Phrase.EndsBefore]) hinside
    obtain ⟨_, hinsideFirst, hfirst'⟩ := ihFirst trivial hinsideHead
    have hend : afterFirst.peek.kind ≠ .eof := by simp [hpeek]
    obtain ⟨_, hinsideAfter, hinner'⟩ := ihInner trivial (hinsideFirst.advance hend)
    have hsuffix := hinner.visible_suffix
    rw [State.visible_advance] at hsuffix
    refine ⟨_, hinside.keepVariables hinsideAfter
      ((hhead.visible_suffix.trans hfirst.visible_suffix).trans hsuffix), ?_⟩
    have hpeek' := hpeek
    rw [← Item.kind_mapPosition around.place, ← hinsideFirst.peek_eq hend] at hpeek'
    have hderives := DerivesPassage.controlContinued hhead' hfirst' hword hpeek' hinner'
    rw [head.position_mapPosition around.place] at hderives
    exact hderives
  | @controlOtherwise _ _ _ _ _ head _ _ _ hhead hfirst _ hsecond ihFirst ihSecond =>
    obtain ⟨_, hinsideHead, hhead'⟩ := hhead.inside (by simp [Phrase.EndsBefore]) hinside
    obtain ⟨_, hinsideFirst, hfirst'⟩ := ihFirst trivial hinsideHead
    obtain ⟨_, hinsideAfter, hsecond'⟩ := ihSecond trivial hinsideFirst
    refine ⟨_, hinside.keepVariables hinsideAfter
      ((hhead.visible_suffix.trans hfirst.visible_suffix).trans hsecond.visible_suffix), ?_⟩
    have hderives := DerivesPassage.controlOtherwise hhead' hfirst'
      (fun word _ ↦ peek_ne_keyword_of_body hsecond' word) hsecond'
    rw [head.position_mapPosition around.place] at hderives
    exact hderives
  | block => exact absurd hsingle id

/-! ### Sources -/

/-- A source that is derived alone is derived inside, up to its end, and what follows it there is
derived behind it. -/
theorem DerivesRoot.inside {found : List Node} (hderives : DerivesRoot setting found s after)
    (hinside : s.Inside around t) :
    ∃ after', after.Inside around after' ∧ after.peek.kind = .eof ∧
      ∀ {others : List Node} {final : State}, DerivesRoot setting others after' final →
        DerivesRoot setting (Node.mapPositions around.place found ++ others) t final := by
  induction hderives generalizing t with
  | finished hpeek => exact ⟨t, hinside, hpeek, id⟩
  | definition hopens =>
    obtain ⟨word, hread, hword⟩ := hopens.word
    have hinsideWord := hinside.advance (by simp [hopens.delimited])
    exact absurd hword (hinsideWord.single hread).1
  | statement hpeek _ hfirst _ ih =>
    obtain ⟨_, hinsideFirst, hfirst'⟩ := hfirst.inside trivial hinside
    obtain ⟨after', hinsideAfter, hend, hothers'⟩ := ih hinsideFirst
    refine ⟨after', hinsideAfter, hend, fun hrest ↦ ?_⟩
    refine .statement ?_ (not_opensDefinition hfirst') hfirst' (hothers' hrest)
    rw [hinside.peek_eq hpeek]
    exact hpeek

end Inside

end Parse

end Stencil.Syntax
