import Mathlib
import Stencil.Proofs.Grammar.Trees
import Stencil.Proofs.Lexing.Scan

/-!
# The leaves of a tree

The leaves of a tree (`Body.leaves`) are its texts, comments, literals, names and fields, in the
order in which a source writes them. `Leaf.Matches` says which item a leaf is of. The parser neither
loses, nor repeats, nor moves an item that carries content: the leaves of the tree of a source that
defines no other template are, one for one, the items of the source that are leaves
(`parse_leaves`).

The proof is an induction on derivations. A part of the grammar reads some items, and those of them
that are leaves are the leaves of what is parsed (`Yields`); readings one after the other put these
together (`Yields.trans`).
-/

set_option autoImplicit false
set_option relaxedAutoImplicit false

namespace Stencil.Syntax

/-! ### Leaves -/

/-- What a tree keeps of an item that carries content. The position is absent where a tree does not
record it, which is that of a field after the first of a chain or after a variable. -/
inductive Leaf
  | text (position : Position) (text : String)
  | comment (position : Position) (text : String)
  | identifier (position : Position) (name : String)
  | variableName (position : Position) (name : String)
  | field (position : Option Position) (name : String)
  | dot (position : Position)
  | nil (position : Position)
  | bool (position : Position) (value : Bool)
  | number (position : Position) (text : String)
  | string (position : Position) (quoted : String)
  /-- The name of a template that is invoked, without its quotes. -/
  | template (position : Position) (name : String)
deriving DecidableEq, Repr

/-- Whether an item of this kind carries content. -/
def ItemKind.isLeaf : ItemKind → Bool
  | text | comment | bool | charConstant | number | string | rawString | identifier | field
  | «variable» | keyword .dot | keyword .nilWord => true
  | _ => false

/-- That an item is the one a leaf stands for. -/
def Leaf.Matches (leaf : Leaf) (item : Item) : Prop :=
  match leaf with
  | text position value => item = ⟨.text, position, value⟩
  | comment position value => item = ⟨.comment, position, value⟩
  | identifier position name => item = ⟨.identifier, position, name⟩
  | variableName position name => item = ⟨.variable, position, name⟩
  | field position name =>
    item.kind = .field ∧ item.value = "." ++ name ∧ position.all (· = item.position)
  | dot position => item = ⟨.keyword .dot, position, "."⟩
  | nil position => item = ⟨.keyword .nilWord, position, "nil"⟩
  | bool position value => item = ⟨.bool, position, if value then "true" else "false"⟩
  | number position value =>
    item = ⟨.number, position, value⟩ ∨ item = ⟨.charConstant, position, value⟩
  | string position quoted =>
    item = ⟨.string, position, quoted⟩ ∨ item = ⟨.rawString, position, quoted⟩
  | template position name =>
    (item.kind = .string ∨ item.kind = .rawString) ∧ item.position = position ∧
      Literal.unquote item.value = some name

/-- The leaves of fields that follow a term. -/
def fieldLeaves (names : List String) : List Leaf := names.map (.field none)

/-- The leaves of a variable: its name and the fields taken of it. -/
def Variable.leaves (reference : Variable) : List Leaf :=
  match reference.path with
  | [] => []
  | name :: names => .variableName reference.position name :: fieldLeaves names

/-- The leaves of the fields of a chain, the first of which stands at a position. -/
def chainLeaves (position : Position) : List String → List Leaf
  | [] => []
  | name :: names => .field (some position) name :: fieldLeaves names

mutual

/-- The leaves of a node. -/
def Node.leaves : Node → List Leaf
  | .text position text => [.text position text]
  | .comment position text => [.comment position text]
  | .action _ inner => inner.leaves
  | .pipeline inner => inner.leaves
  | .command inner => inner.leaves
  | .identifier position name => [.identifier position name]
  | .var reference => reference.leaves
  | .dot position => [.dot position]
  | .nil position => [.nil position]
  | .field position path => [.field (some position) (".".intercalate path)]
  | .chain position base path => base.leaves ++ chainLeaves position path
  | .bool position value => [.bool position value]
  | .number literal => [.number literal.position literal.text]
  | .string position quoted _ => [.string position quoted]
  | .branch _ _ head body otherwise =>
    head.leaves ++ body.leaves ++
      match otherwise with
      | none => []
      | some other => other.leaves
  | .template position name argument =>
    .template position name ::
      match argument with
      | none => []
      | some inner => inner.leaves
  | .breakLoop _ => []
  | .continueLoop _ => []

/-- The leaves of a pipeline: those of its declaration and then those of its commands. -/
def Pipeline.leaves : Pipeline → List Leaf
  | ⟨_, _, targets, commands⟩ => targets.flatMap Variable.leaves ++ Command.allLeaves commands

/-- The leaves of commands. -/
def Command.allLeaves : List Command → List Leaf
  | [] => []
  | command :: rest => command.leaves ++ Command.allLeaves rest

/-- The leaves of a command. -/
def Command.leaves : Command → List Leaf
  | ⟨_, operands⟩ => Node.allLeaves operands

/-- The leaves of nodes in a row. -/
def Node.allLeaves : List Node → List Leaf
  | [] => []
  | node :: rest => node.leaves ++ Node.allLeaves rest

/-- The leaves of a body. -/
def Body.leaves : Body → List Leaf
  | ⟨_, nodes⟩ => Node.allLeaves nodes

end

namespace Parse

/-! ### Reading leaves -/

/-- That items are read between two states of which those that carry content are given leaves, and
no tree is found. -/
structure Yields (s after : State) (leaves : List Leaf) : Prop where
  reads : ∃ items, s.rest = items ++ after.rest ∧
    List.Forall₂ Leaf.Matches leaves (items.filter (·.kind.isLeaf))
  trees_eq : after.trees = s.trees

section Yields

variable {s middle after : State}

/-- Reading nothing yields nothing. -/
theorem Yields.refl (s : State) : Yields s s [] :=
  ⟨⟨[], rfl, .nil⟩, rfl⟩

/-- Readings one after the other yield what each of them does. -/
theorem Yields.trans {first second : List Leaf} (hfirst : Yields s middle first)
    (hsecond : Yields middle after second) : Yields s after (first ++ second) := by
  obtain ⟨items, hitems, hmatches⟩ := hfirst.reads
  obtain ⟨others, hothers, hfollow⟩ := hsecond.reads
  refine ⟨⟨items ++ others, ?_, ?_⟩, hsecond.trees_eq.trans hfirst.trees_eq⟩
  · rw [hitems, hothers, List.append_assoc]
  · rw [List.filter_append]
    exact List.rel_append hmatches hfollow

/-- A reading without leaves goes before another one. -/
theorem Yields.before {leaves : List Leaf} (hfirst : Yields s middle [])
    (hsecond : Yields middle after leaves) : Yields s after leaves :=
  hfirst.trans hsecond

/-- A reading without leaves goes after another one. -/
theorem Yields.andThen {leaves : List Leaf} (hfirst : Yields s middle leaves)
    (hsecond : Yields middle after []) : Yields s after leaves := by
  simpa using hfirst.trans hsecond

/-- Spaces are no leaves. -/
theorem yields_skipSpaces (s : State) : Yields s s.skipSpaces [] := by
  have hskip (line : Nat) (items : List Item) : ∃ spaces,
      items = spaces ++ (State.skipFrom line items).2 ∧
        spaces.filter (·.kind.isLeaf) = [] := by
    induction items generalizing line with
    | nil => exact ⟨[], rfl, rfl⟩
    | cons item rest ih =>
      simp only [State.skipFrom]
      split
      next hkind =>
        obtain ⟨spaces, hspaces, hleaves⟩ := ih item.position.line
        refine ⟨item :: spaces, ?_, ?_⟩
        · rw [List.cons_append, ← hspaces]
        · rw [List.filter_cons_of_neg (by simp [hkind, ItemKind.isLeaf]), hleaves]
      next => exact ⟨[], rfl, rfl⟩
  obtain ⟨spaces, hspaces, hleaves⟩ := hskip s.line s.rest
  exact ⟨⟨spaces, hspaces, hleaves ▸ .nil⟩, rfl⟩

/-- An item that is read yields the leaf that it matches. -/
theorem State.Reads.yields {item : Item} {leaf : Leaf} (hread : s.Reads item after)
    (hleaf : item.kind.isLeaf = true) (hmatches : leaf.Matches item) : Yields s after [leaf] := by
  refine (yields_skipSpaces s).before ⟨⟨[item], hread.rest_eq, ?_⟩, by rw [hread.state_eq]; rfl⟩
  rw [List.filter_cons_of_pos (by simpa using hleaf)]
  exact .cons hmatches .nil

/-- An item that carries no content yields nothing. -/
theorem State.Reads.yields_nil {item : Item} (hread : s.Reads item after)
    (hleaf : item.kind.isLeaf = false) : Yields s after [] := by
  refine (yields_skipSpaces s).before ⟨⟨[item], hread.rest_eq, ?_⟩, by rw [hread.state_eq]; rfl⟩
  rw [List.filter_cons_of_neg (by simpa using hleaf)]
  exact .nil

/-- Going past an item that carries no content yields nothing. -/
theorem yields_advance (hleaf : s.peek.kind.isLeaf = false) : Yields s s.advance [] := by
  unfold State.advance
  unfold State.peek at hleaf
  cases hrest : s.rest with
  | nil => exact .refl s
  | cons item rest =>
    rw [hrest] at hleaf
    refine ⟨⟨[item], hrest, ?_⟩, rfl⟩
    rw [List.filter_cons_of_neg (by simpa using hleaf)]
    exact .nil

/-- What ends a command yields nothing. -/
theorem EndsCommand.yields (hend : EndsCommand s after) : Yields s after [] := by
  cases hend with
  | closer => exact .refl s
  | bar hkind => exact yields_advance (by rw [hkind]; rfl)

/-! ### The items of a source -/

/-- That the items still to be read spell what they are, and none of them starts the definition of
another template. -/
structure Readable (s : State) : Prop where
  spells : ∀ item ∈ s.rest, item.kind.Spells item.value.toList
  single : ∀ item ∈ s.rest,
    item.kind ≠ .keyword .defineWord ∧ item.kind ≠ .keyword .blockWord

/-- Only items that were there are left. -/
theorem Yields.readable {leaves : List Leaf} (hyields : Yields s after leaves)
    (hreadable : Readable s) : Readable after := by
  obtain ⟨items, hitems, _⟩ := hyields.reads
  have hmem {item : Item} (hitem : item ∈ after.rest) : item ∈ s.rest := by
    rw [hitems]
    exact List.mem_append_right items hitem
  exact ⟨fun item hitem ↦ hreadable.spells item (hmem hitem),
    fun item hitem ↦ hreadable.single item (hmem hitem)⟩

/-- An item that is read was there. -/
theorem State.Reads.mem {item : Item} (hread : s.Reads item after) : item ∈ s.rest := by
  obtain ⟨spaces, hspaces, _⟩ := (yields_skipSpaces s).reads
  rw [hspaces, hread.rest_eq]
  simp

/-- What is left after an item was there. -/
theorem State.Reads.readable {item : Item} (hread : s.Reads item after)
    (hreadable : Readable s) : Readable after := by
  have hmem {other : Item} (hother : other ∈ after.rest) : other ∈ s.rest := by
    obtain ⟨spaces, hspaces, _⟩ := (yields_skipSpaces s).reads
    rw [hspaces, hread.rest_eq]
    simp [hother]
  exact ⟨fun item hitem ↦ hreadable.spells item (hmem hitem),
    fun item hitem ↦ hreadable.single item (hmem hitem)⟩

/-! ### Terms -/

/-- A text has at least one part between its dots. -/
theorem splitDots_ne_nil (text : List Char) : splitDots text ≠ [] := by
  unfold splitDots
  split
  · simp
  · split
    · simp
    · split <;> simp

/-- Joining the parts of a text between its dots gives the text. -/
theorem intercalate_splitDots (text : List Char) :
    ".".intercalate (splitDots text) = String.ofList text := by
  induction text with
  | nil => rfl
  | cons c rest ih =>
    obtain ⟨first, others, hparts⟩ := List.exists_cons_of_ne_nil (splitDots_ne_nil rest)
    rw [hparts] at ih
    simp only [splitDots, hparts]
    split
    next hdot => rw [String.intercalate_cons_cons, ih, hdot, String.ofList_cons]; rfl
    next => rw [String.intercalate_cons_append, ih, String.ofList_cons]

/-- An item that is a term by itself is the leaf of the term. -/
theorem IsTerm.leaves {setting : Setting} {visible : List String} {item : Item} {found : Node}
    (hterm : IsTerm setting visible item found) (hspells : item.kind.Spells item.value.toList) :
    item.kind.isLeaf = true ∧ ∃ leaf, found.leaves = [leaf] ∧ leaf.Matches item := by
  obtain ⟨kind, position, value⟩ := item
  cases hterm with
  | identifier hkind =>
    cases hkind
    exact ⟨rfl, _, rfl, rfl⟩
  | dot hkind =>
    cases hkind
    exact ⟨rfl, _, rfl, congrArg (Item.mk _ position) (String.toList_inj.mp hspells)⟩
  | nil hkind =>
    cases hkind
    exact ⟨rfl, _, rfl, congrArg (Item.mk _ position) (String.toList_inj.mp hspells)⟩
  | variableName hkind =>
    cases hkind
    exact ⟨rfl, _, rfl, rfl⟩
  | field hkind =>
    cases hkind
    obtain ⟨name, hname⟩ := hspells
    refine ⟨rfl, _, rfl, rfl, ?_, by simp⟩
    change value = "." ++ ".".intercalate (splitDots (value.toList.drop 1))
    rw [intercalate_splitDots, ← String.toList_inj, hname]
    simp
  | bool hkind =>
    cases hkind
    refine ⟨rfl, _, rfl, congrArg (Item.mk _ position) ?_⟩
    rcases hspells with htrue | hfalse
    · have hvalue : value = "true" := String.toList_inj.mp htrue
      subst hvalue
      rfl
    · have hvalue : value = "false" := String.toList_inj.mp hfalse
      subst hvalue
      rfl
  | charConstant hkind hvalue =>
    cases hkind
    exact ⟨rfl, _, rfl, .inr rfl⟩
  | number hkind hvalue =>
    cases hkind
    obtain ⟨rfl, rfl⟩ := eq_of_ofText hvalue
    exact ⟨rfl, _, rfl, .inl rfl⟩
  | string hkind hvalue =>
    rcases hkind with hkind | hkind
    · cases hkind
      exact ⟨rfl, _, rfl, .inl rfl⟩
    · cases hkind
      exact ⟨rfl, _, rfl, .inr rfl⟩

/-- Fields are read in a row, and the name of each is its text without the dot. -/
theorem fieldsFrom_eq (line : Nat) (items : List Item) :
    ∃ read, items = read ++ (fieldsFrom line items).2.2 ∧
      (∀ item ∈ read, item.kind = .field) ∧ (fieldsFrom line items).1 = read.map fieldName := by
  induction items generalizing line with
  | nil => exact ⟨[], rfl, by simp, rfl⟩
  | cons item rest ih =>
    simp only [fieldsFrom]
    split
    next hkind =>
      obtain ⟨read, hread, hfields, hnames⟩ := ih item.position.line
      refine ⟨item :: read, ?_, ?_, ?_⟩
      · rw [List.cons_append, ← hread]
      · simpa [hkind] using hfields
      · rw [hnames, List.map_cons]
    next => exact ⟨[], rfl, by simp, rfl⟩

/-- A field is the leaf of its name. -/
theorem matches_field {item : Item} (hkind : item.kind = .field)
    (hspells : item.kind.Spells item.value.toList) {position : Option Position}
    (hposition : position.all (· = item.position)) :
    Leaf.Matches (.field position (fieldName item)) item := by
  rw [hkind] at hspells
  obtain ⟨name, hname⟩ := hspells
  refine ⟨hkind, ?_, hposition⟩
  rw [← String.toList_inj, fieldName, hname]
  simp

/-- Fields in a row are the leaves of their names. -/
theorem matches_fieldLeaves {items : List Item} (hkinds : ∀ item ∈ items, item.kind = .field)
    (hspells : ∀ item ∈ items, item.kind.Spells item.value.toList) :
    List.Forall₂ Leaf.Matches (fieldLeaves (items.map fieldName)) items := by
  induction items with
  | nil => exact .nil
  | cons item rest ih =>
    refine .cons (matches_field (hkinds item List.mem_cons_self)
      (hspells item List.mem_cons_self) rfl) (ih (fun other hother ↦ ?_) fun other hother ↦ ?_)
    · exact hkinds other (List.mem_cons_of_mem item hother)
    · exact hspells other (List.mem_cons_of_mem item hother)

/-- The fields after a term are leaves, the first of which stands where the next item does. -/
theorem fields_yields (hreadable : Readable s) :
    Yields s s.fields.state (fieldLeaves s.fields.value) ∧
      Yields s s.fields.state (chainLeaves s.peek.position s.fields.value) := by
  obtain ⟨read, hread, hfields, hnames⟩ := fieldsFrom_eq s.line s.rest
  have hmem {item : Item} (hitem : item ∈ read) : item ∈ s.rest := by
    rw [hread]
    exact List.mem_append_left _ hitem
  have hspells : ∀ item ∈ read, item.kind.Spells item.value.toList :=
    fun item hitem ↦ hreadable.spells item (hmem hitem)
  have hleaves : read.filter (·.kind.isLeaf) = read := by
    rw [List.filter_eq_self]
    intro item hitem
    simp [hfields item hitem, ItemKind.isLeaf]
  change Yields s s.fields.state (fieldLeaves (fieldsFrom s.line s.rest).1) ∧
    Yields s s.fields.state (chainLeaves s.peek.position (fieldsFrom s.line s.rest).1)
  rw [hnames]
  refine ⟨⟨⟨read, hread, ?_⟩, rfl⟩, ⟨⟨read, hread, ?_⟩, rfl⟩⟩
  · rw [hleaves]
    exact matches_fieldLeaves hfields hspells
  · rw [hleaves]
    cases read with
    | nil => exact .nil
    | cons item rest =>
      have hpeek : s.peek = item := by
        rw [State.peek, hread]
        rfl
      refine .cons (matches_field (hfields item List.mem_cons_self)
        (hspells item List.mem_cons_self) (by simp [hpeek])) (matches_fieldLeaves ?_ ?_)
      · exact fun other hother ↦ hfields other (List.mem_cons_of_mem item hother)
      · exact fun other hother ↦ hspells other (List.mem_cons_of_mem item hother)

/-- A term and the fields taken of it are leaves. -/
theorem Chained.yields {base found : Node} (hchained : Chained base s found after)
    (hreadable : Readable s) (hpath : ∀ reference, base = .var reference → reference.path ≠ []) :
    ∃ leaves, found.leaves = base.leaves ++ leaves ∧ Yields s after leaves := by
  cases hchained with
  | alone => exact ⟨[], by simp, .refl s⟩
  | fields =>
    obtain ⟨hfields, hchain⟩ := fields_yields hreadable
    cases base with
    | var reference =>
      obtain ⟨name, names, hnames⟩ := List.exists_cons_of_ne_nil (hpath reference rfl)
      refine ⟨_, ?_, hfields⟩
      simp [takeFields, Node.leaves, Variable.leaves, fieldLeaves, hnames]
    | _ => exact ⟨_, rfl, hchain⟩

/-- The variables of a declaration are leaves. -/
theorem Declares.yields {more : Nat} {declared : Declarations}
    (hdeclares : Declares more s declared after) :
    Yields s after (declared.targets.flatMap Variable.leaves) := by
  have hitem {s afterName : State} {item : Item} (hname : s.Reads item afterName)
      (hvariable : item.kind = .variable) : Yields s afterName (targetOf item).leaves := by
    obtain ⟨kind, position, value⟩ := item
    cases hvariable
    exact hname.yields rfl rfl
  induction hdeclares with
  | @none _ s => exact yields_skipSpaces s
  | @last _ s afterName afterSign item sign hname hvariable hsign hkind =>
    have hleaf : sign.kind.isLeaf = false := by
      simp only [isDeclaring, Bool.or_eq_true, decide_eq_true_eq] at hkind
      rcases hkind with hkind | hkind <;> rw [hkind] <;> rfl
    have hyields := (hitem hname hvariable).andThen (hsign.yields_nil hleaf)
    rw [List.flatMap_singleton]
    exact ⟨hyields.reads, hyields.trees_eq⟩
  | @more _ s afterName afterSign after item sign others hname hvariable hsign hseparator _ _ ih =>
    have hleaf : sign.kind.isLeaf = false := by
      simp only [isSeparator, Bool.and_eq_true, decide_eq_true_eq] at hseparator
      rw [hseparator.1]
      rfl
    have hyields := (hitem hname hvariable).andThen (hsign.yields_nil hleaf)
    rw [List.flatMap_cons]
    exact hyields.trans ⟨ih.reads, ih.trees_eq⟩

/-! ### Phrases -/

/-- The leaves of a phrase. -/
def Phrase.leaves : Phrase → List Leaf
  | pipeline _ _ found => found.leaves
  | commands _ found => Command.allLeaves found
  | command found => found.leaves
  | operands found => Node.allLeaves found
  | operand found => found.leaves

/-- That the item which closes a phrase, if there is one, carries no content. -/
def Phrase.Closed : Phrase → Prop
  | pipeline _ closer _ | commands closer _ => closer.isLeaf = false
  | _ => True

/-- The leaves of a phrase are those of its items. -/
theorem DerivesPhrase.yields {setting : Setting} {phrase : Phrase}
    (hderives : DerivesPhrase setting phrase s after) (hclosed : phrase.Closed)
    (hreadable : Readable s) : Yields s after phrase.leaves := by
  induction hderives with
  | pipeline hdeclares _ _ _ ih =>
    have hdeclared := hdeclares.yields
    exact hdeclared.trans (ih hclosed (hdeclared.readable hreadable))
  | commandsEnd hread hcloser => exact hread.yields_nil (hcloser ▸ hclosed)
  | commandsMore _ _ _ _ _ ihFirst ihOthers =>
    have hfirst := ihFirst trivial hreadable
    exact hfirst.trans (ihOthers hclosed (hfirst.readable hreadable))
  | command _ _ ih => exact ih trivial hreadable
  | @operandsEnd s _ _ hend => exact (yields_skipSpaces s).before hend.yields
  | @operandsMore s afterFirst _ _ _ _ hspace _ ihFirst ihOthers =>
    have hskip := yields_skipSpaces s
    have hfirst := hskip.before (ihFirst trivial (hskip.readable hreadable))
    have hnext := hfirst.andThen (yields_advance (by rw [hspace]; rfl))
    exact hnext.trans (ihOthers trivial (hnext.readable hreadable))
  | @operandsLast s _ _ first _ _ hend ih =>
    have hskip := yields_skipSpaces s
    have hfirst := hskip.before (ih trivial (hskip.readable hreadable))
    change Yields _ _ (first.leaves ++ [])
    rw [List.append_nil]
    exact hfirst.andThen hend.yields
  | @parenthesized s afterItem afterInner after item inner found hread hkind _ _ hchained ih =>
    have hopen := hread.yields_nil (by rw [hkind]; rfl)
    have hinner := ih rfl ⟨(hread.readable hreadable).spells, (hread.readable hreadable).single⟩
    have hyields : Yields s afterInner.leave inner.leaves :=
      hopen.before ⟨hinner.reads, hinner.trees_eq⟩
    obtain ⟨leaves, hleaves, hfields⟩ :=
      hchained.yields (hyields.readable hreadable) (fun _ heq ↦ by cases heq)
    change Yields s after found.leaves
    rw [hleaves]
    exact hyields.trans hfields
  | @term s afterItem after item base found hread hterm hchained =>
    obtain ⟨hleaf, leaf, hbase, hmatches⟩ := hterm.leaves (hreadable.spells item hread.mem)
    obtain ⟨leaves, hleaves, hfields⟩ :=
      hchained.yields (hread.readable hreadable) hterm.path_ne_nil
    change Yields s after found.leaves
    rw [hleaves, hbase]
    exact (hread.yields hleaf hmatches).trans hfields

/-! ### Passages -/

/-- The leaves of a statement. -/
def Statement.leaves : Statement → List Leaf
  | node found => found.leaves
  | ending _ => []

/-- The leaves of a passage. -/
def Passage.leaves : Passage → List Leaf
  | body found _ | branchBody _ found _ | nestedBody found => found.leaves
  | statements found _ => Node.allLeaves found
  | statement found | action found => found.leaves
  | control _ found | block found => found.leaves

/-- The name of a template that is invoked is a leaf. -/
theorem NamesTemplate.yields {name : String} {position : Position}
    (hname : NamesTemplate s name position after) : Yields s after [.template position name] := by
  cases hname with
  | name hread hkind hvalue =>
    refine hread.yields ?_ ⟨hkind, rfl, hvalue⟩
    rcases hkind with hkind | hkind <;> rw [hkind] <;> rfl

/-- The delimiter that closes an action is no leaf. -/
theorem State.ReadsKind.yields {kind : ItemKind} (hread : s.ReadsKind kind after)
    (hleaf : kind.isLeaf = false) : Yields s after [] := by
  obtain ⟨item, hread, rfl⟩ := hread
  exact hread.yields_nil hleaf

/-- The leaves of a passage are those of its items, but for a block, whose body is a tree of its
own. -/
theorem DerivesPassage.yields {setting : Setting} {passage : Passage}
    (hderives : DerivesPassage setting passage s after) (hblock : ∀ found, passage ≠ .block found)
    (hreadable : Readable s) : Yields s after passage.leaves := by
  induction hderives with
  | body _ _ ih =>
    have hfound := ih (by simp) ⟨hreadable.spells, hreadable.single⟩
    exact ⟨hfound.reads, hfound.trees_eq⟩
  | statementsEnd _ _ ih => exact ih (by simp) hreadable
  | statementsMore _ _ _ ihFirst ihOthers =>
    have hfirst := ihFirst (by simp) hreadable
    exact hfirst.trans (ihOthers (by simp) (hfirst.readable hreadable))
  | @text _ _ item hread hkind =>
    obtain ⟨kind, position, value⟩ := item
    cases hkind
    exact hread.yields rfl rfl
  | @comment _ _ item hread hkind =>
    obtain ⟨kind, position, value⟩ := item
    cases hkind
    exact hread.yields rfl rfl
  | delimited hread hkind _ ih =>
    have hopen := hread.yields_nil (by rw [hkind]; rfl)
    have hinside := hopen.readable hreadable
    have hfound := ih (by simp) ⟨hinside.spells, hinside.single⟩
    exact hopen.before ⟨hfound.reads, hfound.trees_eq⟩
  | blockAction hread hkind => exact absurd hkind (hreadable.single _ hread.mem).2
  | breakAction hread hkind hclose =>
    exact (hread.yields_nil (by rw [hkind]; rfl)).before (hclose.yields rfl)
  | continueAction hread hkind hclose =>
    exact (hread.yields_nil (by rw [hkind]; rfl)).before (hclose.yields rfl)
  | @elseWord _ afterItem _ hread hkind =>
    exact (hread.yields_nil (by rw [hkind]; rfl)).before (yields_skipSpaces afterItem)
  | elseAction hread hkind hclose hcloser =>
    exact (hread.yields_nil (by rw [hkind]; rfl)).before
      (hclose.yields_nil (by rw [hcloser]; rfl))
  | endAction hread hkind hclose =>
    exact (hread.yields_nil (by rw [hkind]; rfl)).before (hclose.yields rfl)
  | @branchAction _ _ _ _ kind _ hread hkind _ ih =>
    have hword := hread.yields_nil (by rw [hkind]; cases kind <;> rfl)
    exact hword.before (ih (by simp) (hword.readable hreadable))
  | templateBare hread hkind hname hclose =>
    have hword := hread.yields_nil (by rw [hkind]; rfl)
    exact (hword.before hname.yields).andThen (hclose.yields rfl)
  | templateWith hread hkind hname _ _ hargument =>
    have hword := hread.yields_nil (by rw [hkind]; rfl)
    have hnamed := hword.before hname.yields
    exact hnamed.trans (hargument.yields rfl (hnamed.readable hreadable))
  | pipelineAction _ _ hfound => exact hfound.yields rfl hreadable
  | branchBody _ ih =>
    have hfound := ih (by simp) ⟨hreadable.spells, hreadable.single⟩
    exact ⟨hfound.reads, hfound.trees_eq⟩
  | nestedBody _ ih =>
    have hfound := ih (by simp) ⟨hreadable.spells, hreadable.single⟩
    exact ⟨hfound.reads, hfound.trees_eq⟩
  | @controlOnly _ s _ after head first hhead _ ih =>
    have hhead := hhead.yields rfl hreadable
    have hfirst := hhead.trans (ih (by simp) (hhead.readable hreadable))
    change Yields s _ (head.leaves ++ first.leaves ++ [])
    rw [List.append_nil]
    exact ⟨hfirst.reads, hfirst.trees_eq⟩
  | @controlContinued kind s _ afterFirst _ head first _ word inner hhead _ hword hpeek _ ihFirst
      ihInner =>
    have hleaf : (ItemKind.keyword word).isLeaf = false := by cases kind <;> cases hword <;> rfl
    have hhead := hhead.yields rfl hreadable
    have hfirst := hhead.trans (ihFirst (by simp) (hhead.readable hreadable))
    have hword := hfirst.andThen (yields_advance (hpeek ▸ hleaf))
    have hinner := hword.trans (ihInner (by simp) (hword.readable hreadable))
    change Yields s _ (head.leaves ++ first.leaves ++ (inner.leaves ++ []))
    rw [List.append_nil]
    exact ⟨hinner.reads, hinner.trees_eq⟩
  | controlOtherwise hhead _ _ _ ihFirst ihSecond =>
    have hhead := hhead.yields rfl hreadable
    have hfirst := hhead.trans (ihFirst (by simp) (hhead.readable hreadable))
    have hsecond := hfirst.trans (ihSecond (by simp) (hfirst.readable hreadable))
    exact ⟨hsecond.reads, hsecond.trees_eq⟩
  | block => exact absurd rfl (hblock _)

/-! ### Sources -/

/-- The leaves of a source are those of its items up to where its end is found. -/
theorem DerivesRoot.yields {setting : Setting} {found : List Node}
    (hderives : DerivesRoot setting found s after) (hreadable : Readable s) :
    Yields s after (Node.allLeaves found) ∧ after.peek.kind = .eof := by
  induction hderives with
  | finished hpeek => exact ⟨.refl _, hpeek⟩
  | @definition s _ _ _ _ hopens =>
    obtain ⟨word, hread, hword⟩ := hopens.word
    have hadvance : Yields s s.advance [] := yields_advance (by rw [hopens.delimited]; rfl)
    exact absurd hword ((hadvance.readable hreadable).single _ hread.mem).1
  | statement _ _ hfirst _ ih =>
    have hfirst := hfirst.yields (by simp) hreadable
    obtain ⟨hothers, hend⟩ := ih (hfirst.readable hreadable)
    exact ⟨hfirst.trans hothers, hend⟩

end Yields

end Parse

/-- Where the end of a source is the next item, it is the only one that is left, if any is. -/
theorem eq_nil_or_end_of_suffix {delimiters : Delimiters} {source : String}
    {read rest : List Item} (hlex : lex delimiters source = read ++ rest)
    (hend : (rest.headD Parse.State.exhausted).kind = .eof) :
    rest = [] ∨ ∃ last, rest = [last] ∧ last.kind = .eof := by
  obtain ⟨items, last, heq, _, _, hitems⟩ := lex_eq_append delimiters source
  cases rest with
  | nil => exact .inl rfl
  | cons item rest =>
    change item.kind = .eof at hend
    rcases List.eq_nil_or_concat rest with rfl | ⟨init, final, rfl⟩
    · exact .inr ⟨item, rfl, hend⟩
    · have hsplit : items ++ [last] = (read ++ item :: init) ++ [final] := by
        rw [← heq, hlex]
        simp
      have hmem : item ∈ items := by
        rw [(List.append_inj' hsplit rfl).1]
        simp
      exact absurd hend (hitems item hmem).1

/-- Nothing that carries content follows the end of a source. -/
theorem filter_eq_nil_of_suffix {delimiters : Delimiters} {source : String} {read rest : List Item}
    (hlex : lex delimiters source = read ++ rest)
    (hend : (rest.headD Parse.State.exhausted).kind = .eof) :
    rest.filter (·.kind.isLeaf) = [] := by
  rcases eq_nil_or_end_of_suffix hlex hend with rfl | ⟨last, rfl, hkind⟩
  · rfl
  · rw [List.filter_cons_of_neg (by simp [hkind, ItemKind.isLeaf])]
    rfl

/-- The parser keeps every item that carries content: the leaves of the tree of a source that
defines no other template are the leaves among its items, in their order.
Assumes: the parser accepts the source, and no item of it is the word for a definition or a
block. -/
theorem parse_leaves {name source : String} {delimiters : Delimiters}
    {isFunction : String → Bool} {set : TreeSet}
    (hparse : parse name delimiters isFunction source = .ok set)
    (hsingle : ∀ item ∈ lex delimiters source,
      item.kind ≠ .keyword .defineWord ∧ item.kind ≠ .keyword .blockWord) :
    ∃ root, set.trees = [⟨name, name, root⟩] ∧
      List.Forall₂ Leaf.Matches root.leaves
        ((lex delimiters source).filter (·.kind.isLeaf)) := by
  obtain ⟨nodes, after, hderives, hdefine⟩ := parse_eq_ok_iff.mp hparse
  have hspells : ∀ item ∈ lex delimiters source, item.kind.Spells item.value.toList := by
    obtain ⟨items, last, heq, _, hlast, hitems⟩ := lex_eq_append delimiters source
    intro item hitem
    rw [heq] at hitem
    rcases List.mem_append.mp hitem with hitem | hitem
    · exact (hitems item hitem).2.2
    · rw [List.mem_singleton.mp hitem]
      exact hlast
  obtain ⟨hyields, hend⟩ := hderives.yields ⟨hspells, hsingle⟩
  obtain ⟨read, hread, hmatches⟩ := hyields.reads
  rw [Parse.define_of_empty hyields.trees_eq] at hdefine
  refine ⟨_, (congrArg TreeSet.trees (Except.ok.inj hdefine)).symm, ?_⟩
  change lex delimiters source = read ++ after.rest at hread
  rw [hread, List.filter_append, filter_eq_nil_of_suffix hread hend, List.append_nil]
  exact hmatches

/-- The source of a text and a variable with two fields is parsed without loss. -/
theorem parse_leaves_variable :
    ∃ set root,
      parse "page" Delimiters.braces (fun _ ↦ false) "at \x7b\x7b$.A.B\x7d\x7d" = .ok set ∧
      set.trees = [⟨"page", "page", root⟩] ∧
      List.Forall₂ Leaf.Matches root.leaves
        ((lex Delimiters.braces "at \x7b\x7b$.A.B\x7d\x7d").filter (·.kind.isLeaf)) := by
  have hparse : parse "page" Delimiters.braces (fun _ ↦ false) "at \x7b\x7b$.A.B\x7d\x7d" =
      .ok ⟨[⟨"page", "page", ⟨⟨0, 1⟩, [.text ⟨0, 1⟩ "at ", .action ⟨5, 1⟩ ⟨⟨5, 1⟩, false, [],
        [⟨⟨5, 1⟩, [.var ⟨⟨5, 1⟩, ["$", "A", "B"]⟩]⟩]⟩]⟩⟩]⟩ := by
    cbv
  have hlex : lex Delimiters.braces "at \x7b\x7b$.A.B\x7d\x7d" =
      [⟨.text, ⟨0, 1⟩, "at "⟩, ⟨.leftDelim, ⟨3, 1⟩, Delimiters.defaultLeft⟩,
        ⟨.variable, ⟨5, 1⟩, "$"⟩, ⟨.field, ⟨6, 1⟩, ".A"⟩, ⟨.field, ⟨8, 1⟩, ".B"⟩,
        ⟨.rightDelim, ⟨10, 1⟩, Delimiters.defaultRight⟩, ⟨.eof, ⟨12, 1⟩, ""⟩] := by
    cbv
  obtain ⟨root, htrees, hleaves⟩ := parse_leaves hparse (by rw [hlex]; simp)
  exact ⟨_, root, hparse, htrees, hleaves⟩

end Stencil.Syntax
