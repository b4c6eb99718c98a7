import Stencil.Proofs.Grammar.Context
import Stencil.Proofs.Grammar.Offsets
import Stencil.Proofs.Reparsing.Facing
import Stencil.Proofs.Reparsing.Legible
import Stencil.Proofs.Reparsing.Shape

/-!
# Operands that are read again

What a source is parsed to is read again from its canonical text. For an operand this says that the
parser reads it, up to positions, wherever a parse faces its text with the same variables visible,
with room for its nesting, and in front of where an operand may end (`RereadsOperand`). An operand
is a term with fields taken of it: the term has to be read again in front of a field too
(`RereadsTerm`), and the fields are then those of the text (`RereadsTerm.operand`).

Everything is told of the operand alone, apart from the parse that it comes from. The first parse is
only asked for what the lexer says of its items (`State.Lexed`).
-/

set_option autoImplicit false
set_option relaxedAutoImplicit false

namespace Stencil.Syntax.Parse

open Delimiters

/-! ### The first parse -/

/-- That the items left to a parse are items of a source between double braces. -/
structure State.Lexed (s : State) : Prop where
  legible : ∀ item ∈ s.rest, item.Legible braces
  apart : s.rest.IsChain Item.Apart

/-- That a parse goes on between two states, inside as many loops as before. -/
structure State.Leads (s after : State) : Prop where
  suffix : after.rest <:+ s.rest
  loopDepth_eq : after.loopDepth = s.loopDepth

section Leads

variable {s middle after : State}

theorem State.Leads.refl (s : State) : s.Leads s := ⟨List.suffix_rfl, rfl⟩

theorem State.Leads.trans (hfirst : s.Leads middle) (hsecond : middle.Leads after) :
    s.Leads after :=
  ⟨hsecond.suffix.trans hfirst.suffix, hsecond.loopDepth_eq.trans hfirst.loopDepth_eq⟩

/-- A parse goes on where nothing of its items or its loops is changed. -/
theorem State.leads_of_eq (hrest : after.rest = s.rest) (hloop : after.loopDepth = s.loopDepth) :
    s.Leads after :=
  ⟨hrest ▸ List.suffix_rfl, hloop⟩

/-- What is left of the items of a source is items of a source. -/
theorem State.Leads.lexed (hleads : s.Leads after) (hlexed : s.Lexed) : after.Lexed :=
  ⟨fun item hitem ↦ hlexed.legible item (hleads.suffix.subset hitem),
    hlexed.apart.suffix hleads.suffix⟩

theorem State.leads_skipSpaces (s : State) : s.Leads s.skipSpaces := by
  refine ⟨?_, rfl⟩
  change (State.skipFrom s.line s.rest).2 <:+ s.rest
  generalize s.line = line
  induction s.rest generalizing line with
  | nil => exact List.suffix_rfl
  | cons item rest ih =>
    rw [State.skipFrom]
    split
    next => exact (ih item.position.line).trans (List.suffix_cons item rest)
    next => exact List.suffix_rfl

theorem State.Reads.leads {item : Item} (hread : s.Reads item after) : s.Leads after := by
  refine ⟨?_, by rw [hread.state_eq]⟩
  have hsuffix := s.leads_skipSpaces.suffix
  rw [hread.rest_eq] at hsuffix
  exact (List.suffix_cons item after.rest).trans hsuffix

theorem State.leads_advance (s : State) : s.Leads s.advance := by
  unfold State.advance
  split
  next => exact .refl s
  next item rest hrest => exact ⟨hrest ▸ List.suffix_cons item rest, rfl⟩

theorem EndsCommand.leads (hend : EndsCommand s after) : s.Leads after := by
  cases hend with
  | closer => exact .refl s
  | bar => exact s.leads_advance

theorem Chained.leads {base found : Node} (hchained : Chained base s found after) :
    s.Leads after := by
  cases hchained with
  | alone => exact .refl s
  | fields =>
    obtain ⟨items, hitems, _⟩ := fieldsFrom_eq s.line s.rest
    exact ⟨⟨items, hitems.symm⟩, rfl⟩

theorem Declares.leads {more : Nat} {declared : Declarations}
    (hdeclares : Declares more s declared after) : s.Leads after := by
  induction hdeclares with
  | @none _ s => exact s.leads_skipSpaces
  | last hname _ hsign =>
    exact (hname.leads.trans hsign.leads).trans (State.leads_of_eq rfl rfl)
  | more hname _ hsign _ _ _ ih =>
    refine State.Leads.trans ?_ ih
    exact (hname.leads.trans hsign.leads).trans (State.leads_of_eq rfl rfl)

/-- An item that is read is legible. -/
theorem State.Reads.legible {item : Item} (hread : s.Reads item after) (hlexed : s.Lexed) :
    item.Legible braces :=
  hlexed.legible item hread.mem

end Leads

/-! ### Terms that are single items -/

/-- Where a term may end: in front of a field only if fields can be taken of it. -/
def EndsTerm (base : Node) (text : List Char) : Prop :=
  if hasFields base then EndsName text else EndsOperand text

section Terms

variable {setting : Setting} {visible : List String} {item : Item} {found : Node}

/-- The item of a term stands alone where the term may end. -/
theorem IsTerm.standalone (hterm : IsTerm setting visible item found)
    (hlegible : item.Legible braces) :
    Standalone item.kind (EndsTerm found) item.value.toList := by
  cases hterm with
  | identifier hkind | variableName hkind | field hkind =>
    exact hlegible.standalone_name (hkind ▸ rfl)
  | dot hkind | nil hkind | bool hkind =>
    exact (hlegible.standalone_name (hkind ▸ rfl)).mono fun _ hends ↦ .operand hends
  | charConstant hkind =>
    exact (hlegible.standalone_quoted (hkind ▸ rfl)).mono fun _ _ ↦ trivial
  | string hkind =>
    have hquoted : item.kind.isQuoted = true := by
      rcases hkind with hkind | hkind <;> rw [hkind] <;> rfl
    exact (hlegible.standalone_quoted hquoted).mono fun _ _ ↦ trivial
  | number hkind hvalue => exact hlegible.standalone_number hkind hvalue

theorem pathText_nil : pathText [] = "" := rfl

theorem pathText_cons (name : String) (names : List String) :
    pathText (name :: names) = "." ++ name ++ pathText names := by
  simp [pathText, String.join_cons]

/-- Names between dots are a name and the fields after it. -/
theorem intercalate_cons (name : String) (names : List String) :
    ".".intercalate (name :: names) = name ++ pathText names := by
  induction names generalizing name with
  | nil => simp [pathText_nil]
  | cons second names ih =>
    rw [String.intercalate_cons_cons, ih, pathText_cons, String.append_assoc, String.append_assoc]

/-- The text of a term is that of its item. -/
theorem IsTerm.write_eq (hterm : IsTerm setting visible item found)
    (hlegible : item.Legible braces) : found.write true = item.value := by
  cases hterm with
  | identifier => rfl
  | dot hkind =>
    have hspells := hlegible.spells (hkind ▸ rfl)
    rw [hkind] at hspells
    exact (String.toList_inj.mp hspells).symm
  | nil hkind =>
    have hspells := hlegible.spells (hkind ▸ rfl)
    rw [hkind] at hspells
    exact (String.toList_inj.mp hspells).symm
  | variableName => rfl
  | field hkind =>
    obtain ⟨name, hname⟩ : ∃ name, item.value.toList = '.' :: name := by
      have hspells := hlegible.spells (hkind ▸ rfl)
      rwa [hkind] at hspells
    obtain ⟨first, others, hparts⟩ := List.exists_cons_of_ne_nil (splitDots_ne_nil name)
    have hjoin := intercalate_splitDots name
    rw [hparts, intercalate_cons] at hjoin
    rw [Node.write, hname, List.drop_one, List.tail_cons, hparts, pathText_cons,
      String.append_assoc, hjoin, ← String.toList_inj, hname]
    simp
  | bool hkind =>
    have hspells := hlegible.spells (hkind ▸ rfl)
    rw [hkind] at hspells
    rcases hspells with htrue | hfalse
    · rw [String.toList_inj.mp htrue]
      rfl
    · rw [String.toList_inj.mp hfalse]
      rfl
  | charConstant => rfl
  | number _ hvalue => exact (eq_of_ofText hvalue).2
  | string => rfl

end Terms

/-! ### Operands -/

/-- That a term is read again from its text as far as the fields taken of it, wherever `before` are
visible; it leaves `after` visible. -/
structure RereadsTerm (setting : Setting) (before : List String) (base : Node)
    (after : List String) : Prop where
  solid : Solid (base.write true).toList
  derives : ∀ {s : State} {depth : Nat} {more : List Char}, s.visible = before →
    s.depth + base.nesting ≤ maxDepth → EndsTerm base more →
    s.Faces (.inside depth) ((base.write true).toList ++ more) →
    ∃ again middle, again.unplaced = base.unplaced ∧
      s.Reaches middle after (.inside depth) more ∧
      ∀ {found last}, Chained again middle found last →
        DerivesPhrase setting (.operand found) s last

/-- That an operand is read again from its text wherever `before` are visible; it leaves `after`
visible. -/
structure RereadsOperand (setting : Setting) (before : List String) (operand : Node)
    (after : List String) : Prop where
  solid : Solid (operand.write true).toList
  derives : ∀ {s : State} {depth : Nat} {more : List Char}, s.visible = before →
    s.depth + operand.nesting ≤ maxDepth → EndsOperand more →
    s.Faces (.inside depth) ((operand.write true).toList ++ more) →
    ∃ again last, DerivesPhrase setting (.operand again) s last ∧
      again.unplaced = operand.unplaced ∧ s.Reaches last after (.inside depth) more

/-! ### Fields -/

section Fields

variable {setting : Setting} {s : State} {depth : Nat} {base found : Node} {names : List String}
  {text more : List Char}

/-- That a node is a term by itself or with fields taken of it that stand alone. -/
inductive Extends (base : Node) : Node → Prop
  | alone : Extends base base
  | fields {position : Position} {names : List String} (hfields : hasFields base = true)
    (hne : names ≠ [])
    (hnames : ∀ name ∈ names, Standalone .field EndsName ('.' :: name.toList)) :
    Extends base (takeFields base position names)

/-- The fields of a source stand alone. -/
theorem Chained.extends {after : State} (hchained : Chained base s found after)
    (hlexed : s.Lexed) : Extends base found := by
  cases hchained with
  | alone => exact .alone
  | fields hkind hfields =>
    obtain ⟨read, hread, hkinds, hvalue⟩ := fieldsFrom_eq s.line s.rest
    change s.fields.value = read.map fieldName at hvalue
    refine .fields hfields ?_ fun name hname ↦ ?_
    · exact fields_ne_nil_iff.mpr hkind
    · rw [hvalue] at hname
      obtain ⟨item, hitem, rfl⟩ := List.mem_map.mp hname
      have hfield := hkinds item hitem
      have hlegible := hlexed.legible item (hread ▸ List.mem_append_left _ hitem)
      have hstands := hlegible.standalone_name (hfield ▸ rfl)
      have hspells := hlegible.spells (hfield ▸ rfl)
      rw [hfield] at hstands hspells
      obtain ⟨name, hchars⟩ := hspells
      simpa [fieldName, hchars] using hstands

/-- Where an operand may end no field follows. -/
theorem kind_ne_field_of_endsOperand (hends : EndsOperand text) (position : Position) :
    ∀ item ∈ (lexFrom braces (.inside depth) position text).head?, item.kind ≠ .field := by
  intro item hitem
  cases hends with
  | blank hsolid =>
    obtain ⟨start, behind, hlex⟩ := hsolid.emits_space depth position
    rw [hlex] at hitem
    cases hitem
    simp
  | @paren rest =>
    have hclosing : closing? braces (')' :: rest) = none :=
      (standalone_rightParen.solid.append rest).closing?_eq
    change item ∈ (lexAction braces depth position (')' :: rest)).head? at hitem
    rw [lexAction, hclosing, lexeme_eq_ok_iff.mpr .rightParen] at hitem
    cases hitem
    simp
  | @delimiter rest =>
    change item ∈ (lexAction braces depth position ('\x7d' :: '\x7d' :: rest)).head? at hitem
    rw [lexAction, (closes_braces rest).closing] at hitem
    simp only at hitem
    split at hitem <;> cases hitem <;> simp

/-- The item before a parse is no field where an operand may end. -/
theorem State.Before.peek_ne_field (hbefore : s.Before (.inside depth) text)
    (hends : EndsOperand text) : s.peek.kind ≠ .field := by
  obtain ⟨position, hrest⟩ := hbefore
  have hkind : ∀ item ∈ (lexFrom braces (.inside depth) position text).head?, item.kind ≠ .field :=
    kind_ne_field_of_endsOperand hends position
  rw [← hrest] at hkind
  unfold State.peek
  cases hitems : s.rest with
  | nil => simp [State.exhausted]
  | cons item rest => exact hkind item (by rw [hitems]; rfl)

/-- Fields in a text are read in a row up to where an operand may end. -/
theorem fieldsFrom_before (hnames : ∀ name ∈ names, Standalone .field EndsName ('.' :: name.toList))
    (hmore : EndsOperand more) (line : Nat) (position : Position) :
    ∃ last behind,
      fieldsFrom line (lexFrom braces (.inside depth) position ((pathText names).toList ++ more)) =
        (names, last, lexFrom braces (.inside depth) behind more) := by
  induction names generalizing line position with
  | nil =>
    refine ⟨line, position, ?_⟩
    have hkind :
        ∀ item ∈ (lexFrom braces (.inside depth) position more).head?, item.kind ≠ .field :=
      kind_ne_field_of_endsOperand hmore position
    rw [pathText_nil]
    cases hitems : lexFrom braces (.inside depth) position more with
    | nil => simp [hitems, fieldsFrom]
    | cons item rest =>
      rw [hitems] at hkind
      simp [hitems, fieldsFrom, hkind item rfl]
  | cons name names ih =>
    have hends : EndsName ((pathText names).toList ++ more) := by
      cases names with
      | nil => exact .operand (by simpa [pathText_nil] using hmore)
      | cons second names =>
        rw [pathText_cons]
        simpa using EndsName.field
    have hdepth : nextDepth depth .field = some depth := rfl
    obtain ⟨start, behind, hlex⟩ := (hnames name List.mem_cons_self).emits hends hdepth position
    obtain ⟨last, final, hrest⟩ :=
      ih (fun other hother ↦ hnames other (List.mem_cons_of_mem name hother)) start.line behind
    refine ⟨last, final, ?_⟩
    have htext : (pathText (name :: names)).toList ++ more =
        ('.' :: name.toList) ++ ((pathText names).toList ++ more) := by
      rw [pathText_cons]
      simp
    rw [htext, hlex]
    simp [fieldsFrom, hrest, fieldName]

/-- The fields in the text before a parse are those that it reads. -/
theorem State.Before.fields (hbefore : s.Before (.inside depth) ((pathText names).toList ++ more))
    (hnames : ∀ name ∈ names, Standalone .field EndsName ('.' :: name.toList))
    (hmore : EndsOperand more) :
    s.fields.value = names ∧ s.Reaches s.fields.state s.visible (.inside depth) more := by
  obtain ⟨position, hrest⟩ := hbefore
  obtain ⟨last, behind, hfields⟩ := fieldsFrom_before hnames hmore s.line position
  rw [← hrest] at hfields
  refine ⟨by simp [State.fields, hfields], ⟨behind, ?_⟩, rfl, rfl, rfl, rfl⟩
  simp [State.fields, hfields]

/-! ### Terms with fields -/

theorem nesting_takeFields (base : Node) (position : Position) (names : List String) :
    (takeFields base position names).nesting = base.nesting := by
  cases base <;> rfl

/-- The fields taken of a term are written behind it. -/
theorem write_takeFields (position : Position) (names : List String)
    (hpath : ∀ reference, base = .var reference → reference.path ≠ []) :
    (takeFields base position names).write true = base.write true ++ pathText names := by
  cases base with
  | var reference =>
    obtain ⟨name, others, hpath⟩ := List.exists_cons_of_ne_nil (hpath reference rfl)
    simp only [takeFields, Node.write, Variable.canonical, hpath, List.cons_append,
      intercalate_cons]
    simp [pathText, String.append_assoc]
  | _ => rfl

/-- A term may end where an operand may. -/
theorem EndsTerm.of_operand (hends : EndsOperand text) : EndsTerm base text := by
  unfold EndsTerm
  split
  next => exact .operand hends
  next => exact hends

/-- A term that is read again is read again with the fields taken of it. -/
theorem RereadsTerm.operand {before after : List String}
    (hterm : RereadsTerm setting before base after) (hextends : Extends base found)
    (hpath : ∀ reference, base = .var reference → reference.path ≠ []) :
    RereadsOperand setting before found after := by
  cases hextends with
  | alone =>
    refine ⟨hterm.solid, fun {s depth more} hvisible hdepth hmore hfaces ↦ ?_⟩
    obtain ⟨again, middle, hagain, hreaches, hderives⟩ :=
      hterm.derives hvisible hdepth (.of_operand hmore) hfaces
    have hpeek := hreaches.before.peek_ne_field hmore
    exact ⟨again, middle, hderives (.alone hpeek), hagain, hreaches⟩
  | @fields position names hfields hne hnames =>
    have hwrite := write_takeFields position names hpath
    refine ⟨by rw [hwrite, String.toList_append]; exact hterm.solid.append _,
      fun {s depth more} hvisible hdepth hmore hfaces ↦ ?_⟩
    rw [nesting_takeFields] at hdepth
    rw [hwrite, String.toList_append, List.append_assoc] at hfaces
    obtain ⟨name, others, rfl⟩ := List.exists_cons_of_ne_nil hne
    have hends : EndsTerm base ((pathText (name :: others)).toList ++ more) := by
      rw [EndsTerm, if_pos hfields, pathText_cons]
      simpa using EndsName.field
    obtain ⟨again, middle, hagain, hreaches, hderives⟩ :=
      hterm.derives hvisible hdepth hends hfaces
    obtain ⟨hvalue, hlast⟩ := hreaches.before.fields hnames hmore
    have hagainFields : hasFields again = true := by
      rw [← hasFields_unplaced, hagain, hasFields_unplaced]
      exact hfields
    have hpeek : middle.peek.kind = .field := by
      rw [← fields_ne_nil_iff, hvalue]
      exact hne
    refine ⟨_, _, hderives (.fields hpeek hagainFields), ?_, ?_⟩
    · rw [takeFields_unplaced, takeFields_unplaced, hagain, hvalue]
    · rw [hreaches.visible_eq] at hlast
      exact hreaches.trans hlast

end Fields

/-- A single item that is a term is read again. -/
theorem IsTerm.rereads {setting : Setting} {visible : List String} {item : Item} {found : Node}
    (hterm : IsTerm setting visible item found) (hlegible : item.Legible braces) :
    RereadsTerm setting visible found visible := by
  have hstands := hterm.standalone hlegible
  have hwrite := hterm.write_eq hlegible
  have hinside (depth : Nat) : nextDepth depth item.kind = some depth := by
    cases hterm with
    | string hkind => rcases hkind with hkind | hkind <;> rw [hkind] <;> rfl
    | identifier hkind | dot hkind | nil hkind | variableName hkind | field hkind | bool hkind
    | charConstant hkind | number hkind => rw [hkind]; rfl
  refine ⟨hwrite ▸ hstands.solid, fun {s depth more} hvisible _ hends hfaces ↦ ?_⟩
  rw [hwrite] at hfaces
  obtain ⟨other, middle, hread, hkind, hvalue, hreaches⟩ :=
    hfaces.reads (hstands.emits hends (hinside depth))
  rw [String.ofList_toList] at hvalue
  obtain ⟨again, hagain, hother⟩ := hterm.again hkind hvalue
  rw [hvisible] at hreaches
  exact ⟨again, middle, hagain, hreaches, fun hchained ↦ .term hread (hvisible ▸ hother) hchained⟩

end Stencil.Syntax.Parse
