import Stencil.Proofs.Grammar.Sentences

/-!
# The literals of a source

A source is accepted only if each literal of it has a value: each number a reading, each character
constant a character, and each quoted text a text (`parse_hasValue`). It does not matter where the
literal stands, nor whether it is ever evaluated. The proof is an induction on derivations: what is
read for a part of the grammar holds no literal without a value (`State.ReadsValues`).
-/

set_option autoImplicit false
set_option relaxedAutoImplicit false

namespace Stencil.Syntax

open Parse

/-- Whether an item of this kind is a literal, whose text has to be read. -/
def ItemKind.isLiteral : ItemKind → Bool
  | number | charConstant | string | rawString => true
  | _ => false

/-- That an item has a value if it is a literal. -/
def Item.HasValue (item : Item) : Prop :=
  match item.kind with
  | .number => ∃ literal, NumberLiteral.ofText item.position item.value = .ok literal
  | .charConstant => ∃ c, Literal.unquoteChar item.value = some c
  | .string | .rawString => ∃ text, Literal.unquote item.value = some text
  | _ => True

/-- What is no literal needs no value. -/
theorem hasValue_of_isLiteral {item : Item} (hother : item.kind.isLiteral = false) :
    item.HasValue := by
  unfold Item.HasValue
  split
  next hkind => cases hkind ▸ hother
  next hkind => cases hkind ▸ hother
  next hkind => cases hkind ▸ hother
  next hkind => cases hkind ▸ hother
  next => trivial

/-- A quoted text with a value has one. -/
theorem hasValue_of_unquote {item : Item} {text : String}
    (hkind : item.kind = .string ∨ item.kind = .rawString)
    (hvalue : Literal.unquote item.value = some text) : item.HasValue := by
  unfold Item.HasValue
  rcases hkind with hkind | hkind <;> rw [hkind] <;> exact ⟨text, hvalue⟩

namespace Parse

section Values

variable {setting : Setting} {s middle after : State}

/-- That items are read between two states of which every literal has a value. -/
def State.ReadsValues (s after : State) : Prop :=
  ∃ items, s.Passes items after ∧ ∀ item ∈ items, item.HasValue

theorem State.ReadsValues.refl (s : State) : s.ReadsValues s := ⟨[], .refl s, nofun⟩

theorem State.ReadsValues.trans (hfirst : s.ReadsValues middle)
    (hsecond : middle.ReadsValues after) : s.ReadsValues after := by
  obtain ⟨items, hpasses, hvalues⟩ := hfirst
  obtain ⟨others, hfurther, hothers⟩ := hsecond
  exact ⟨items ++ others, hpasses.trans hfurther, List.forall_mem_append.mpr ⟨hvalues, hothers⟩⟩

theorem State.readsValues_skipSpaces (s : State) : s.ReadsValues s.skipSpaces :=
  ⟨[], s.passes_skipSpaces.1, nofun⟩

/-- Reading an item that has a value, if it needs one. -/
theorem State.Reads.readsValues {item : Item} (hread : s.Reads item after)
    (hvalue : item.HasValue) : s.ReadsValues after :=
  ⟨[item], hread.passes, by simpa using hvalue⟩

/-- Reading an item that is no literal. -/
theorem State.Reads.readsOther {item : Item} (hread : s.Reads item after)
    (hother : item.kind.isLiteral = false) : s.ReadsValues after :=
  hread.readsValues (hasValue_of_isLiteral hother)

/-- Reading an item of a kind that is no literal. -/
theorem State.ReadsKind.readsOther {kind : ItemKind} (hread : s.ReadsKind kind after)
    (hother : kind.isLiteral = false) : s.ReadsValues after := by
  obtain ⟨item, hread, rfl⟩ := hread
  exact hread.readsOther hother

/-- Going past an item that is no literal. -/
theorem State.readsValues_advance (hend : s.peek.kind ≠ .eof)
    (hother : s.peek.kind.isLiteral = false) : s.ReadsValues s.advance := by
  refine ⟨_, s.passes_advance hend, fun item hitem ↦ ?_⟩
  obtain rfl := List.mem_singleton.mp (List.mem_filter.mp hitem).1
  exact hasValue_of_isLiteral hother

/-! ### Phrases -/

/-- What ends a command is no literal. -/
theorem EndsCommand.readsValues (hend : EndsCommand s after) : s.ReadsValues after := by
  cases hend with
  | closer => exact .refl s
  | bar hkind => exact s.readsValues_advance (by rw [hkind]; nofun) (by rw [hkind]; rfl)

/-- The variables and signs of a declaration are no literals. -/
theorem Declares.readsValues {more : Nat} {declared : Declarations}
    (hdeclares : Declares more s declared after) : s.ReadsValues after := by
  induction hdeclares with
  | @none _ s => exact s.readsValues_skipSpaces
  | @last _ _ _ _ _ sign hname hvariable hsign hkind =>
    have hother : sign.kind.isLiteral = false := by
      simp only [isDeclaring, Bool.or_eq_true, decide_eq_true_eq] at hkind
      rcases hkind with hkind | hkind <;> rw [hkind] <;> rfl
    exact (hname.readsOther (by rw [hvariable]; rfl)).trans (hsign.readsOther hother)
  | @more _ _ _ _ _ _ sign _ hname hvariable hsign hseparator _ _ ih =>
    have hother : sign.kind.isLiteral = false := by
      simp only [isSeparator, Bool.and_eq_true, decide_eq_true_eq] at hseparator
      rw [hseparator.1]
      rfl
    exact ((hname.readsOther (by rw [hvariable]; rfl)).trans (hsign.readsOther hother)).trans ih

/-- A term has a value if it is a literal. -/
theorem IsTerm.hasValue {visible : List String} {item : Item} {found : Node}
    (hterm : IsTerm setting visible item found) : item.HasValue := by
  cases hterm with
  | charConstant hkind hvalue | number hkind hvalue =>
    unfold Item.HasValue
    rw [hkind]
    exact ⟨_, hvalue⟩
  | string hkind hvalue => exact hasValue_of_unquote hkind hvalue
  | _ hkind => exact hasValue_of_isLiteral (by rw [hkind]; rfl)

/-- The fields taken of a term are no literals. -/
theorem Chained.readsValues {base found : Node} (hchained : Chained base s found after) :
    s.ReadsValues after := by
  cases hchained with
  | alone => exact .refl s
  | fields =>
    obtain ⟨read, hread, hfields, -⟩ := fieldsFrom_eq s.line s.rest
    refine ⟨read, ⟨read, hread, List.filter_eq_self.mpr fun item hitem ↦ ?_⟩, fun item hitem ↦ ?_⟩
    · simp [hfields item hitem]
    · exact hasValue_of_isLiteral (by rw [hfields item hitem]; rfl)

/-- That what closes a phrase, if something does, is no literal. -/
def Phrase.ClosesPlainly : Phrase → Prop
  | pipeline _ closer _ | commands closer _ => closer.isLiteral = false
  | _ => True

/-- The literals of a phrase have values. -/
theorem DerivesPhrase.readsValues {phrase : Phrase}
    (hderives : DerivesPhrase setting phrase s after) (hcloses : phrase.ClosesPlainly) :
    s.ReadsValues after := by
  induction hderives with
  | pipeline hdeclares _ _ _ ih => exact hdeclares.readsValues.trans (ih hcloses)
  | commandsEnd hread hcloser => exact hread.readsOther (hcloser ▸ hcloses)
  | commandsMore _ _ _ _ _ ihFirst ihOthers => exact (ihFirst trivial).trans (ihOthers hcloses)
  | command _ _ ih => exact ih trivial
  | @operandsEnd s _ _ hend => exact s.readsValues_skipSpaces.trans hend.readsValues
  | @operandsMore s afterFirst _ _ _ _ hspace _ ihFirst ihOthers =>
    have hnext := afterFirst.readsValues_advance (by rw [hspace]; nofun) (by rw [hspace]; rfl)
    exact (s.readsValues_skipSpaces.trans (ihFirst trivial)).trans (hnext.trans (ihOthers trivial))
  | @operandsLast s _ _ _ _ _ hend ih =>
    exact (s.readsValues_skipSpaces.trans (ih trivial)).trans hend.readsValues
  | parenthesized hread hkind _ _ hchained ih =>
    exact ((hread.readsOther (by rw [hkind]; rfl)).trans (ih rfl)).trans hchained.readsValues
  | term hread hterm hchained =>
    exact (hread.readsValues hterm.hasValue).trans hchained.readsValues

/-! ### Passages -/

/-- The name of a template has a value. -/
theorem NamesTemplate.readsValues {name : String} {position : Position}
    (hname : NamesTemplate s name position after) : s.ReadsValues after := by
  cases hname with
  | name hread hkind hvalue => exact hread.readsValues (hasValue_of_unquote hkind hvalue)

/-- The literals of a passage have values. -/
theorem DerivesPassage.readsValues {passage : Passage}
    (hderives : DerivesPassage setting passage s after) : s.ReadsValues after := by
  induction hderives with
  | body _ _ ih | statementsEnd _ _ ih | branchBody _ ih | nestedBody _ ih => exact ih
  | statementsMore _ _ _ ihFirst ihOthers => exact ihFirst.trans ihOthers
  | text hread hkind | comment hread hkind => exact hread.readsOther (by rw [hkind]; rfl)
  | delimited hread hkind _ ih | blockAction hread hkind _ ih | branchAction hread hkind _ ih =>
    exact (hread.readsOther (by rw [hkind]; rfl)).trans ih
  | breakAction hread hkind hclose _ | continueAction hread hkind hclose _
  | endAction hread hkind hclose =>
    exact (hread.readsOther (by rw [hkind]; rfl)).trans (hclose.readsOther rfl)
  | @elseWord _ afterItem _ hread hkind =>
    exact (hread.readsOther (by rw [hkind]; rfl)).trans afterItem.readsValues_skipSpaces
  | elseAction hread hkind hclose hcloser =>
    exact (hread.readsOther (by rw [hkind]; rfl)).trans (hclose.readsOther (by rw [hcloser]; rfl))
  | templateBare hread hkind hname hclose =>
    have hnamed := (hread.readsOther (by rw [hkind]; rfl)).trans hname.readsValues
    exact hnamed.trans (hclose.readsOther rfl)
  | templateWith hread hkind hname _ _ hargument =>
    have hnamed := (hread.readsOther (by rw [hkind]; rfl)).trans hname.readsValues
    exact hnamed.trans (hargument.readsValues rfl)
  | pipelineAction _ _ hfound => exact hfound.readsValues rfl
  | controlOnly hhead _ ih => exact (hhead.readsValues rfl).trans ih
  | @controlContinued _ _ _ afterFirst _ _ _ _ _ _ hhead _ _ hpeek _ ihFirst ihInner =>
    have hword := afterFirst.readsValues_advance (by rw [hpeek]; nofun) (by rw [hpeek]; rfl)
    exact ((hhead.readsValues rfl).trans ihFirst).trans (hword.trans ihInner)
  | controlOtherwise hhead _ _ _ ihFirst ihSecond =>
    exact ((hhead.readsValues rfl).trans ihFirst).trans ihSecond
  | block hname hargument _ _ ih =>
    exact (hname.readsValues.trans (hargument.readsValues rfl)).trans ih

/-! ### Sources -/

/-- The literals of a source have values, up to where its end is found. -/
theorem DerivesRoot.readsValues {found : List Node} (hderives : DerivesRoot setting found s after) :
    s.ReadsValues after ∧ after.peek.kind = .eof := by
  induction hderives with
  | @finished s hpeek => exact ⟨.refl s, hpeek⟩
  | @definition s _ _ _ _ hopens hdefines _ ih =>
    have hopen := s.readsValues_advance (by rw [hopens.delimited]; nofun)
      (by rw [hopens.delimited]; rfl)
    refine ⟨(hopen.trans (hopens.word.readsOther rfl)).trans ?_, ih.2⟩
    cases hdefines with
    | definition hname hclose hroot _ =>
      exact ((hname.readsValues.trans (hclose.readsOther rfl)).trans hroot.readsValues).trans ih.1
  | statement _ _ hfirst _ ih => exact ⟨hfirst.readsValues.trans ih.1, ih.2⟩

end Values

end Parse

/-- A source is accepted only if every literal of it has a value. -/
theorem parse_hasValue {name source : String} {delimiters : Delimiters}
    {isFunction : String → Bool} {set : TreeSet}
    (hparse : parse name delimiters isFunction source = .ok set) :
    ∀ item ∈ lex delimiters source, item.HasValue := by
  obtain ⟨nodes, after, hderives, -⟩ := parse_eq_ok_iff.mp hparse
  obtain ⟨⟨items, ⟨read, hread, hitems⟩, hvalues⟩, hend⟩ := hderives.readsValues
  change lex delimiters source = read ++ after.rest at hread
  intro item hitem
  by_cases hspace : item.kind = .space
  · exact hasValue_of_isLiteral (by rw [hspace]; rfl)
  rw [hread] at hitem
  rcases List.mem_append.mp hitem with hitem | hitem
  · refine hvalues item ?_
    rw [← hitems]
    exact List.mem_filter.mpr ⟨hitem, by simpa using hspace⟩
  · rcases eq_nil_or_end_of_suffix hread hend with hrest | ⟨last, hrest, hlast⟩
    · rw [hrest] at hitem
      cases hitem
    · rw [hrest, List.mem_singleton] at hitem
      exact hasValue_of_isLiteral (by rw [hitem, hlast]; rfl)

end Stencil.Syntax
