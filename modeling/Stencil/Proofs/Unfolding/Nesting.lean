import Stencil.Proofs.Grammar.Completeness
import Stencil.Proofs.Grammar.Sentences
import Stencil.Proofs.Unfolding.States

/-!
# Which structures are open

At every place of an accepted source some structures are open: those whose word was read and whose
end was not. `Nests` follows them through the items: a word that opens a structure puts it in front,
an end takes the front one away, and an else leaves them as they are. At its end no structure is
open. What matters for an else is that it may go on only with the word of the front structure
(`Turns`), and that an end stands alone in its action.

The parser keeps no such list; it calls itself for each structure. `DerivesPassage.nests` reads the
list off a derivation from its end to its start, and `nests_of_parse` says it of whole sources.
-/

set_option autoImplicit false
set_option relaxedAutoImplicit false

namespace Stencil.Syntax

open Parse

/-- The open structures, the innermost first, behind the first item of an action that is neither an
else nor an end. -/
def opened (kind : ItemKind) (structures : List Keyword) : List Keyword :=
  match kind with
  | .keyword word => if opensStructure word then word :: structures else structures
  | _ => structures

/-- How the open structures change with an action, whose items stand in front. -/
inductive Turns (items : List Item) : List Keyword → List Keyword → Prop
  | other {structures : List Keyword} (hend : headKind items ≠ .keyword .endWord)
    (helse : headKind items ≠ .keyword .elseWord) :
    Turns items structures (opened (headKind items) structures)
  /-- An else, which goes on with no word but that of the innermost structure. -/
  | otherwise {word : Keyword} {structures : List Keyword} {rest : List Item}
    (helse : StartsWith (.keyword .elseWord) items rest)
    (hnext : ∀ next, headKind rest = .keyword next →
      next = word ∧ (next = .ifWord ∨ next = .withWord)) :
    Turns items (word :: structures) (word :: structures)
  /-- The end of the innermost structure. -/
  | ended {word : Keyword} {structures : List Keyword} {afterEnd rest : List Item}
    (hend : StartsWith (.keyword .endWord) items afterEnd)
    (hclosing : StartsWith .rightDelim afterEnd rest) : Turns items (word :: structures) structures

/-- That these structures are open in front of items, and none behind them. -/
inductive Nests : List Keyword → List Item → Prop
  | finished : Nests [] []
  | item {structures : List Keyword} {item : Item} {rest : List Item}
    (hkind : item.kind ≠ .leftDelim) (hrest : Nests structures rest) :
    Nests structures (item :: rest)
  | action {before behind : List Keyword} {opening : Item} {items : List Item}
    (hopening : opening.kind = .leftDelim) (hturns : Turns items before behind)
    (hrest : Nests behind items) : Nests before (opening :: items)

section Items

variable {structures : List Keyword} {s middle after : State} {items : List Item}

/-- Items that start no action leave the open structures as they are. -/
theorem Nests.append {rest : List Item} (hitems : ∀ item ∈ items, item.kind ≠ .leftDelim)
    (hnests : Nests structures rest) : Nests structures (items ++ rest) := by
  induction items with
  | nil => exact hnests
  | cons item more ih =>
    obtain ⟨hitem, hmore⟩ := List.forall_mem_cons.mp hitems
    exact .item hitem (ih hmore)

/-- What is read without the start of an action leaves the open structures as they are. -/
theorem Nests.of_passes (hnests : Nests structures after.rest) (hpasses : s.Passes items after)
    (hitems : ∀ item ∈ items, item.kind ≠ .leftDelim) : Nests structures s.rest := by
  obtain ⟨read, hread, rfl⟩ := hpasses
  rw [hread]
  refine hnests.append fun item hitem hkind ↦ ?_
  exact hitems item (List.mem_filter.mpr ⟨hitem, by simp [hkind]⟩) hkind

theorem Nests.of_reads {item : Item} (hnests : Nests structures after.rest)
    (hread : s.Reads item after) (hkind : item.kind ≠ .leftDelim) : Nests structures s.rest :=
  hnests.of_passes hread.passes (by simpa using hkind)

theorem Nests.of_readsKind {kind : ItemKind} (hnests : Nests structures after.rest)
    (hread : s.ReadsKind kind after) (hkind : kind ≠ .leftDelim) : Nests structures s.rest := by
  obtain ⟨item, hread, hitem⟩ := hread
  exact hnests.of_reads hread (hitem.trans_ne hkind)

theorem Nests.of_namesTemplate {name : String} {position : Position}
    (hnests : Nests structures after.rest) (hname : NamesTemplate s name position after) :
    Nests structures s.rest := by
  cases hname with
  | name hread hkind =>
    refine hnests.of_reads hread ?_
    rcases hkind with hkind | hkind <;> rw [hkind] <;> nofun

/-- A pipeline leaves the open structures as they are. -/
theorem Nests.of_pipeline {setting : Setting} {clause : Clause} {found : Pipeline}
    (hnests : Nests structures after.rest)
    (hpipeline : DerivesPhrase setting (.pipeline clause .rightDelim found) s after) :
    Nests structures s.rest := by
  obtain ⟨items, closing, hpasses, hclosing, hform⟩ := hpipeline.hasForm
  refine hnests.of_passes hpasses fun item hitem hkind ↦ ?_
  rcases List.mem_append.mp hitem with hitem | hitem
  · have hinside := (hform.isInside item hitem).1
    rw [hkind] at hinside
    cases hinside
  · rw [List.mem_singleton.mp hitem, hclosing] at hkind
    cases hkind

/-- What is read is what items start with after spaces. -/
theorem Parse.State.Reads.startsWith {item : Item} {kind : ItemKind} (hread : s.Reads item after)
    (hkind : item.kind = kind) (hspace : kind ≠ .space) : StartsWith kind s.rest after.rest := by
  have hdrop := hread.rest_eq
  rw [s.rest_skipSpaces] at hdrop
  generalize s.rest = rest at hdrop
  induction rest with
  | nil => cases hdrop
  | cons first rest ih =>
    by_cases hfirst : first.isSpace
    · rw [List.dropWhile_cons_of_pos hfirst] at hdrop
      exact .space (by simpa [Item.isSpace] using hfirst) (ih hdrop)
    · rw [List.dropWhile_cons_of_neg hfirst] at hdrop
      obtain ⟨rfl, rfl⟩ := List.cons.inj hdrop
      exact .here hkind hspace

theorem Parse.State.Reads.headKind_eq {item : Item} (hread : s.Reads item after) :
    headKind s.rest = item.kind := by
  rw [← s.kind_peek_skipSpaces, State.peek, hread.rest_eq]
  rfl

/-- The start of an action with this word leaves open what stays open behind the word. -/
theorem Nests.of_word {opening item : Item} {word : Keyword} (hopening : opening.kind = .leftDelim)
    (hread : s.Reads item after) (hkind : item.kind = .keyword word) (hend : word ≠ .endWord)
    (helse : word ≠ .elseWord) (hnests : Nests (opened (.keyword word) structures) after.rest) :
    Nests structures (opening :: s.rest) := by
  have hhead : headKind s.rest = .keyword word := hread.headKind_eq.trans hkind
  have hturns : Turns s.rest structures (opened (headKind s.rest) structures) :=
    .other (by simpa [hhead] using hend) (by simpa [hhead] using helse)
  rw [hhead] at hturns
  exact .action hopening hturns (hnests.of_reads hread (by rw [hkind]; nofun))

/-- A pipeline that is an action opens no structure. -/
theorem opened_of_pipeline {setting : Setting} {found : Pipeline}
    (hpipeline : DerivesPhrase setting (.pipeline .command .rightDelim found) s after) :
    Turns s.rest structures structures := by
  obtain ⟨items, closing, hpasses, -, hform⟩ := hpipeline.hasForm
  obtain ⟨first, rest, rfl, hstart⟩ := hform.starts
  have hhead : headKind s.rest = first.kind := by
    rw [← s.kind_peek_skipSpaces, hpasses.peek_eq]
  have hkeyword : ∀ word, first.kind = .keyword word → word = .dot ∨ word = .nilWord := by
    intro word hword
    rw [hword] at hstart
    cases word <;> first | exact .inl rfl | exact .inr rfl | cases hstart
  have hopened : opened (headKind s.rest) structures = structures := by
    rw [hhead]
    cases hkind : first.kind with
    | keyword word => rcases hkeyword word hkind with rfl | rfl <;> rfl
    | _ => rfl
  have hturns : Turns s.rest structures (opened (headKind s.rest) structures) := by
    refine .other (fun hend ↦ ?_) (fun helse ↦ ?_)
    · rcases hkeyword _ (hhead.symm.trans hend) with hword | hword <;> cases hword
    · rcases hkeyword _ (hhead.symm.trans helse) with hword | hword <;> cases hword
  rwa [hopened] at hturns

end Items

namespace Parse

/-! ### Derivations -/

/-- What the end of a body says of the structures that are open in front of the items up to it. -/
def Ending.Nests (items : List Item) (after : State) : Ending → Prop
  | .finished => ∀ word structures, Syntax.Nests structures after.rest →
      Syntax.Nests (word :: structures) items
  | .otherwise _ => ∀ word structures,
      (∀ next, after.peek.kind = .keyword next →
        next = word ∧ (next = .ifWord ∨ next = .withWord)) →
      Syntax.Nests (word :: structures) after.rest → Syntax.Nests (word :: structures) items

/-- What a statement says of the structures that are open in front of its items. -/
def Statement.Nests (items : List Item) (after : State) : Statement → Prop
  | .node _ => ∀ structures, Syntax.Nests structures after.rest → Syntax.Nests structures items
  | .ending last => last.Nests items after

/-- What a passage says of the structures that are open in front of it. -/
def Passage.Nests (passage : Passage) (s after : State) : Prop :=
  match passage with
  | body _ ending | statements _ ending | branchBody _ _ ending => ending.Nests s.rest after
  | statement found => found.Nests s.rest after
  | action found => ∀ opening : Item, opening.kind = .leftDelim →
      found.Nests (opening :: s.rest) after
  | nestedBody _ => ∀ word structures, Syntax.Nests structures after.rest →
      Syntax.Nests (word :: structures) s.rest
  | control kind _ => ∀ structures, Syntax.Nests structures after.rest →
      Syntax.Nests (branchWord kind :: structures) s.rest
  | block _ => ∀ structures, Syntax.Nests structures after.rest →
      Syntax.Nests (.blockWord :: structures) s.rest

section Before

variable {items others : List Item} {after : State}

/-- What stands in front of the end of a body leaves open what is open in front of the end. -/
theorem Ending.Nests.before {ending : Ending} (hnests : Ending.Nests items after ending)
    (hbefore : ∀ structures, Syntax.Nests structures items → Syntax.Nests structures others) :
    Ending.Nests others after ending := by
  cases ending with
  | finished => exact fun word structures hafter ↦ hbefore _ (hnests word structures hafter)
  | otherwise =>
    exact fun word structures hnext hafter ↦ hbefore _ (hnests word structures hnext hafter)

/-- What stands in front of a statement leaves open what is open in front of the statement. -/
theorem Statement.Nests.before {found : Statement} (hnests : Statement.Nests items after found)
    (hbefore : ∀ structures, Syntax.Nests structures items → Syntax.Nests structures others) :
    Statement.Nests others after found := by
  cases found with
  | node => exact fun structures hafter ↦ hbefore structures (hnests structures hafter)
  | ending => exact Ending.Nests.before hnests hbefore

end Before

/-- The word with which a control structure may go on is its own. -/
theorem continuing?_eq {kind : BranchKind} {word : Keyword}
    (hword : continuing? kind = some word) :
    word = branchWord kind ∧ (word = .ifWord ∨ word = .withWord) := by
  cases kind <;> cases hword
  · exact ⟨rfl, .inl rfl⟩
  · exact ⟨rfl, .inr rfl⟩

/-- The structures that are open in front of a passage. -/
theorem DerivesPassage.nests {setting : Setting} {passage : Passage} {s after : State}
    (hderives : DerivesPassage setting passage s after) : passage.Nests s after := by
  induction hderives with
  | body _ _ ih => exact ih
  | statementsEnd _ _ ih => exact ih
  | statementsMore _ _ _ ihFirst ihOthers => exact ihOthers.before ihFirst
  | text hread hkind | comment hread hkind =>
    exact fun _ hafter ↦ hafter.of_reads hread (by rw [hkind]; nofun)
  | @delimited s afterItem after item found hread hkind _ ih =>
    have hfound : found.Nests s.skipSpaces.rest after.leaveAction := hread.rest_eq ▸ ih item hkind
    exact hfound.before fun structures hnests ↦ hnests.of_passes s.passes_skipSpaces.1 nofun
  | blockAction hread hkind _ ih =>
    exact fun _ hopening structures hafter ↦
      .of_word hopening hread hkind nofun nofun (ih structures hafter)
  | breakAction hread hkind hclose | continueAction hread hkind hclose =>
    exact fun _ hopening structures hafter ↦
      .of_word hopening hread hkind nofun nofun (hafter.of_readsKind hclose nofun)
  | @elseWord s afterItem item hread hkind _ =>
    intro opening hopening word structures hnext hafter
    have hbehind := hafter.of_passes afterItem.passes_skipSpaces.1 nofun
    refine .action hopening (.otherwise (hread.startsWith hkind nofun) fun next hhead ↦ ?_)
      (hbehind.of_reads hread (by rw [hkind]; nofun))
    exact hnext next (afterItem.kind_peek_skipSpaces.trans hhead)
  | @elseAction s afterItem after item closer hread hkind hclose hcloser =>
    intro opening hopening word structures _ hafter
    have hbehind := hafter.of_reads hclose (by rw [hcloser]; nofun)
    refine .action hopening (.otherwise (hread.startsWith hkind nofun) fun next hhead ↦ ?_)
      (hbehind.of_reads hread (by rw [hkind]; nofun))
    rw [hclose.headKind_eq, hcloser] at hhead
    cases hhead
  | @endAction s afterItem after item hread hkind hclose =>
    intro opening hopening word structures hafter
    obtain ⟨closer, hclose, hcloser⟩ := hclose
    have hbehind := hafter.of_reads hclose (by rw [hcloser]; nofun)
    exact .action hopening (.ended (hread.startsWith hkind nofun) (hclose.startsWith hcloser nofun))
      (hbehind.of_reads hread (by rw [hkind]; nofun))
  | @branchAction _ _ _ _ kind _ hread hkind _ ih =>
    intro opening hopening structures hafter
    have hopened : opened (.keyword (branchWord kind)) structures =
        branchWord kind :: structures := by
      cases kind <;> rfl
    refine .of_word hopening hread hkind ?_ ?_ (hopened ▸ ih structures hafter)
    · cases kind <;> nofun
    · cases kind <;> nofun
  | templateBare hread hkind hname hclose =>
    exact fun _ hopening structures hafter ↦ .of_word hopening hread hkind nofun nofun
      ((hafter.of_readsKind hclose nofun).of_namesTemplate hname)
  | templateWith hread hkind hname _ _ hargument =>
    exact fun _ hopening structures hafter ↦ .of_word hopening hread hkind nofun nofun
      ((hafter.of_pipeline hargument).of_namesTemplate hname)
  | pipelineAction _ _ hfound =>
    exact fun _ hopening structures hafter ↦
      .action hopening (opened_of_pipeline hfound) (hafter.of_pipeline hfound)
  | branchBody _ ih => exact ih
  | nestedBody _ ih => exact ih
  | controlOnly hhead _ ih =>
    exact fun structures hafter ↦ (ih _ structures hafter).of_pipeline hhead
  | @controlContinued kind _ _ afterFirst _ _ _ _ word _ hhead _ hword hpeek _ ihFirst ihInner =>
    intro structures hafter
    have hinner : Syntax.Nests (branchWord kind :: structures) afterFirst.rest := by
      have hadvance := afterFirst.passes_advance (by rw [hpeek]; nofun)
      refine (ihInner structures hafter).of_passes hadvance fun item hitem hkind ↦ ?_
      rw [List.mem_singleton.mp (List.mem_filter.mp hitem).1, hpeek] at hkind
      cases hkind
    refine Nests.of_pipeline (ihFirst _ structures (fun next hnext ↦ ?_) hinner) hhead
    rw [hpeek] at hnext
    cases hnext
    exact continuing?_eq hword
  | controlOtherwise hhead _ _ hsecond ihFirst ihSecond =>
    intro structures hafter
    refine Nests.of_pipeline (ihFirst _ structures (fun next hnext ↦ ?_)
      (ihSecond _ structures hafter)) hhead
    exact absurd hnext (peek_ne_keyword_of_body hsecond next)
  | block hname hargument _ _ ih =>
    exact fun structures hafter ↦
      ((ih _ structures hafter).of_pipeline hargument).of_namesTemplate hname


/-- The structures that are open in front of the rest of a source are none if none are open behind
it. -/
theorem DerivesRoot.nests {setting : Setting} {found : List Node} {s after : State}
    (hderives : DerivesRoot setting found s after) (hafter : Syntax.Nests [] after.rest) :
    Syntax.Nests [] s.rest := by
  induction hderives with
  | finished => exact hafter
  | @definition s afterWord afterFirst _ _ hopens hdefines _ ih =>
    obtain ⟨item, hread, hkind⟩ := hopens.word
    have hrest : s.rest = s.peek :: s.advance.rest := by
      have hleft := hopens.delimited
      unfold State.peek at hleft ⊢
      unfold State.advance
      cases hrest : s.rest with
      | nil =>
        rw [hrest] at hleft
        cases hleft
      | cons first rest => rfl
    rw [hrest]
    refine .of_word hopens.delimited hread hkind nofun nofun ?_
    cases hdefines with
    | definition hname hclose hroot =>
      have hbody : Syntax.Nests [.defineWord] _ := hroot.nests .defineWord [] (ih hafter)
      exact (hbody.of_readsKind hclose nofun).of_namesTemplate hname
  | statement _ _ hfirst _ ih => exact hfirst.nests [] (ih hafter)

end Parse

/-- In front of an accepted source no structure is open, and its actions open and close structures
as they should up to its end. -/
theorem nests_of_parse {name source : String} {delimiters : Delimiters}
    {isFunction : String → Bool} {set : TreeSet}
    (hparse : parse name delimiters isFunction source = .ok set) :
    Nests [] (lex delimiters source) := by
  obtain ⟨nodes, after, hderives, -⟩ := parse_eq_ok_iff.mp hparse
  refine hderives.nests ?_
  obtain ⟨hleads, hend⟩ := hderives.leadsTo (areOutside_lex delimiters source).isChain
  obtain ⟨items, ⟨read, hread, -⟩, -⟩ := hleads
  rcases eq_nil_or_end_of_suffix hread hend with hrest | ⟨last, hrest, hkind⟩
  · rw [hrest]
    exact .finished
  · rw [hrest]
    exact .item (by rw [hkind]; nofun) .finished

end Stencil.Syntax
