import Stencil.Bracketed
import Stencil.Proofs.Grammar.Offsets
import Stencil.Proofs.Grammar.Sentences
import Stencil.Proofs.Grammar.Trees
import Stencil.Proofs.Lexing.Lossless
import Stencil.Proofs.Outline.Decoding
import Stencil.Proofs.Outline.Image

/-!
# The places in an outline lie in the source

Every position in a tree is that of an item that the parser read, and every item stands in the
source. So no node of an outline has an offset beyond the end of its source, nor a line that the
source does not have (`parse_liesIn`), and the outline of a source that fits into memory has places
of 64 bits (`placed_outline`).

The proof is by induction on derivations. What is good about the positions of all items that are
left to a state is good about the positions of all nodes that are read from there
(`DerivesPhrase.lie`, `DerivesPassage.lie`), and of those of the trees found on the way
(`State.Lies`).
-/

set_option autoImplicit false
set_option relaxedAutoImplicit false

namespace Stencil.Syntax

open Outline (sourcesOf isComment partsOf)

/-! ### Nodes -/

/-- That the nodes which an outline shows of these have good positions. -/
def Lie (good : Position → Prop) (nodes : List Node) : Prop :=
  ∀ source ∈ nodes.flatMap sourcesOf, good source.position

section Nodes

variable {good : Position → Prop}

@[simp]
theorem lie_nil : Lie good [] := fun _ hsource ↦ absurd hsource List.not_mem_nil

@[simp]
theorem lie_append {first second : List Node} :
    Lie good (first ++ second) ↔ Lie good first ∧ Lie good second := by
  simp only [Lie, List.flatMap_append, List.forall_mem_append]

theorem lie_cons {node : Node} {rest : List Node} :
    Lie good (node :: rest) ↔ Lie good [node] ∧ Lie good rest :=
  @lie_append good [node] rest

/-- What is no comment is shown itself. -/
theorem Lie.position {node : Node} (hnode : Lie good [node]) (hcomment : isComment node = false) :
    good node.position := by
  refine hnode node ?_
  rw [List.flatMap_singleton, Outline.sourcesOf_eq, if_neg (by simp [hcomment])]
  exact List.mem_cons_self

/-- A node has a good place if it stands in one, and so do its parts. -/
theorem Lie.node {node : Node} (hposition : good node.position) (hparts : Lie good (partsOf node)) :
    Lie good [node] := by
  intro source hsource
  rw [List.flatMap_singleton, Outline.sourcesOf_eq] at hsource
  split at hsource
  · cases hsource
  · rcases List.mem_cons.mp hsource with rfl | hsource
    · exact hposition
    · exact hparts source hsource

/-- A node without parts has a good place if it stands in one. -/
theorem Lie.leaf {node : Node} (hposition : good node.position) (hparts : partsOf node = []) :
    Lie good [node] :=
  .node hposition (by rw [hparts]; exact lie_nil)

/-- Variables have good places if they stand in them. -/
theorem lie_variables {targets : List Variable}
    (htargets : ∀ target ∈ targets, good target.position) : Lie good (targets.map .var) := by
  induction targets with
  | nil => exact lie_nil
  | cons target rest ih =>
    obtain ⟨htarget, hrest⟩ := List.forall_mem_cons.mp htargets
    exact lie_cons.mpr ⟨.leaf htarget rfl, ih hrest⟩

end Nodes

namespace Parse

variable {setting : Setting} {good : Position → Prop} {s after : State}

/-! ### States -/

/-- That all items which are left to a state have good positions, and all nodes of the trees that it
found. -/
structure State.Lies (good : Position → Prop) (s : State) : Prop where
  items : ∀ item ∈ s.rest, good item.position
  trees : ∀ tree ∈ s.trees.trees, Lie good tree.root.nodes

namespace State.Lies

theorem of_suffix (hs : s.Lies good) (hsuffix : after.rest <:+ s.rest)
    (htrees : after.trees = s.trees) : after.Lies good :=
  ⟨fun item hitem ↦ hs.items item (hsuffix.mem hitem), htrees ▸ hs.trees⟩

theorem skipSpaces (hs : s.Lies good) : s.skipSpaces.Lies good :=
  hs.of_suffix s.passes_skipSpaces.1.suffix rfl

theorem advance (hs : s.Lies good) : s.advance.Lies good := by
  refine hs.of_suffix ?_ s.trees_advance
  unfold State.advance
  split
  next => exact List.suffix_rfl
  next hrest => exact hrest ▸ List.suffix_cons _ _

theorem reads (hs : s.Lies good) {item : Item} (hread : s.Reads item after) :
    good item.position ∧ after.Lies good :=
  ⟨hs.items item hread.mem, hs.of_suffix hread.passes.suffix hread.trees_eq⟩

theorem readsKind (hs : s.Lies good) {kind : ItemKind} (hread : s.ReadsKind kind after) :
    after.Lies good := by
  obtain ⟨item, hread, -⟩ := hread
  exact (hs.reads hread).2

theorem namesTemplate (hs : s.Lies good) {name : String} {position : Position}
    (hname : NamesTemplate s name position after) : good position ∧ after.Lies good := by
  cases hname with
  | name hread => exact hs.reads hread

theorem fields (hs : s.Lies good) : s.fields.state.Lies good := by
  obtain ⟨read, hread, -⟩ := fieldsFrom_eq s.line s.rest
  exact hs.of_suffix ⟨read, hread.symm⟩ rfl

/-- A tree with good places is added to those found. -/
theorem define (hs : s.Lies good) {tree : Tree} {trees : TreeSet}
    (hdefine : Parse.define setting s tree = .ok trees) (htree : Lie good tree.root.nodes) :
    State.Lies good { s with trees := trees } := by
  refine ⟨hs.items, fun other hother ↦ ?_⟩
  rw [eq_merge_of_define hdefine] at hother
  rcases TreeSet.mem_merge hother with hother | rfl
  · exact hs.trees other hother
  · exact htree

/-- The next item stands in a good place, and so does the one that stands for the end. -/
theorem peek (hs : s.Lies good) (hstart : good {}) : good s.peek.position := by
  unfold State.peek
  cases hrest : s.rest with
  | nil => exact hstart
  | cons item rest => exact hs.items item (by rw [hrest]; exact List.mem_cons_self)

end State.Lies

/-! ### Phrases -/

/-- The nodes of a phrase. -/
def Phrase.nodes : Phrase → List Node
  | pipeline _ _ found => [.pipeline found]
  | commands _ found => found.map .command
  | command found => [.command found]
  | operands found => found
  | operand found => [found]

theorem EndsCommand.lies (hend : EndsCommand s after) (hs : s.Lies good) : after.Lies good := by
  cases hend with
  | closer => exact hs
  | bar => exact hs.advance

/-- The variables of a declaration stand where their items do. -/
theorem Declares.lie {more : Nat} {declared : Declarations}
    (hdeclares : Declares more s declared after) (hs : s.Lies good) :
    (∀ target ∈ declared.targets, good target.position) ∧ after.Lies good := by
  induction hdeclares with
  | none => exact ⟨fun target htarget ↦ absurd htarget List.not_mem_nil, hs.skipSpaces⟩
  | last hname _ hsign _ =>
    obtain ⟨hposition, hafter⟩ := hs.reads hname
    obtain ⟨-, hafter⟩ := hafter.reads hsign
    exact ⟨List.forall_mem_singleton.mpr hposition, hafter.items, hafter.trees⟩
  | more hname _ hsign _ _ _ ih =>
    obtain ⟨hposition, hafter⟩ := hs.reads hname
    obtain ⟨-, hafter⟩ := hafter.reads hsign
    obtain ⟨hothers, hlast⟩ := ih ⟨hafter.items, hafter.trees⟩
    exact ⟨List.forall_mem_cons.mpr ⟨hposition, hothers⟩, hlast⟩

/-- A number stands where its text does. -/
theorem position_of_ofText {position : Position} {text : String} {literal : NumberLiteral}
    (hvalue : NumberLiteral.ofText position text = .ok literal) : literal.position = position := by
  have hplaced := ofText_position position position text
  rw [hvalue] at hplaced
  exact congrArg NumberLiteral.position (Except.ok.inj hplaced)

/-- A term stands where its item does. -/
theorem IsTerm.lie {visible : List String} {item : Item} {found : Node}
    (hterm : IsTerm setting visible item found) (hitem : good item.position) :
    Lie good [found] := by
  cases hterm with
  | number _ hvalue =>
    refine .leaf ?_ rfl
    rw [← position_of_ofText hvalue] at hitem
    exact hitem
  | _ => exact .leaf hitem rfl

/-- Fields stand where the first of them does. -/
theorem Chained.lie {base found : Node} (hchained : Chained base s found after)
    (hbase : Lie good [base]) (hs : s.Lies good) (hstart : good {}) :
    Lie good [found] ∧ after.Lies good := by
  cases hchained with
  | alone => exact ⟨hbase, hs⟩
  | fields =>
    refine ⟨?_, hs.fields⟩
    unfold takeFields
    split
    · exact .leaf (hbase.position rfl) rfl
    · exact .node (hs.peek hstart) hbase

/-- The nodes of a phrase stand where items do. -/
theorem DerivesPhrase.lie {phrase : Phrase} (hderives : DerivesPhrase setting phrase s after)
    (hs : s.Lies good) (hstart : good {}) : Lie good phrase.nodes ∧ after.Lies good := by
  induction hderives with
  | pipeline hdeclares _ _ _ ih =>
    obtain ⟨htargets, hafter⟩ := hdeclares.lie hs
    obtain ⟨hcommands, hlast⟩ := ih hafter
    exact ⟨.node (hs.skipSpaces.peek hstart) (lie_append.mpr ⟨lie_variables htargets, hcommands⟩),
      hlast⟩
  | commandsEnd hread => exact ⟨lie_nil, (hs.reads hread).2⟩
  | commandsMore _ _ _ _ _ ihFirst ihOthers =>
    obtain ⟨hfirst, hafter⟩ := ihFirst hs
    obtain ⟨hothers, hlast⟩ := ihOthers hafter
    exact ⟨lie_cons.mpr ⟨hfirst, hothers⟩, hlast⟩
  | command _ _ ih =>
    obtain ⟨hoperands, hlast⟩ := ih hs
    exact ⟨.node (hs.skipSpaces.peek hstart) hoperands, hlast⟩
  | operandsEnd _ hend => exact ⟨lie_nil, hend.lies hs.skipSpaces⟩
  | operandsMore _ _ _ ihFirst ihOthers =>
    obtain ⟨hfirst, hafter⟩ := ihFirst hs.skipSpaces
    obtain ⟨hothers, hlast⟩ := ihOthers hafter.advance
    exact ⟨lie_cons.mpr ⟨hfirst, hothers⟩, hlast⟩
  | operandsLast _ _ hend ih =>
    obtain ⟨hfirst, hafter⟩ := ih hs.skipSpaces
    exact ⟨hfirst, hend.lies hafter⟩
  | parenthesized hread _ _ _ hchained ih =>
    obtain ⟨-, hitem⟩ := hs.reads hread
    obtain ⟨hinner, hafter⟩ := ih ⟨hitem.items, hitem.trees⟩
    exact hchained.lie hinner ⟨hafter.items, hafter.trees⟩ hstart
  | term hread hterm hchained =>
    obtain ⟨hposition, hitem⟩ := hs.reads hread
    exact hchained.lie (hterm.lie hposition) hitem hstart

/-! ### Passages -/

/-- The nodes of a statement. -/
def Statement.nodes : Statement → List Node
  | .node found => [found]
  | .ending _ => []

/-- The nodes of a passage. -/
def Passage.nodes : Passage → List Node
  | body found _ | branchBody _ found _ | nestedBody found => found.nodes
  | statements found _ => found
  | statement found | action found => found.nodes
  | control _ found | block found => [found]

/-- The nodes of a passage stand where items do. -/
theorem DerivesPassage.lie {passage : Passage}
    (hderives : DerivesPassage setting passage s after) (hs : s.Lies good) (hstart : good {}) :
    Lie good passage.nodes ∧ after.Lies good := by
  induction hderives with
  | body _ _ ih | branchBody _ ih | nestedBody _ ih =>
    obtain ⟨hfound, hafter⟩ := ih ⟨hs.items, hs.trees⟩
    exact ⟨hfound, hafter.items, hafter.trees⟩
  | statementsEnd _ _ ih => exact ih hs
  | statementsMore _ _ _ ihFirst ihOthers =>
    obtain ⟨hfirst, hafter⟩ := ihFirst hs
    obtain ⟨hothers, hlast⟩ := ihOthers hafter
    exact ⟨lie_cons.mpr ⟨hfirst, hothers⟩, hlast⟩
  | text hread | comment hread =>
    obtain ⟨hposition, hafter⟩ := hs.reads hread
    exact ⟨.leaf hposition rfl, hafter⟩
  | delimited hread _ _ ih =>
    obtain ⟨-, hitem⟩ := hs.reads hread
    obtain ⟨hfound, hafter⟩ := ih ⟨hitem.items, hitem.trees⟩
    exact ⟨hfound, hafter.items, hafter.trees⟩
  | blockAction hread _ _ ih | branchAction hread _ _ ih => exact ih (hs.reads hread).2
  | breakAction hread _ hclose | continueAction hread _ hclose =>
    obtain ⟨hposition, hafter⟩ := hs.reads hread
    exact ⟨.leaf hposition rfl, hafter.readsKind hclose⟩
  | elseWord hread => exact ⟨lie_nil, (hs.reads hread).2.skipSpaces⟩
  | elseAction hread _ hclose => exact ⟨lie_nil, ((hs.reads hread).2.reads hclose).2⟩
  | endAction hread _ hclose => exact ⟨lie_nil, (hs.reads hread).2.readsKind hclose⟩
  | templateBare hread _ hname hclose =>
    obtain ⟨hposition, hafter⟩ := (hs.reads hread).2.namesTemplate hname
    exact ⟨.leaf hposition rfl, hafter.readsKind hclose⟩
  | templateWith hread _ hname _ _ hargument =>
    obtain ⟨hposition, hafter⟩ := (hs.reads hread).2.namesTemplate hname
    exact ⟨.leaf hposition rfl, (hargument.lie hafter hstart).2⟩
  | pipelineAction _ _ hfound =>
    obtain ⟨hpipeline, hafter⟩ := hfound.lie hs hstart
    exact ⟨.node (hs.skipSpaces.peek hstart) hpipeline, hafter⟩
  | controlOnly hhead _ ih =>
    obtain ⟨hpipeline, hafter⟩ := hhead.lie hs hstart
    obtain ⟨-, hlast⟩ := ih hafter
    exact ⟨.leaf (hpipeline.position rfl) rfl, hlast.items, hlast.trees⟩
  | controlContinued hhead _ _ _ _ ihFirst ihInner =>
    obtain ⟨hpipeline, hafter⟩ := hhead.lie hs hstart
    obtain ⟨-, hfirst⟩ := ihFirst hafter
    obtain ⟨-, hlast⟩ := ihInner hfirst.advance
    exact ⟨.leaf (hpipeline.position rfl) rfl, hlast.items, hlast.trees⟩
  | controlOtherwise hhead _ _ _ ihFirst ihSecond =>
    obtain ⟨hpipeline, hafter⟩ := hhead.lie hs hstart
    obtain ⟨-, hfirst⟩ := ihFirst hafter
    obtain ⟨-, hlast⟩ := ihSecond hfirst
    exact ⟨.leaf (hpipeline.position rfl) rfl, hlast.items, hlast.trees⟩
  | block hname hargument _ hdefine ih =>
    obtain ⟨hposition, hafter⟩ := hs.namesTemplate hname
    obtain ⟨hroot, hlast⟩ := ih (hargument.lie hafter hstart).2
    exact ⟨.leaf hposition rfl, hlast.define hdefine hroot⟩

/-! ### Sources -/

/-- The nodes of a source stand where items do. -/
theorem DerivesRoot.lie {found : List Node} (hderives : DerivesRoot setting found s after)
    (hs : s.Lies good) (hstart : good {}) : Lie good found ∧ after.Lies good := by
  induction hderives with
  | finished => exact ⟨lie_nil, hs⟩
  | definition hopens hdefines _ ih =>
    have hword := hs.advance.readsKind hopens.word
    cases hdefines with
    | definition hname hclose hroot hdefine =>
      have hhead := (hword.namesTemplate hname).2.readsKind hclose
      obtain ⟨hbody, hafter⟩ := hroot.lie hhead hstart
      exact ih (hafter.define hdefine hbody)
  | statement _ _ hfirst _ ih =>
    obtain ⟨hfound, hafter⟩ := hfirst.lie hs hstart
    obtain ⟨hothers, hlast⟩ := ih hafter
    exact ⟨lie_cons.mpr ⟨hfound, hothers⟩, hlast⟩

end Parse

/-- A character has one byte at least. -/
theorem length_le_utf8ByteSize (text : List Char) :
    text.length ≤ (String.ofList text).utf8ByteSize := by
  induction text with
  | nil => exact Nat.zero_le _
  | cons c rest ih =>
    rw [String.ofList_cons, String.utf8ByteSize_append, String.utf8ByteSize_singleton,
      List.length_cons]
    have hc := c.utf8Size_pos
    omega

/-- That a position is one of a source: at most as many bytes stand before it as there are in the
source, and at most as many line ends. -/
def Position.LiesIn (source : String) (position : Position) : Prop :=
  position.offset ≤ source.utf8ByteSize ∧ position.line ≤ source.utf8ByteSize + 1

/-- What stands at the end of a part of the source lies in the source. -/
theorem Item.StandsIn.liesIn {source : String} {item : Item}
    (hitem : item.StandsIn source.toList) : item.position.LiesIn source := by
  obtain ⟨before, after, hsource, hoffset, hline, -⟩ := hitem
  have hsize : source.utf8ByteSize =
      (String.ofList before).utf8ByteSize + (String.ofList after).utf8ByteSize := by
    rw [← String.utf8ByteSize_append, ← String.ofList_append, ← hsource, String.ofList_toList]
  have hcount : before.count '\n' ≤ _ := List.count_le_length.trans (length_le_utf8ByteSize before)
  exact ⟨by omega, by omega⟩

/-- Every position that an outline takes from a tree of a source lies in the source. -/
theorem parse_liesIn {name source : String} {delimiters : Delimiters}
    {isFunction : String → Bool} {set : TreeSet}
    (hparse : parse name delimiters isFunction source = .ok set) :
    ∀ tree ∈ set.trees, Lie (Position.LiesIn source) tree.root.nodes := by
  obtain ⟨nodes, after, hderives, hdefine⟩ := parse_eq_ok_iff.mp hparse
  have hinitial : (Parse.State.initial (lex delimiters source)).Lies (Position.LiesIn source) :=
    ⟨fun item hitem ↦ (standsIn_of_mem_lex hitem).liesIn,
      fun tree htree ↦ absurd htree List.not_mem_nil⟩
  obtain ⟨hnodes, hafter⟩ := hderives.lie hinitial ⟨Nat.zero_le _, Nat.le_add_left 1 _⟩
  exact (hafter.define hdefine hnodes).trees

end Stencil.Syntax

namespace Stencil.Outline

open Syntax (Position parse_liesIn)

/-- Every node of an outline stands where a node does that is shown. -/
theorem exists_source {visitor : Visitor Unit Empty} (hvisitor : visitor.Accepts) {name : String}
    {nodes : List Syntax.Node} {tree : Tree}
    (hbuilt : (ofNodes visitor () name nodes).1 = .ok tree) :
    ∀ node ∈ tree.nodes.flatMap Node.preorder, ∃ source ∈ nodes.flatMap sourcesOf,
      node.offset = source.position.offset ∧ node.line = some source.position.line := by
  cases hfind : (nodes.flatMap sourcesOf).find? isUnsupported with
  | some found =>
    rw [hvisitor.ofNodes_eq_error () name hfind] at hbuilt
    cases hbuilt
  | none =>
    obtain ⟨built, hok, hgrown⟩ := hvisitor.ofNodes_eq_ok () name hfind
    obtain rfl := Except.ok.inj (hok.symm.trans hbuilt)
    intro node hnode
    obtain ⟨shown, hshown, htag, hoffset, hline⟩ := exists_of_mem_forall₂ hgrown.agrees node hnode
    obtain ⟨source, hsource, hpresented⟩ := List.mem_filterMap.mp hshown
    obtain ⟨kind, -, rfl⟩ := Option.map_eq_some_iff.mp hpresented
    exact ⟨source, hsource, hoffset.symm, hline.symm⟩

theorem mapError_eq_ok_iff {ε ε' α : Type} {change : ε → ε'} {result : Except ε α} {value : α} :
    result.mapError change = .ok value ↔ result = .ok value := by
  cases result <;> simp [Except.mapError]

theorem isUnsigned_of_le {n : Nat} (hn : n ≤ Number.Word.signedLimit) :
    Number.Word.isUnsigned n = true := by
  have hlimit := Number.Word.unsignedLimit_eq
  have hpositive : 0 < Number.Word.signedLimit := by decide
  simp only [Number.Word.isUnsigned, Bool.and_eq_true, decide_eq_true_eq]
  omega

/-- The outline of a source that fits into memory has places of 64 bits. -/
theorem placed_outline {name source : String} {tree : Tree}
    (houtline : ({} : Bracketed).outline name source = .ok tree)
    (hsize : source.utf8ByteSize < Number.Word.signedLimit) : tree.Placed := by
  unfold Bracketed.outline Bracketed.outlineWith at houtline
  split at houtline
  next => cases houtline
  next set hparse =>
    -- The nodes are those of a tree of the source, or none.
    have hlie : Syntax.Lie (Position.LiesIn source)
        (((set.find? name).map (·.root.nodes)).getD []) := by
      cases hfind : set.find? name with
      | none => exact Syntax.lie_nil
      | some found => exact parse_liesIn hparse found (List.mem_of_find?_eq_some hfind)
    have hbuilt := mapError_eq_ok_iff.mp houtline
    intro node hnode other hother
    obtain ⟨part, hpart, hoffset, hline⟩ := exists_source Visitor.accepting_accepts hbuilt other
      (List.mem_flatMap.mpr ⟨node, hnode, hother⟩)
    obtain ⟨hoffsetLe, hlineLe⟩ := hlie part hpart
    rw [hoffset, hline]
    exact ⟨isUnsigned_of_le (by omega), fun line hline ↦
      Option.some.inj hline ▸ isUnsigned_of_le (by omega)⟩

end Stencil.Outline
