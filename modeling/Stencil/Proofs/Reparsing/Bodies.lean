import Stencil.Proofs.Reparsing.Statements

/-!
# Bodies and control structures that are read again

Statements are read again one after the other up to the action that ends their body, if no text
follows a text (`Threads.derives_statements`). A control structure is its head, a body and either an
end or an else with a further body. It is read again if these are, each with the variables visible
that the part before it leaves visible (`RereadsBody.branch`, `RereadsBody.branch_otherwise`).
Behind the end the variables of the structure are gone.
-/

set_option autoImplicit false
set_option relaxedAutoImplicit false

namespace Stencil.Syntax.Parse

open Delimiters

/-! ### The action that ends a body -/

/-- That a text starts with an action that ends a body in a way, with a text behind it. -/
structure ReadsEnding (setting : Setting) (tail : List Char) (ends : Ending → Prop)
    (more : List Char) : Prop where
  endsText : EndsText tail
  derives : ∀ {s : State}, s.Before .outside tail → ∃ found last, ends found ∧
    DerivesPassage setting (.statement (.ending found)) s last ∧
    s.Reaches last s.visible .outside more

section Endings

variable {setting : Setting}

/-- What a keyword by itself in an action ends. -/
theorem readsEnding_keyword {word : String} {keyword : Keyword} {ends : Ending → Prop}
    (hword : Keyword.ofWord? word = some keyword)
    (hderives : ∀ {s mark afterWord closer last}, s.Reads mark afterWord →
      mark.kind = .keyword keyword → afterWord.Reads closer last → closer.kind = .rightDelim →
      ∃ found, ends found ∧ DerivesPassage setting (.action (.ending found)) s last)
    (more : List Char) : ReadsEnding setting ((braced word).toList ++ more) ends more := by
  rw [braced_append]
  refine ⟨((standalone_keyword hword).solid.append _).endsText, fun {s} hbefore ↦ ?_⟩
  obtain ⟨opened, mark, afterWord, hread, hkind, hopened, hstatement⟩ :=
    hbefore.opens_keyword setting hword (.operand .delimiter)
  obtain ⟨closer, last, hclose, hcloser, hclosed⟩ := hopened.before.closes
  obtain ⟨found, hfound, haction⟩ := hderives hread hkind hclose hcloser
  rw [hopened.visible_eq] at hclosed
  exact ⟨found, last.leaveAction, hfound, hstatement haction, (hopened.trans hclosed).leaveAction⟩

theorem readsEnding_end (more : List Char) :
    ReadsEnding setting ((braced "end").toList ++ more) (fun ending ↦ ending = .finished) more := by
  have hword : Keyword.ofWord? "end" = some .endWord := rfl
  refine readsEnding_keyword hword (fun hread hkind hclose hcloser ↦ ?_) more
  exact ⟨.finished, rfl, .endAction hread hkind ⟨_, hclose, hcloser⟩⟩

theorem readsEnding_else (more : List Char) :
    ReadsEnding setting ((braced "else").toList ++ more)
      (fun ending ↦ ∃ position, ending = .otherwise position) more := by
  have hword : Keyword.ofWord? "else" = some .elseWord := rfl
  refine readsEnding_keyword hword (fun hread hkind hclose hcloser ↦ ?_) more
  exact ⟨_, ⟨_, rfl⟩, .elseAction hread hkind hclose hcloser⟩

end Endings

/-! ### Statements in a row -/

section Rows

variable {setting : Setting} {loops : Nat} {before after : List String} {nodes : List Node}
  {tail : List Char}

/-- A text may end in front of statements that do not start with one. -/
theorem Threads.endsText (hthreads : Threads (RereadsStatement setting loops) before nodes after)
    (hfirst : ∀ first ∈ nodes.head?, first.isText = false) (htail : EndsText tail) :
    EndsText ((Node.canonicals nodes).toList ++ tail) := by
  cases hthreads with
  | nil => simpa [Node.canonicals] using htail
  | cons hnode =>
    rw [Node.canonicals, String.toList_append, List.append_assoc]
    exact hnode.action (hfirst _ rfl) _

/-- Statements are read again up to the action that ends their body. -/
theorem Threads.derives_statements
    (hthreads : Threads (RereadsStatement setting loops) before nodes after)
    (hapart : nodes.IsChain Node.Apart) {ends : Ending → Prop} {more : List Char}
    (hending : ReadsEnding setting tail ends more) {s : State} (hvisible : s.visible = before)
    (hloops : s.loopDepth = loops) (hdepth : s.depth + Node.allNesting nodes ≤ maxDepth)
    (hlegible : Node.AllLegible nodes)
    (hbefore : s.Before .outside ((Node.canonicals nodes).toList ++ tail)) :
    ∃ again found last, ends found ∧ DerivesPassage setting (.statements again found) s last ∧
      again.map Node.unplaced = nodes.map Node.unplaced ∧ s.Reaches last after .outside more := by
  induction hthreads generalizing s with
  | nil =>
    rw [Node.canonicals, String.toList_empty, List.nil_append] at hbefore
    obtain ⟨found, last, hfound, hderives, hreaches⟩ := hending.derives hbefore
    rw [hvisible] at hreaches
    exact ⟨[], found, last, hfound,
      .statementsEnd (peek_ne_eof_of_statement hderives) hderives, rfl, hreaches⟩
  | @cons before middle after first rest hfirst hrest ih =>
    rw [Node.allNesting] at hdepth
    obtain ⟨hnode, hnodes⟩ := Node.allLegible_cons.mp hlegible
    obtain ⟨hbehind, hchain⟩ := List.isChain_cons.mp hapart
    rw [Node.canonicals, String.toList_append, List.append_assoc] at hbefore
    obtain ⟨again, afterFirst, hderives, hagain, hreaches⟩ :=
      hfirst.derives hvisible hloops (by omega) hnode
        (fun htext ↦ hrest.endsText (fun second hsecond ↦ hbehind second hsecond htext)
          hending.endsText) hbefore
    obtain ⟨others, found, last, hfound, hothers, hmap, hlast⟩ :=
      ih hchain hreaches.visible_eq (hreaches.loopDepth_eq.trans hloops)
        (by rw [hreaches.depth_eq]; omega) hnodes hreaches.before
    refine ⟨again :: others, found, last, hfound,
      .statementsMore (peek_ne_eof_of_statement hderives) hderives hothers, ?_,
      hreaches.trans hlast⟩
    simp only [List.map_cons, hagain, hmap]

end Rows

/-! ### Bodies -/

/-- That a body is read again wherever `before` are visible, inside so many loops; it leaves `after`
visible. -/
structure RereadsBody (setting : Setting) (loops : Nat) (before : List String) (body : Body)
    (after : List String) : Prop where
  nodes : Threads (RereadsStatement setting loops) before body.nodes after
  apart : body.nodes.IsChain Node.Apart

section Bodies

variable {setting : Setting} {loops : Nat} {before after : List String} {body : Body}
  {ends : Ending → Prop} {tail more : List Char} {s : State}

/-- A body is read again with the action that ends it. -/
theorem RereadsBody.derives (hbody : RereadsBody setting loops before body after)
    (hending : ReadsEnding setting tail ends more) (hvisible : s.visible = before)
    (hloops : s.loopDepth = loops) (hdepth : s.depth + (body.nesting + 1) ≤ maxDepth)
    (hlegible : body.Legible) (hbefore : s.Before .outside (body.canonical.toList ++ tail)) :
    ∃ again found last, ends found ∧ DerivesPassage setting (.body again found) s last ∧
      again.unplaced = body.unplaced ∧ s.Reaches last after .outside more := by
  obtain ⟨position, nodes⟩ := body
  have hroom : s.depth + (Node.allNesting nodes + 1) ≤ maxDepth := hdepth
  have henter : s.enter.depth = s.depth + 1 := rfl
  obtain ⟨again, found, last, hfound, hderives, hmap, hlast⟩ :=
    hbody.nodes.derives_statements hbody.apart hending (s := s.enter) hvisible hloops
      (henter ▸ by omega : s.enter.depth + Node.allNesting nodes ≤ maxDepth) hlegible hbefore
  refine ⟨_, found, last.leave, hfound, .body (by omega) hderives, ?_,
    hlast.before, hlast.visible_eq, hlast.trees_eq, hlast.loopDepth_eq, ?_⟩
  · rw [Body.unplaced_mk, Body.unplaced_mk, hmap]
  · change last.depth - 1 = s.depth
    rw [hlast.depth_eq, henter, Nat.add_sub_cancel]

/-- The body of a control structure is read again with the action that ends it. -/
theorem RereadsBody.derives_branchBody {kind : BranchKind}
    (hbody : RereadsBody setting (loops + loopsOf kind) before body after)
    (hending : ReadsEnding setting tail ends more) (hvisible : s.visible = before)
    (hloops : s.loopDepth = loops) (hdepth : s.depth + (body.nesting + 1) ≤ maxDepth)
    (hlegible : body.Legible) (hbefore : s.Before .outside (body.canonical.toList ++ tail)) :
    ∃ again found last, ends found ∧ DerivesPassage setting (.branchBody kind again found) s last ∧
      again.unplaced = body.unplaced ∧ s.Reaches last after .outside more := by
  have henter : (s.enterBranch kind).loopDepth = loops + loopsOf kind :=
    congrArg (· + loopsOf kind) hloops
  obtain ⟨again, found, last, hfound, hderives, hagain, hlast⟩ :=
    hbody.derives hending (s := s.enterBranch kind) hvisible henter hdepth hlegible hbefore
  refine ⟨again, found, last.leaveBranch kind, hfound, .branchBody hderives, hagain,
    hlast.before, hlast.visible_eq, hlast.trees_eq, ?_, hlast.depth_eq⟩
  change last.loopDepth - loopsOf kind = s.loopDepth
  rw [hlast.loopDepth_eq, henter, hloops, Nat.add_sub_cancel]

end Bodies

/-! ### Control structures -/

section Branches

variable {setting : Setting} {kind : BranchKind} {loops : Nat}
  {before middle later after : List String} {position : Position} {head : Pipeline}
  {first other : Body} {s : State} {more : List Char}

/-- The text of an else part and the end of its control structure, in front of a text. -/
def otherwiseText (more : List Char) : Option Body → List Char
  | none => (braced "end").toList ++ more
  | some other =>
    (braced "else").toList ++ (other.canonical.toList ++ ((braced "end").toList ++ more))

/-- The text of a control structure is that of its head, its body and its else part. -/
theorem branch_append (otherwise : Option Body) :
    (Node.canonical (.branch kind position head first otherwise)).toList ++ more =
      '\x7b' :: '\x7b' :: (kind.word.toList ++ ' ' :: (head.canonical.toList ++
        '\x7d' :: '\x7d' :: (first.canonical.toList ++ otherwiseText more otherwise))) := by
  cases otherwise <;> simp [Node.canonical, Node.write, braced, otherwiseText]

/-- A control structure starts with its keyword. -/
theorem endsText_branch (otherwise : Option Body) :
    EndsText ((Node.canonical (.branch kind position head first otherwise)).toList ++ more) := by
  rw [branch_append]
  exact ((standalone_keyword (ofWord?_word kind)).solid.append _).endsText

/-- The head of a control structure is read again, and what is derived of the structure behind its
keyword is a statement. -/
theorem RereadsPipeline.derives_head
    (hhead : RereadsPipeline setting (furtherVariables (clauseOf kind)) before head middle)
    (hvisible : s.visible = before) (hdepth : s.depth + head.nesting ≤ maxDepth)
    (hbefore : s.Before .outside ('\x7b' :: '\x7b' ::
      (kind.word.toList ++ ' ' :: (head.canonical.toList ++ '\x7d' :: '\x7d' :: more)))) :
    ∃ start again afterHead,
      DerivesPhrase setting (.pipeline (clauseOf kind) .rightDelim again) start afterHead ∧
      again.unplaced = head.unplaced ∧ start.visible = before ∧
      s.Reaches afterHead middle .outside more ∧
      ∀ {found last}, DerivesPassage setting (.control kind found) start last →
        DerivesPassage setting (.statement (.node found)) s last.leaveAction := by
  have hsolid := hhead.solid.append ('\x7d' :: '\x7d' :: more)
  obtain ⟨opened, mark, start, hread, hkind, hopened, hstatement⟩ :=
    hbefore.opens_keyword setting (ofWord?_word kind) (.operand (.blank hsolid))
  rw [hvisible] at hopened
  obtain ⟨again, afterHead, hderives, hagain, hlast⟩ :=
    hhead.derives (clauseOf kind) rfl hopened.visible_eq (hopened.depth_eq.symm ▸ hdepth)
      .delimiter (hopened.before.faces_behind hsolid)
  exact ⟨start, again, afterHead, hderives, hagain, hopened.visible_eq, hopened.trans hlast,
    fun hfound ↦ hstatement (.branchAction hread hkind hfound)⟩

theorem State.Reaches.keepVariables {after : State} {visible : List String} {mode : Mode}
    (hreaches : s.Reaches after visible mode more) (count : Nat) :
    s.Reaches (after.keepVariables count) (visible.drop (visible.length - count)) mode more :=
  ⟨hreaches.before, by rw [← hreaches.visible_eq]; rfl, hreaches.trees_eq, hreaches.loopDepth_eq,
    hreaches.depth_eq⟩

/-- A control structure without an else part is read again. -/
theorem RereadsBody.branch
    (hhead : RereadsPipeline setting (furtherVariables (clauseOf kind)) before head middle)
    (hfirst : RereadsBody setting (loops + loopsOf kind) middle first after) :
    RereadsStatement setting loops before (.branch kind position head first none)
      (after.drop (after.length - before.length)) := by
  refine ⟨fun hkind ↦ (by cases hkind), fun _ more ↦ endsText_branch none,
    fun {s more} hvisible hloops hdepth hlegible _ hbefore ↦ ?_⟩
  have hroom : s.depth + max head.nesting (max (first.nesting + 1) 0) ≤ maxDepth := hdepth
  have hbody : first.Legible := fun leaf hleaf ↦ hlegible leaf (by simp [Node.leaves, hleaf])
  rw [branch_append] at hbefore
  obtain ⟨start, head', afterHead, hpipeline, hhead', hstart, hreaches, hstatement⟩ :=
    hhead.derives_head hvisible (by omega) hbefore
  obtain ⟨first', found, last, rfl, hderives, hfirst', hlast⟩ :=
    hfirst.derives_branchBody (readsEnding_end more) hreaches.visible_eq
      (hreaches.loopDepth_eq.trans hloops) (by rw [hreaches.depth_eq]; omega) hbody hreaches.before
  refine ⟨_, _, hstatement (.controlOnly hpipeline hderives), ?_, ?_⟩
  · change Node.branch kind {} head'.unplaced first'.unplaced none =
      .branch kind {} head.unplaced first.unplaced none
    rw [hhead', hfirst']
  · rw [hstart]
    exact ((hreaches.trans hlast).keepVariables before.length).leaveAction

/-- A control structure with an else part is read again. -/
theorem RereadsBody.branch_otherwise
    (hhead : RereadsPipeline setting (furtherVariables (clauseOf kind)) before head middle)
    (hfirst : RereadsBody setting (loops + loopsOf kind) middle first later)
    (hother : RereadsBody setting loops later other after) :
    RereadsStatement setting loops before (.branch kind position head first (some other))
      (after.drop (after.length - before.length)) := by
  refine ⟨fun hkind ↦ (by cases hkind), fun _ more ↦ endsText_branch (some other),
    fun {s more} hvisible hloops hdepth hlegible _ hbefore ↦ ?_⟩
  have hroom : s.depth + max head.nesting (max (first.nesting + 1) (other.nesting + 1)) ≤
    maxDepth := hdepth
  have hbody : first.Legible := fun leaf hleaf ↦ hlegible leaf (by simp [Node.leaves, hleaf])
  have helse : other.Legible := fun leaf hleaf ↦ hlegible leaf (by simp [Node.leaves, hleaf])
  rw [branch_append] at hbefore
  obtain ⟨start, head', afterHead, hpipeline, hhead', hstart, hreaches, hstatement⟩ :=
    hhead.derives_head hvisible (by omega) hbefore
  obtain ⟨first', found, afterFirst, ⟨start', rfl⟩, hderives, hfirst', hbehind⟩ :=
    hfirst.derives_branchBody (readsEnding_else _) hreaches.visible_eq
      (hreaches.loopDepth_eq.trans hloops) (by rw [hreaches.depth_eq]; omega) hbody hreaches.before
  have hreached := hreaches.trans hbehind
  obtain ⟨other', found, last, rfl, hsecond, hother', hlast⟩ :=
    hother.derives (readsEnding_end more) hreached.visible_eq
      (hreached.loopDepth_eq.trans hloops) (by rw [hreached.depth_eq]; omega) helse hreached.before
  refine ⟨_, _, hstatement (.controlOtherwise hpipeline hderives
    (fun word _ ↦ peek_ne_keyword_of_body hsecond word) hsecond), ?_, ?_⟩
  · change Node.branch kind {} head'.unplaced first'.unplaced (some other'.unplaced) =
      .branch kind {} head.unplaced first.unplaced (some other.unplaced)
    rw [hhead', hfirst', hother']
  · rw [hstart]
    exact ((hreached.trans hlast).keepVariables before.length).leaveAction

end Branches

end Stencil.Syntax.Parse
