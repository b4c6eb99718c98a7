import Mathlib.Data.List.Nodup
import Stencil.Proofs.Grammar.Completeness

/-!
# The trees that a source defines

The parser adds a tree to those found so far where a definition or a block ends, and at the end of
the source, by `TreeSet.merge` and in no other way. So what merging preserves is true of the trees
of every source that is accepted (`parse_keeps`). In particular no two trees of a source have the
same name (`nodup_names_of_parse`), putting the trees of a source into an empty set gives them back
(`foldl_merge_eq`), and every tree has a body that the grammar derives (`derivesTree_of_parse`).
-/

set_option autoImplicit false
set_option relaxedAutoImplicit false

namespace Stencil.Syntax

/-- Whether a tree gives a name a body with content. -/
def Tree.fills (tree : Tree) (name : String) : Bool := tree.name = name && !tree.isEmpty

namespace TreeSet

/-! ### Distinct names -/

/-- The names of a set after a tree was put into it: the same if its name is there, and else with
its name at the end. -/
theorem names_put (tree : Tree) (trees : List Tree) :
    (put tree trees).map Tree.name =
      if tree.name ∈ trees.map Tree.name then trees.map Tree.name
      else trees.map Tree.name ++ [tree.name] := by
  induction trees with
  | nil => rfl
  | cons other rest ih =>
    by_cases hname : other.name = tree.name
    · simp [put, hname]
    · have hother : tree.name ≠ other.name := fun heq ↦ hname heq.symm
      by_cases hrest : tree.name ∈ rest.map Tree.name
      · simp only [put, if_neg hname, List.map_cons, ih, if_pos hrest,
          if_pos (List.mem_cons_of_mem _ hrest)]
      · have hnot : tree.name ∉ other.name :: rest.map Tree.name :=
          fun hmem ↦ (List.mem_cons.mp hmem).elim hother hrest
        simp only [put, if_neg hname, List.map_cons, ih, if_neg hrest, if_neg hnot,
          List.cons_append]

/-- Merging a tree keeps the names of a set distinct. -/
theorem nodup_merge {set : TreeSet} (hset : set.names.Nodup) (tree : Tree) :
    (set.merge tree).names.Nodup := by
  unfold merge
  split
  next => exact hset
  next =>
    change ((put tree set.trees).map Tree.name).Nodup
    rw [names_put]
    split
    next => exact hset
    next hname =>
      refine List.nodup_append.mpr ⟨hset, List.nodup_singleton tree.name, ?_⟩
      intro name hmem other hother heq
      rw [List.mem_singleton.mp hother] at heq
      exact hname (heq ▸ hmem)

/-- A tree of a new name is put at the end. -/
theorem merge_new {set : TreeSet} {tree : Tree} (hname : tree.name ∉ set.names) :
    set.merge tree = ⟨set.trees ++ [tree]⟩ := by
  have hcontent : set.hasContent tree.name = false := by
    have hnone : set.find? tree.name = none := by
      rw [find?, List.find?_eq_none]
      intro other hother heq
      exact hname (List.mem_map.mpr ⟨other, hother, by simpa using heq⟩)
    rw [hasContent, hnone]
    rfl
  have hput (trees : List Tree) (hnew : tree.name ∉ trees.map Tree.name) :
      put tree trees = trees ++ [tree] := by
    induction trees with
    | nil => rfl
    | cons other rest ih =>
      simp only [List.map_cons, List.mem_cons, not_or] at hnew
      have hother : other.name ≠ tree.name := fun heq ↦ hnew.1 heq.symm
      rw [put, if_neg hother, ih hnew.2, List.cons_append]
  rw [merge, hcontent, Bool.and_false, if_neg (by simp), insert, hput set.trees hname]

/-- Trees of distinct names that are new to a set are put at its end in their order. -/
theorem foldl_merge_append (trees : List Tree) (set : TreeSet)
    (hnames : (set.names ++ trees.map Tree.name).Nodup) :
    trees.foldl merge set = ⟨set.trees ++ trees⟩ := by
  induction trees generalizing set with
  | nil => simp
  | cons tree rest ih =>
    have hnew : tree.name ∉ set.names := fun hmem ↦
      (List.nodup_append.mp hnames).2.2 _ hmem _ List.mem_cons_self rfl
    rw [List.foldl_cons, merge_new hnew, ih]
    · simp
    · simpa [names] using hnames

/-- Trees of distinct names are a set by themselves. -/
theorem foldl_merge_eq {set : TreeSet} (hset : set.names.Nodup) :
    set.trees.foldl merge {} = set := by
  rw [foldl_merge_append set.trees {} (by simpa [names] using hset)]
  rfl

/-! ### Sets with a tree merged into them -/

/-- What is among trees once a tree is put into them was among them or is the tree. -/
theorem mem_put {tree other : Tree} {trees : List Tree} (hother : other ∈ put tree trees) :
    other ∈ trees ∨ other = tree := by
  induction trees with
  | nil => exact .inr (List.mem_singleton.mp hother)
  | cons first rest ih =>
    rw [put] at hother
    split at hother
    next =>
      rcases List.mem_cons.mp hother with rfl | hrest
      · exact .inr rfl
      · exact .inl (List.mem_cons_of_mem first hrest)
    next =>
      rcases List.mem_cons.mp hother with rfl | hrest
      · exact .inl List.mem_cons_self
      · exact (ih hrest).imp_left (List.mem_cons_of_mem first)

/-- What is in a set once a tree is merged into it was in it or is the tree. -/
theorem mem_merge {set : TreeSet} {tree other : Tree} (hother : other ∈ (set.merge tree).trees) :
    other ∈ set.trees ∨ other = tree := by
  rw [merge] at hother
  split at hother
  next => exact .inl hother
  next => exact mem_put hother

/-! ### Looking trees up -/

/-- What a name stands for once a tree is put into a set. -/
theorem find?_insert (set : TreeSet) (tree : Tree) (name : String) :
    (set.insert tree).find? name = if tree.name = name then some tree else set.find? name := by
  have hput (trees : List Tree) : (put tree trees).find? (·.name = name) =
      if tree.name = name then some tree else trees.find? (·.name = name) := by
    induction trees with
    | nil => by_cases hname : tree.name = name <;> simp [put, hname]
    | cons other rest ih =>
      by_cases hsame : other.name = tree.name
      · by_cases hname : tree.name = name <;> simp [put, hsame, hname]
      · by_cases hother : other.name = name
        · have hname : tree.name ≠ name := fun heq ↦ hsame (hother.trans heq.symm)
          rw [put, if_neg hsame, if_neg hname]
          simp [hother]
        · rw [put, if_neg hsame, List.find?_cons_of_neg (by simpa using hother), ih,
            List.find?_cons_of_neg (by simpa using hother)]
  exact hput set.trees

/-- What a name stands for once a tree is merged into a set. -/
theorem find?_merge (set : TreeSet) (tree : Tree) (name : String) :
    (set.merge tree).find? name =
      if tree.name = name ∧ (tree.isEmpty && set.hasContent name) = false then some tree
      else set.find? name := by
  unfold merge
  by_cases hname : tree.name = name
  · subst hname
    by_cases hkeep : (tree.isEmpty && set.hasContent tree.name) = true
    · simp [hkeep]
    · simp [hkeep, find?_insert]
  · by_cases hkeep : (tree.isEmpty && set.hasContent tree.name) = true
    · simp [hkeep, hname]
    · simp [hkeep, hname, find?_insert]

/-- Once a tree is merged into a set, a name has content if it had or the tree gives it some. -/
theorem hasContent_merge (set : TreeSet) (tree : Tree) (name : String) :
    (set.merge tree).hasContent name = (set.hasContent name || tree.fills name) := by
  rw [hasContent, find?_merge]
  split
  next hnew =>
    obtain ⟨hname, hnew⟩ := hnew
    cases hempty : tree.isEmpty with
    | false => simp [Tree.fills, hname, hempty]
    | true =>
      rw [hempty, Bool.true_and] at hnew
      simp [Tree.fills, hempty, hnew]
  next hkeep =>
    change set.hasContent name = _
    by_cases hname : tree.name = name
    · have hcontent : set.hasContent name = true := by
        simp only [hname, true_and, Bool.not_eq_false, Bool.and_eq_true] at hkeep
        exact hkeep.2
      rw [hcontent, Bool.true_or]
    · simp [Tree.fills, hname]

/-- A name with content is among the names. -/
theorem mem_names_of_hasContent {set : TreeSet} {name : String} (hcontent : set.hasContent name) :
    name ∈ set.names := by
  rw [hasContent, Option.any_eq_true] at hcontent
  obtain ⟨tree, hfound, -⟩ := hcontent
  have hname : tree.name = name := by simpa using List.find?_some hfound
  exact List.mem_map.mpr ⟨tree, List.mem_of_find?_eq_some hfound, hname⟩

/-- The names of a set after a tree was merged into it: a new name stands at the end. -/
theorem names_merge (set : TreeSet) (tree : Tree) :
    (set.merge tree).names =
      if tree.name ∈ set.names then set.names else set.names ++ [tree.name] := by
  unfold merge
  split
  next hkeep =>
    rw [Bool.and_eq_true] at hkeep
    rw [if_pos (mem_names_of_hasContent hkeep.2)]
  next => exact names_put tree set.trees

/-- A set with a tree merged into it has a tree of that name. -/
theorem exists_find?_merge (set : TreeSet) (tree : Tree) :
    ∃ found, (set.merge tree).find? tree.name = some found := by
  rw [find?_merge]
  split
  next => exact ⟨tree, rfl⟩
  next hkeep =>
    have hcontent : set.hasContent tree.name := by
      simp only [true_and, Bool.not_eq_false, Bool.and_eq_true] at hkeep
      exact hkeep.2
    rw [hasContent, Option.any_eq_true] at hcontent
    obtain ⟨found, hfound, -⟩ := hcontent
    exact ⟨found, hfound⟩

end TreeSet

/-! ### Where trees are added -/

namespace Parse

/-- That a body is the whole of a source, or of a template that is defined in one. -/
inductive DerivesTree (setting : Setting) : Body → Prop
  | source {items : List Item} {position : Position} {nodes : List Node} {after : State}
    (hfound : DerivesRoot setting nodes (State.initial items) after) :
    DerivesTree setting ⟨position, nodes⟩
  | nested {s after : State} {root : Body}
    (hfound : DerivesPassage setting (.nestedBody root) s after) : DerivesTree setting root

section Keeps

variable {setting : Setting} {s after : State}

/-- A tree is added by merging it. -/
theorem eq_merge_of_define {tree : Tree} {trees : TreeSet}
    (hdefine : define setting s tree = .ok trees) : trees = s.trees.merge tree := by
  unfold define at hdefine
  split at hdefine
  next => exact absurd hdefine fail_ne_ok
  next => exact (Except.ok.inj hdefine).symm

/-- The first tree to be found is the only one. -/
theorem define_of_empty (hempty : s.trees = {}) (tree : Tree) :
    define setting s tree = .ok ⟨[tree]⟩ := by
  have hmerge : TreeSet.merge {} tree = ⟨[tree]⟩ := TreeSet.merge_new (List.not_mem_nil)
  rw [define, hempty, hmerge]
  rfl

theorem State.Reads.trees_eq {item : Item} (hread : s.Reads item after) :
    after.trees = s.trees := by
  rw [hread.state_eq]

theorem State.ReadsKind.trees_eq {kind : ItemKind} (hread : s.ReadsKind kind after) :
    after.trees = s.trees := by
  obtain ⟨_, hread, _⟩ := hread
  exact hread.trees_eq

theorem NamesTemplate.trees_eq {name : String} {position : Position}
    (hname : NamesTemplate s name position after) : after.trees = s.trees := by
  cases hname with
  | name hread => exact hread.trees_eq

theorem State.trees_advance (s : State) : s.advance.trees = s.trees := by
  unfold State.advance
  split <;> rfl

/-- A declaration adds no tree. -/
theorem Declares.trees_eq {more : Nat} {declared : Declarations}
    (hdeclares : Declares more s declared after) : after.trees = s.trees := by
  induction hdeclares with
  | none => rfl
  | last hname _ hsign => exact hsign.trees_eq.trans hname.trees_eq
  | more hname _ hsign _ _ _ ih => exact ih.trans (hsign.trees_eq.trans hname.trees_eq)

theorem EndsCommand.trees_eq (hend : EndsCommand s after) : after.trees = s.trees := by
  cases hend with
  | closer => rfl
  | bar => exact s.trees_advance

theorem Chained.trees_eq {base found : Node} (hchained : Chained base s found after) :
    after.trees = s.trees := by
  cases hchained <;> rfl

/-- A pipeline adds no tree, and neither does a part of one. -/
theorem DerivesPhrase.trees_eq {phrase : Phrase} (hderives : DerivesPhrase setting phrase s after) :
    after.trees = s.trees := by
  induction hderives with
  | pipeline hdeclares _ _ _ ih => exact ih.trans hdeclares.trees_eq
  | commandsEnd hread => exact hread.trees_eq
  | commandsMore _ _ _ _ _ ihFirst ihOthers => exact ihOthers.trans ihFirst
  | command _ _ ih => exact ih
  | operandsEnd _ hend => exact hend.trees_eq
  | operandsMore _ _ _ ihFirst ihOthers =>
    exact ihOthers.trans ((State.trees_advance _).trans ihFirst)
  | operandsLast _ _ hend ih => exact hend.trees_eq.trans ih
  | parenthesized hread _ _ _ hchained ih =>
    exact hchained.trees_eq.trans (ih.trans hread.trees_eq)
  | term hread _ hchained => exact hchained.trees_eq.trans hread.trees_eq

variable {invariant : TreeSet → Prop}

/-- What merging the tree of a derived body preserves, a passage preserves. -/
theorem DerivesPassage.keeps
    (hmerge : ∀ set tree, DerivesTree setting tree.root → invariant set →
      invariant (set.merge tree))
    {passage : Passage} (hderives : DerivesPassage setting passage s after)
    (hs : invariant s.trees) : invariant after.trees := by
  induction hderives with
  | body _ _ ih => exact ih hs
  | statementsEnd _ _ ih => exact ih hs
  | statementsMore _ _ _ ihFirst ihOthers => exact ihOthers (ihFirst hs)
  | text hread => exact hread.trees_eq ▸ hs
  | comment hread => exact hread.trees_eq ▸ hs
  | delimited hread _ _ ih =>
    refine ih ?_
    exact hread.trees_eq ▸ hs
  | blockAction hread _ _ ih => exact ih (hread.trees_eq ▸ hs)
  | breakAction hread _ hclose => exact hclose.trees_eq ▸ hread.trees_eq ▸ hs
  | continueAction hread _ hclose => exact hclose.trees_eq ▸ hread.trees_eq ▸ hs
  | elseWord hread => exact hread.trees_eq ▸ hs
  | elseAction hread _ hclose => exact hclose.trees_eq ▸ hread.trees_eq ▸ hs
  | endAction hread _ hclose => exact hclose.trees_eq ▸ hread.trees_eq ▸ hs
  | branchAction hread _ _ ih => exact ih (hread.trees_eq ▸ hs)
  | templateBare hread _ hname hclose =>
    exact hclose.trees_eq ▸ hname.trees_eq ▸ hread.trees_eq ▸ hs
  | templateWith hread _ hname _ _ hargument =>
    exact hargument.trees_eq ▸ hname.trees_eq ▸ hread.trees_eq ▸ hs
  | pipelineAction _ _ hfound => exact hfound.trees_eq ▸ hs
  | branchBody _ ih => exact ih hs
  | nestedBody _ ih => exact ih hs
  | controlOnly hhead _ ih => exact ih (hhead.trees_eq ▸ hs)
  | controlContinued hhead _ _ _ _ ihFirst ihInner =>
    exact ihInner ((State.trees_advance _).symm ▸ ihFirst (hhead.trees_eq ▸ hs))
  | controlOtherwise hhead _ _ _ ihFirst ihSecond =>
    exact ihSecond (ihFirst (hhead.trees_eq ▸ hs))
  | block hname hargument hroot hdefine ih =>
    have hbody := ih (hargument.trees_eq ▸ hname.trees_eq ▸ hs)
    exact eq_merge_of_define hdefine ▸ hmerge _ _ (.nested hroot) hbody

/-- What merging the tree of a derived body preserves, the statements and definitions of a source
preserve. -/
theorem DerivesRoot.keeps
    (hmerge : ∀ set tree, DerivesTree setting tree.root → invariant set →
      invariant (set.merge tree))
    {found : List Node} (hderives : DerivesRoot setting found s after) (hs : invariant s.trees) :
    invariant after.trees := by
  induction hderives with
  | finished => exact hs
  | @definition s afterWord _ _ _ hopens hdefines _ ih =>
    refine ih ?_
    have hword : afterWord.trees = s.trees := hopens.word.trees_eq.trans s.trees_advance
    cases hdefines with
    | definition hname hclose hroot hdefine =>
      have hbody := hroot.keeps hmerge (hclose.trees_eq ▸ hname.trees_eq ▸ hword ▸ hs)
      exact eq_merge_of_define hdefine ▸ hmerge _ _ (.nested hroot) hbody
  | statement _ _ hfirst _ ih => exact ih (hfirst.keeps hmerge hs)

end Keeps

end Parse

/-- What is true of no trees at all and is preserved by merging the tree of a derived body is true
of the trees of every source that is accepted. -/
theorem parse_keeps {name source : String} {delimiters : Delimiters} {isFunction : String → Bool}
    {set : TreeSet} (invariant : TreeSet → Prop) (hempty : invariant {})
    (hmerge : ∀ set tree, Parse.DerivesTree ⟨name, isFunction⟩ tree.root → invariant set →
      invariant (set.merge tree))
    (hparse : parse name delimiters isFunction source = .ok set) : invariant set := by
  obtain ⟨_, _, hderives, hdefine⟩ := parse_eq_ok_iff.mp hparse
  have hfound := hderives.keeps hmerge hempty
  exact Parse.eq_merge_of_define hdefine ▸ hmerge _ _ (.source hderives) hfound

/-- No two trees of a source have the same name. -/
theorem nodup_names_of_parse {name source : String} {delimiters : Delimiters}
    {isFunction : String → Bool} {set : TreeSet}
    (hparse : parse name delimiters isFunction source = .ok set) : set.names.Nodup := by
  exact parse_keeps (·.names.Nodup) List.nodup_nil
    (fun _ tree _ hset ↦ TreeSet.nodup_merge hset tree) hparse

/-- The body of every tree of a source is derived. -/
theorem derivesTree_of_parse {name source : String} {delimiters : Delimiters}
    {isFunction : String → Bool} {set : TreeSet}
    (hparse : parse name delimiters isFunction source = .ok set) {tree : Tree}
    (htree : tree ∈ set.trees) : Parse.DerivesTree ⟨name, isFunction⟩ tree.root := by
  refine parse_keeps (fun found ↦ ∀ tree ∈ found.trees, Parse.DerivesTree ⟨name, isFunction⟩
    tree.root) (fun _ hnone ↦ absurd hnone List.not_mem_nil) ?_ hparse tree htree
  intro found merged hmerged hfound other hother
  rcases TreeSet.mem_merge hother with hother | rfl
  · exact hfound other hother
  · exact hmerged

end Stencil.Syntax
