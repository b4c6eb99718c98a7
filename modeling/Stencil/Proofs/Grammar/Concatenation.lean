import Stencil.Proofs.Grammar.Insertion
import Stencil.Proofs.Grammar.Sentences
import Stencil.Proofs.Lexing.Concatenation

/-!
# Parsing sources one after the other

If two sources define no further template and are accepted alone, and the first ends with the right
delimiter of an action, then they are accepted one after the other, and the nodes are those of the
first and then those of the second behind it (`parse_append`).

Each of the two is a source inside another one. Behind the first stand the items of the second in
the place of its end. In front of the second the variables of the first are visible, in the place of
the dollar sign, which is the last of them; and the depths are those of a start, since a whole
source leaves them as they were (`DerivesRoot.sameDepths`).
-/

set_option autoImplicit false
set_option relaxedAutoImplicit false

namespace Stencil.Syntax

/-- That no item of a source starts a definition or a block. -/
def DefinesNothing (delimiters : Delimiters) (source : String) : Prop :=
  ∀ item ∈ lex delimiters source,
    item.kind ≠ .keyword .defineWord ∧ item.kind ≠ .keyword .blockWord

/-- The items of a source with others in the place of its end are those inside of surroundings. -/
theorem Surroundings.extends_append (around : Surroundings) {items : List Item} {ending : Item}
    (hend : ending.kind = .eof) (hitems : ∀ item ∈ items, item.kind ≠ .eof)
    (hsingle : ∀ item ∈ items,
      item.kind ≠ .keyword .defineWord ∧ item.kind ≠ .keyword .blockWord) :
    around.Extends (items ++ [ending])
      (items.map (Item.mapPosition around.place) ++ around.behind) := by
  induction items with
  | nil => exact .ending hend
  | cons item rest ih =>
    obtain ⟨hitem, hitems⟩ := List.forall_mem_cons.mp hitems
    obtain ⟨hfirst, hsingle⟩ := List.forall_mem_cons.mp hsingle
    exact .item hitem hfirst (ih hitems hsingle)

namespace Parse

section Sources

variable {setting : Setting} {delimiters : Delimiters} {source : String} {found : List Node}
  {around : Surroundings} {s t after : State}

/-- At the end of a source, what stands behind it follows. -/
theorem State.Inside.rest_eq (hinside : s.Inside around t) (hend : s.peek.kind = .eof) :
    t.rest = around.behind := by
  have hitems := hinside.items
  unfold State.peek at hend
  generalize s.rest = items, t.rest = others at hitems hend
  cases hitems with
  | ending => rfl
  | item hne => exact absurd hend hne

/-- Inside of surroundings the dollar sign is visible. -/
theorem State.Inside.dollar (hinside : s.Inside around t) : "$" ∈ t.visible := by
  obtain ⟨inner, _, hvisible⟩ := hinside.visible
  rw [hvisible]
  exact List.mem_append_right _ around.dollar

/-- A source that is derived alone is derived where its items stand inside of surroundings. -/
theorem DerivesRoot.inside_lex
    (hderives : DerivesRoot setting found (State.initial (lex delimiters source)) after)
    (hsingle : DefinesNothing delimiters source) (around : Surroundings)
    (hrest : t.rest = (lex delimiters source).dropLast.map (Item.mapPosition around.place) ++
      around.behind)
    (hvisible : t.visible = around.outer) (htrees : t.trees = {}) (hloops : t.loopDepth = 0)
    (hdepth : t.depth = 0) :
    ∃ after', after.Inside around after' ∧ after'.rest = around.behind ∧
      ∀ {others : List Node} {final : State}, DerivesRoot setting others after' final →
        DerivesRoot setting (Node.mapPositions around.place found ++ others) t final := by
  obtain ⟨items, ending, hlex, hending, _⟩ := hderives.exists_end
  obtain ⟨before, last, hsplit, _, _, hitems⟩ := lex_eq_append delimiters source
  obtain ⟨rfl, -⟩ := List.append_inj' (hlex.symm.trans hsplit) rfl
  have hextends : around.Extends (lex delimiters source) t.rest := by
    rw [hrest, hlex, List.dropLast_concat]
    refine around.extends_append hending (fun item hitem ↦ (hitems item hitem).1) ?_
    exact fun item hitem ↦ hsingle item (hlex ▸ List.mem_append_left _ hitem)
  have hinside : (State.initial (lex delimiters source)).Inside around t :=
    ⟨hextends, ⟨[], rfl, hvisible⟩, ⟨rfl, htrees⟩, hloops, hdepth⟩
  obtain ⟨after', hinsideAfter, hend, hothers⟩ := hderives.inside hinside
  exact ⟨after', hinsideAfter, hinsideAfter.rest_eq hend, hothers⟩

end Sources

end Parse

section Append

variable {name first second : String} {delimiters : Delimiters} {isFunction : String → Bool}
  {firstSet secondSet : TreeSet}

/-- A source starts outside of actions, also behind a text. -/
theorem exists_outside_behind (delimiters : Delimiters) (text source : String) :
    ∃ item ∈ ((lex delimiters source).map (Item.behind text)).head?,
      item.kind.isOutside = true := by
  have houtside := (areOutside_lex delimiters source).starts
  obtain ⟨items, last, hlex, _⟩ := lex_eq_append delimiters source
  rw [hlex] at houtside ⊢
  cases items with
  | nil => exact ⟨_, rfl, houtside last rfl⟩
  | cons item rest => exact ⟨_, rfl, houtside item rfl⟩

/-- Two sources that are accepted alone and define no further template are accepted one after the
other, and the nodes of the second follow those of the first.
Assumes: the first source ends with the right delimiter of an action, the delimiters hold neither
blanks nor dashes, and no comment starts where the sources meet. -/
theorem parse_append (hcompact : delimiters.Compact) (hends : EndsAction delimiters first)
    (hcomment : ¬ StartsComment delimiters first second)
    (hfirst : parse name delimiters isFunction first = .ok firstSet)
    (hsecond : parse name delimiters isFunction second = .ok secondSet)
    (hfirstSingle : DefinesNothing delimiters first)
    (hsecondSingle : DefinesNothing delimiters second) :
    ∃ root other, firstSet = ⟨[⟨name, name, root⟩]⟩ ∧ secondSet = ⟨[⟨name, name, other⟩]⟩ ∧
      parse name delimiters isFunction (first ++ second) = .ok ⟨[⟨name, name,
        ⟨root.position,
          root.nodes ++ Node.mapPositions (Position.behind first) other.nodes⟩⟩]⟩ := by
  obtain ⟨nodes, after, hderives, hdefine⟩ := parse_eq_ok_iff.mp hfirst
  obtain ⟨others, afterOthers, hderivesOthers, hdefineOthers⟩ := parse_eq_ok_iff.mp hsecond
  obtain ⟨items, ending, hitems, hending, _⟩ := hderivesOthers.exists_end
  have hlex := lex_append hcompact hends hcomment
  -- the first source, with the second one behind it
  let around : Surroundings :=
    ⟨id, _, ["$"], exists_outside_behind delimiters first second, List.mem_singleton_self "$"⟩
  have hrest : (Parse.State.initial (lex delimiters (first ++ second))).rest =
      (lex delimiters first).dropLast.map (Item.mapPosition around.place) ++ around.behind := by
    have hid : (lex delimiters first).dropLast.map (Item.mapPosition id) = _ :=
      List.map_id (lex delimiters first).dropLast
    exact hlex.trans (congrArg (· ++ around.behind) hid.symm)
  obtain ⟨between, hinside, hbetween, hthrough⟩ :=
    hderives.inside_lex hfirstSingle around hrest rfl rfl rfl rfl
  -- the second source, with the variables of the first one
  let aroundOthers : Surroundings :=
    ⟨Position.behind first, [ending.behind first], between.visible, ⟨_, rfl, by
      change ending.kind.isOutside = true
      rw [hending]
      rfl⟩, hinside.dollar⟩
  have hrestOthers : between.rest = (lex delimiters second).dropLast.map
      (Item.mapPosition aroundOthers.place) ++ aroundOthers.behind := by
    rw [hbetween]
    change (lex delimiters second).map (Item.behind first) = _
    rw [hitems, List.dropLast_concat, List.map_append]
    rfl
  have hdepths := hderives.sameDepths
  obtain ⟨final, hinsideOthers, hfinal, hfinish⟩ :=
    hderivesOthers.inside_lex hsecondSingle aroundOthers hrestOthers rfl hinside.trees.2
      (hinside.loopDepth_eq.trans hdepths.loopDepth_eq)
      (hinside.depth_eq.trans hdepths.depth_eq)
  have hend : final.peek.kind = .eof := by
    rw [Parse.State.peek, hfinal]
    exact hending
  have hall := hthrough (hfinish (.finished hend))
  rw [Parse.define_of_empty hinside.trees.1] at hdefine
  rw [Parse.define_of_empty hinsideOthers.trees.1] at hdefineOthers
  refine ⟨_, _, (Except.ok.inj hdefine).symm, (Except.ok.inj hdefineOthers).symm, ?_⟩
  rw [List.append_nil, Node.mapPositions_id] at hall
  have hpeek : (Parse.State.initial (lex delimiters (first ++ second))).peek =
      (Parse.State.initial (lex delimiters first)).peek := by
    obtain ⟨before, closing, last, hlexFirst, _⟩ := hends.lexes
    rw [hlex, hlexFirst, List.append_cons, List.dropLast_concat]
    cases before <;> rfl
  refine parse_eq_ok_iff.mpr ⟨_, final, hall, ?_⟩
  rw [Parse.define_of_empty hinsideOthers.trees.2, hpeek]

end Append

end Stencil.Syntax
