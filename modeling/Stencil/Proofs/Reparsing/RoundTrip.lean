import Stencil.Proofs.Reparsing.Sources

/-!
# A canonical text is parsed back

The canonical text of the tree of a source is accepted and gives the same tree, up to positions and
with one text in place of texts in a row (`canonical_reparses`). The texts of the tree may hold no
left brace, the names of the templates that it invokes no character but the visible ones of ASCII,
and the nesting has to be one that the parser admits.

The tree that is read again is the only one: a canonical text holds no definition, and a block is
read as the invocation that it is written as.
-/

set_option autoImplicit false
set_option relaxedAutoImplicit false

namespace Stencil.Syntax

namespace Parse

open Delimiters

/-! ### Sources without definitions -/

section Roots

variable {setting : Setting} {s after : State} {loops : Nat} {visible last : List String}
  {nodes : List Node}

/-- Nothing is left before a parse at the end of a source. -/
theorem State.Before.peek_eof (hbefore : s.Before .outside []) : s.peek.kind = .eof := by
  obtain ⟨position, hrest⟩ := hbefore
  have habsent : findPattern braces.left.toList [] = none := by
    rw [left_braces]
    rfl
  have hlex : lexFrom braces .outside position [] = [⟨.eof, position, ""⟩] := by
    rw [(Scans.plain habsent).lexFrom_eq]
    simp [Scan.items, textPieces, lastItem]
  rw [State.peek, hrest, hlex]
  rfl

/-- The statements of a source are read again up to its end. -/
theorem Threads.derives_root
    (hthreads : Threads (RereadsStatement setting loops) visible nodes last)
    (hapart : nodes.IsChain Node.Apart) (hvisible : s.visible = visible)
    (hloops : s.loopDepth = loops) (hdepth : s.depth + Node.allNesting nodes ≤ maxDepth)
    (hlegible : Node.AllLegible nodes)
    (hbefore : s.Before .outside (Node.canonicals nodes).toList) :
    ∃ again after, DerivesRoot setting again s after ∧
      again.map Node.unplaced = nodes.map Node.unplaced ∧ after.trees = s.trees := by
  induction hthreads generalizing s with
  | nil => exact ⟨[], s, .finished hbefore.peek_eof, rfl, rfl⟩
  | @cons before middle after first rest hfirst hrest ih =>
    rw [Node.allNesting] at hdepth
    obtain ⟨hnode, hnodes⟩ := Node.allLegible_cons.mp hlegible
    obtain ⟨hbehind, hchain⟩ := List.isChain_cons.mp hapart
    rw [Node.canonicals, String.toList_append] at hbefore
    have hends (htext : first.isText = true) : EndsText (Node.canonicals rest).toList := by
      have hrow := hrest.endsText (fun second hsecond ↦ hbehind second hsecond htext) .finished
      rwa [List.append_nil] at hrow
    obtain ⟨again, afterFirst, hderives, hagain, hreaches⟩ :=
      hfirst.derives hvisible hloops (by omega) hnode hends hbefore
    obtain ⟨others, final, hothers, hmap, htrees⟩ :=
      ih hchain hreaches.visible_eq (hreaches.loopDepth_eq.trans hloops)
        (by rw [hreaches.depth_eq]; omega) hnodes hreaches.before
    have heof : s.peek.kind ≠ .eof := by
      intro heof
      have hskip : s.skipSpaces = s := State.skipSpaces_of_peek (by simp [heof])
      exact peek_ne_eof_of_statement hderives (hskip.symm ▸ heof)
    refine ⟨again :: others, final,
      .statement heof (not_opensDefinition hderives) hderives hothers, ?_,
      htrees.trans hreaches.trees_eq⟩
    simp only [List.map_cons, hagain, hmap]

/-- Statements are read again also with one text in place of texts in a row. -/
theorem Threads.joinTexts
    (hthreads : Threads (RereadsStatement setting loops) visible nodes last) :
    Threads (RereadsStatement setting loops) visible (joinTexts nodes) last := by
  induction hthreads with
  | nil => exact .nil
  | @cons before middle after node rest hnode hrest ih =>
    rw [Syntax.joinTexts]
    rcases joinText_cases node (Syntax.joinTexts rest) with
      ⟨position, first, start, second, more, rfl, heq, hjoin⟩ | ⟨hjoin, -⟩
    · rw [hjoin]
      rw [heq] at ih
      cases ih with
      | cons hsecond hmore =>
        obtain ⟨rfl, hne⟩ := hnode.text rfl
        obtain ⟨rfl, -⟩ := hsecond.text rfl
        refine .cons (rereads_text fun hempty ↦ hne ?_) hmore
        exact (String.append_eq_empty_iff.mp hempty).1
    · rw [hjoin]
      exact .cons hnode ih

end Roots

end Parse

/-- The canonical text of the tree that a source is parsed to under its own name is accepted and
gives the one tree that it is, up to positions and with one text in place of texts in a row. Its
texts have no left brace, its invocations have names of ASCII that can be seen, and its nesting is
not too deep for the parser. -/
theorem canonical_reparses {name source : String} {isFunction : String → Bool} {set : TreeSet}
    (hparse : parse name Delimiters.braces isFunction source = .ok set) :
    ∃ tree, set.find? name = some tree ∧
      (tree.root.Legible → tree.root.nesting ≤ Parse.maxDepth →
        ∃ again, parse name Delimiters.braces isFunction tree.root.canonical = .ok ⟨[again]⟩ ∧
          again.name = name ∧
          again.root.nodes.map Node.unplaced = (joinTexts tree.root.nodes).map Node.unplaced ∧
          again.root.canonical = tree.root.canonical) := by
  obtain ⟨tree, hfind⟩ : ∃ tree, set.find? name = some tree := by
    obtain ⟨nodes, after, -, hdefine⟩ := parse_eq_ok_iff.mp hparse
    rw [Parse.eq_merge_of_define hdefine]
    exact TreeSet.exists_find?_merge after.trees _
  refine ⟨tree, hfind, fun hlegible hnesting ↦ ?_⟩
  obtain ⟨last, hthreads⟩ := rereads_of_parse hparse (List.mem_of_find?_eq_some hfind)
  obtain ⟨treeName, parseName, rootPosition, nodes⟩ := tree
  have hcanonical : Body.canonical ⟨rootPosition, nodes⟩ = Node.canonicals (joinTexts nodes) :=
    (canonicals_joinTexts nodes).symm
  have hroom : 0 + Node.allNesting (joinTexts nodes) ≤ Parse.maxDepth := by
    rw [allNesting_joinTexts, Nat.zero_add]
    exact hnesting
  let start := Parse.State.initial (lex Delimiters.braces (Body.canonical ⟨rootPosition, nodes⟩))
  have hbefore : start.Before .outside (Node.canonicals (joinTexts nodes)).toList :=
    ⟨{}, by rw [← hcanonical]; rfl⟩
  obtain ⟨again, after, hderives, hmap, htrees⟩ :=
    hthreads.joinTexts.derives_root (isChain_joinTexts nodes) (s := start) rfl rfl hroom
      (allLegible_joinTexts hlegible) hbefore
  refine ⟨⟨name, name, ⟨start.peek.position, again⟩⟩, ?_, rfl, hmap, ?_⟩
  · exact parse_eq_ok_iff.mpr ⟨again, after, hderives, Parse.define_of_empty htrees _⟩
  · exact (Node.canonicals_congr hmap).trans (canonicals_joinTexts nodes)

/-- A definition between two texts, and a condition with an else part that goes on with another. -/
def rowsSource : String :=
  "Rows\x7b\x7bdefine \"row\"\x7d\x7d-\x7b\x7bend\x7d\x7d: " ++
    "\x7b\x7bif $n := .Rows\x7d\x7d\x7b\x7btemplate \"row\" ($n)\x7d\x7d" ++
    "\x7b\x7belse if .Rest\x7d\x7d?\x7b\x7bend\x7d\x7d"

/-- The canonical text of the source, without the definition and with an end for each condition. -/
def rowsCanonical : String :=
  "Rows: \x7b\x7bif $n := .Rows\x7d\x7d\x7b\x7btemplate \"row\" ($n)\x7d\x7d" ++
    "\x7b\x7belse\x7d\x7d\x7b\x7bif .Rest\x7d\x7d?\x7b\x7bend\x7d\x7d\x7b\x7bend\x7d\x7d"

/-- What the source is parsed to. -/
def rowsRoot : Body :=
  ⟨⟨0, 1⟩, [.text ⟨0, 1⟩ "Rows", .text ⟨28, 1⟩ ": ",
    .branch .conditional ⟨35, 1⟩
      ⟨⟨35, 1⟩, false, [⟨⟨35, 1⟩, ["$n"]⟩], [⟨⟨41, 1⟩, [.field ⟨41, 1⟩ ["Rows"]]⟩]⟩
      ⟨⟨48, 1⟩, [.template ⟨59, 1⟩ "row" (some ⟨⟨65, 1⟩, false, [], [⟨⟨65, 1⟩,
        [.pipeline ⟨⟨66, 1⟩, false, [], [⟨⟨66, 1⟩, [.var ⟨⟨66, 1⟩, ["$n"]⟩]⟩]⟩]⟩]⟩)]⟩
      (some ⟨⟨78, 1⟩, [.branch .conditional ⟨81, 1⟩
        ⟨⟨81, 1⟩, false, [], [⟨⟨81, 1⟩, [.field ⟨81, 1⟩ ["Rest"]]⟩]⟩
        ⟨⟨88, 1⟩, [.text ⟨88, 1⟩ "?"]⟩ none]⟩)]⟩

/-- The canonical text of the source is parsed back, with one text before the condition. -/
theorem canonical_reparses_rows :
    ∃ set again, parse "page" Delimiters.braces (fun _ ↦ false) rowsSource = .ok set ∧
      set.find? "page" = some ⟨"page", "page", rowsRoot⟩ ∧
      rowsRoot.Legible ∧ rowsRoot.nesting ≤ Parse.maxDepth ∧
      parse "page" Delimiters.braces (fun _ ↦ false) rowsCanonical = .ok ⟨[again]⟩ ∧
      again.root.nodes.map Node.unplaced = (joinTexts rowsRoot.nodes).map Node.unplaced ∧
      again.root.canonical = rowsCanonical := by
  have hparse : parse "page" Delimiters.braces (fun _ ↦ false) rowsSource =
      .ok ⟨[⟨"row", "page", ⟨⟨20, 1⟩, [.text ⟨20, 1⟩ "-"]⟩⟩, ⟨"page", "page", rowsRoot⟩]⟩ := by
    cbv
  have hlegible : rowsRoot.Legible := by
    simp [rowsRoot, Body.Legible, Body.leaves, Pipeline.leaves, Command.allLeaves, Command.leaves,
      Node.allLeaves, Node.leaves, Variable.leaves, fieldLeaves, Leaf.Legible, isMark]
  have hnesting : rowsRoot.nesting ≤ Parse.maxDepth := by decide +kernel
  have hcanonical : rowsRoot.canonical = rowsCanonical := by
    cbv
  obtain ⟨tree, hfind, hreparses⟩ := canonical_reparses hparse
  obtain rfl : ⟨"page", "page", rowsRoot⟩ = tree := Option.some.inj hfind
  obtain ⟨again, hagain, -, hmap, htext⟩ := hreparses hlegible hnesting
  exact ⟨_, again, hparse, hfind, hlegible, hnesting, hcanonical ▸ hagain, hmap,
    htext.trans hcanonical⟩

end Stencil.Syntax
