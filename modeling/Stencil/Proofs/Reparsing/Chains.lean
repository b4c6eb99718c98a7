import Stencil.Proofs.Reparsing.RoundTrip

/-!
# Chains of conditions

An else part may go on with a further condition under the same end, and so on (`chainSource`). The
parser reads such a chain without going deeper than its first body, however long it is, while each
condition lies in the else part of the one before. So the bodies of an accepted source can lie
inside each other to any depth (`exists_nesting_gt`), beyond the one that the parser admits
(`nesting_chainSource`).

The proof is an induction on the conditions that follow. Behind each keyword the parser faces the
rest of the chain from the depth at which the chain starts.
-/

set_option autoImplicit false
set_option relaxedAutoImplicit false

namespace Stencil.Syntax

open Delimiters

/-! ### The text of a chain -/

/-- The text behind the head of a condition that so many further ones follow. -/
def chainText : Nat → List Char
  | 0 => (braced "end").toList
  | more + 1 => (braced "else if .").toList ++ chainText more

/-- The text of a condition that so many further ones follow, from its keyword on. -/
def conditionText (more : Nat) : List Char :=
  "if".toList ++ ' ' :: '.' :: '\x7d' :: '\x7d' :: chainText more

/-- A condition that so many further ones follow, under one end. -/
def chainSource (more : Nat) : String :=
  String.ofList ('\x7b' :: '\x7b' :: conditionText more)

example : chainSource 1 =
    "\x7b\x7bif .\x7d\x7d\x7b\x7belse if .\x7d\x7d\x7b\x7bend\x7d\x7d" := by
  decide

theorem chainText_succ (more : Nat) :
    chainText (more + 1) = '\x7b' :: '\x7b' :: ("else".toList ++ ' ' :: conditionText more) := by
  simp [chainText, conditionText, braced]

namespace Parse

section Conditions

variable (setting : Setting) {s : State} {more : Nat}

/-- The dot as the head of a condition. -/
def dotHead : Pipeline := ⟨{}, false, [], [⟨{}, [.dot {}]⟩]⟩

/-- The dot is read as the head of a condition. -/
theorem rereads_dotHead (visible : List String) (further : Nat) :
    RereadsPipeline setting further visible dotHead visible := by
  have hlexes : Lexes braces '.' ([] ++ ['\x7d', '\x7d']) (.keyword .dot) ([] : List Char).length :=
    .field (by decide) (by rfl)
  have hterm : IsTerm setting visible ⟨.keyword .dot, {}, "."⟩ (.dot {}) := .dot rfl
  have hdot : RereadsOperand setting visible (.dot {}) visible :=
    (hterm.rereads (hlexes.legible {})).operand .alone hterm.path_ne_nil
  have hcommand : RereadsCommand setting visible ⟨{}, [.dot {}]⟩ visible :=
    ⟨List.cons_ne_nil _ _, .cons hdot .nil⟩
  exact rereads_commands (.cons hcommand .nil) (List.cons_ne_nil _ _) rfl

theorem solid_dotHead (rest : List Char) : Solid ('.' :: '\x7d' :: '\x7d' :: rest) :=
  (rereads_dotHead ⟨"", fun _ ↦ false⟩ [] 0).solid.append _

theorem standalone_if : Standalone (.keyword .ifWord) EndsName "if".toList :=
  standalone_keyword rfl

/-- The keyword of a condition is the first item of its text. -/
theorem emits_condition (more : Nat) :
    Emits (.inside 0) (conditionText more) (.keyword .ifWord) "if" (.inside 0)
      (' ' :: '.' :: '\x7d' :: '\x7d' :: chainText more) :=
  standalone_if.emits (.operand (.blank (solid_dotHead _))) rfl

theorem solid_condition (more : Nat) : Solid (conditionText more) :=
  standalone_if.solid.append _

/-- Behind the keyword of a condition its head is read, up to the rest of the chain. -/
theorem derives_dotHead {rest : List Char} (hdepth : s.depth ≤ maxDepth)
    (hbefore : s.Before (.inside 0) (' ' :: '.' :: '\x7d' :: '\x7d' :: rest)) :
    ∃ head afterHead,
      DerivesPhrase setting (.pipeline (clauseOf .conditional) .rightDelim head) s afterHead ∧
      s.Reaches afterHead s.visible .outside rest := by
  have hhead := rereads_dotHead setting s.visible (furtherVariables (clauseOf .conditional))
  obtain ⟨head, afterHead, hderives, -, hreaches⟩ :=
    hhead.derives (clauseOf .conditional) rfl rfl hdepth .delimiter
      (hbefore.faces_behind (solid_dotHead rest))
  exact ⟨head, afterHead, hderives, hreaches⟩

/-- Before a further condition the body of the one before ends, and the keyword is the next item.
-/
theorem derives_further (hdepth : s.depth < maxDepth)
    (hbefore : s.Before .outside (chainText (more + 1))) :
    ∃ first position after,
      DerivesPassage setting (.branchBody .conditional first (.otherwise position)) s after ∧
      after.peek.kind = .keyword .ifWord ∧
      s.Reaches after.advance s.visible (.inside 0)
        (' ' :: '.' :: '\x7d' :: '\x7d' :: chainText more) := by
  rw [chainText_succ] at hbefore
  have hinside : (s.enterBranch .conditional).enter.Before .outside _ := hbefore
  obtain ⟨opened, mark, afterWord, hread, hkind, hopened, hstatement⟩ :=
    hinside.opens_keyword setting rfl (.operand (.blank (solid_condition more)))
  have hfaces := hopened.before.faces_behind (solid_condition more)
  have hpeek := (hfaces.peek (emits_condition more)).1
  have hending := hstatement (.elseWord hread hkind (hpeek ▸ rfl))
  have hbody := DerivesPassage.statementsEnd (peek_ne_eof_of_statement hending) hending
  let after := (afterWord.skipSpaces.leaveAction.leave).leaveBranch .conditional
  have hafter : after.Before (.inside 0) (conditionText more) := hfaces
  have hreaches : s.Reaches after s.visible (.inside 0) (conditionText more) := by
    refine ⟨hafter, hopened.visible_eq, hopened.trees_eq, hopened.loopDepth_eq, ?_⟩
    change afterWord.depth - 1 = s.depth
    rw [hopened.depth_eq]
    rfl
  have hnext := hafter.advance (emits_condition more)
  rw [hreaches.visible_eq] at hnext
  exact ⟨_, _, after, .branchBody (.body hdepth hbody), hpeek, hreaches.trans hnext⟩

/-- A chain is read from behind its first keyword, and its conditions lie inside each other. -/
theorem derives_chain (hdepth : s.depth < maxDepth)
    (hbefore : s.Before (.inside 0) (' ' :: '.' :: '\x7d' :: '\x7d' :: chainText more)) :
    ∃ found last, DerivesPassage setting (.control .conditional found) s last ∧
      more < found.nesting ∧ s.Reaches last s.visible .outside [] := by
  induction more generalizing s with
  | zero =>
    obtain ⟨head, afterHead, hhead, hreaches⟩ := derives_dotHead setting hdepth.le hbefore
    have hempty : RereadsBody setting (s.loopDepth + loopsOf .conditional) s.visible ⟨{}, []⟩
        s.visible := ⟨.nil, .nil⟩
    have hroom : afterHead.depth + 1 ≤ maxDepth := by
      rw [hreaches.depth_eq]
      exact hdepth
    obtain ⟨first, found, last, rfl, hfirst, -, hlast⟩ :=
      hempty.derives_branchBody (readsEnding_end []) hreaches.visible_eq hreaches.loopDepth_eq
        hroom (by simp [Body.Legible, Body.leaves, Node.allLeaves])
        (by simpa [Body.canonical, Node.canonicals, chainText] using hreaches.before)
    refine ⟨_, _, .controlOnly hhead hfirst, ?_, ?_⟩
    · simp only [Node.nesting]
      omega
    · simpa using (hreaches.trans hlast).keepVariables s.visible.length
  | succ more ih =>
    obtain ⟨head, afterHead, hhead, hreaches⟩ := derives_dotHead setting hdepth.le hbefore
    obtain ⟨first, position, afterFirst, hfirst, hpeek, hbehind⟩ :=
      derives_further setting (hreaches.depth_eq.symm ▸ hdepth) hreaches.before
    rw [hreaches.visible_eq] at hbehind
    have hreached := hreaches.trans hbehind
    obtain ⟨inner, last, hinner, hnesting, hlast⟩ :=
      ih (hreached.depth_eq.symm ▸ hdepth) hbehind.before
    rw [hbehind.visible_eq] at hlast
    refine ⟨_, _, .controlContinued hhead hfirst rfl hpeek hinner, ?_, ?_⟩
    · simp only [Node.nesting, Body.nesting, Node.allNesting]
      omega
    · simpa using (hreached.trans hlast).keepVariables s.visible.length

end Conditions

end Parse

/-- For every depth there is a source that is accepted and whose bodies lie inside each other beyond
that depth. -/
theorem exists_nesting_gt (name : String) (isFunction : String → Bool) (depth : Nat) :
    ∃ set tree, parse name braces isFunction (chainSource depth) = .ok set ∧ tree ∈ set.trees ∧
      depth < tree.root.nesting := by
  let setting : Parse.Setting := ⟨name, isFunction⟩
  let start := Parse.State.initial (lex braces (chainSource depth))
  have hbefore : start.Before .outside (chainSource depth).toList := ⟨{}, rfl⟩
  rw [chainSource, String.toList_ofList] at hbefore
  obtain ⟨opened, mark, afterWord, hread, hkind, hopened, hstatement⟩ :=
    hbefore.opens_keyword setting rfl (.operand (.blank (Parse.solid_dotHead _)))
  have hroom : afterWord.depth < Parse.maxDepth := by
    rw [hopened.depth_eq]
    exact Nat.succ_pos _
  obtain ⟨found, last, hfound, hnesting, hlast⟩ :=
    Parse.derives_chain setting hroom hopened.before
  have hword : mark.kind = .keyword (Parse.branchWord .conditional) := hkind
  have hderives := hstatement (.branchAction hread hword hfound)
  have htrees : last.leaveAction.trees = {} := hlast.trees_eq.trans hopened.trees_eq
  have hpeek : start.peek.kind ≠ .eof := by
    rw [(hbefore.peek (Parse.solid_condition depth).emits_leftDelim).1]
    simp
  have hroot : Parse.DerivesRoot setting [found] start last.leaveAction :=
    .statement hpeek (Parse.not_opensDefinition hderives) hderives
      (.finished hlast.before.peek_eof)
  refine ⟨_, _, parse_eq_ok_iff.mpr ⟨_, _, hroot, Parse.define_of_empty htrees _⟩,
    List.mem_singleton_self _, ?_⟩
  simpa [Body.nesting, Node.allNesting] using hnesting

/-- A chain of 201 conditions is accepted, and the bodies of the last one lie in as many others as
the parser admits. -/
theorem nesting_chainSource :
    ∃ set tree, parse "page" braces (fun _ ↦ false) (chainSource 200) = .ok set ∧
      tree ∈ set.trees ∧ Parse.maxDepth < tree.root.nesting :=
  exists_nesting_gt "page" (fun _ ↦ false) 200

end Stencil.Syntax
