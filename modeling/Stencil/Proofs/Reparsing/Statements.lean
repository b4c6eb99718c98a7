import Stencil.Proofs.Literals.Grammar
import Stencil.Proofs.Reparsing.Pipelines

/-!
# Statements that are read again

A statement of a source is read again from its canonical text, wherever the same variables are
visible, inside as many loops, and where there is room for its nesting (`RereadsStatement`). A text
has to stand in front of an action or the end of the source, and every other statement starts with a
left delimiter, so statements stand one after the other if no text follows a text
(`Threads.derives_statements`).

An else that continues a control structure is written as a structure of its own inside the else
part. A block is written as the invocation of the template that it defines.
-/

set_option autoImplicit false
set_option relaxedAutoImplicit false

namespace Stencil.Syntax

open Delimiters

/-! ### Names of templates -/

/-- A character of ASCII that can be seen, or a blank, is shown as it is. -/
theorem isVisible_of_isMark {c : Char} (hmark : isMark c = true) :
    Diagnostic.isVisible c = true := by
  have hshown : ∀ n < 0x7F, 0x20 ≤ n → Diagnostic.isVisible (Char.ofNat n) = true := by
    decide +kernel
  simp only [isMark, Bool.and_eq_true, decide_eq_true_eq] at hmark
  rw [← Char.ofNat_toNat c]
  exact hshown c.toNat hmark.2 hmark.1

/-- Such a character is written as it is, or behind a backslash if it is one or a quote. -/
theorem escape_of_isMark {c : Char} (hmark : isMark c = true) :
    (Diagnostic.escape '"' c = ['\\', c] ∧ (c = '\\' ∨ c = '"')) ∨
      (Diagnostic.escape '"' c = [c] ∧ c ≠ '\\' ∧ c ≠ '"' ∧ c ≠ '\n') := by
  have hne {control : Char} (hcontrol : isMark control = false) : c ≠ control := by
    rintro rfl
    rw [hmark] at hcontrol
    cases hcontrol
  have hnul : c ≠ '\x00' := hne (by decide)
  have htab : c ≠ '\t' := hne (by decide)
  have hreturn : c ≠ '\r' := hne (by decide)
  have hline : c ≠ '\n' := hne (by decide)
  by_cases hquoted : c = '\\' ∨ c = '"'
  · refine .inl ⟨?_, hquoted⟩
    simp [Diagnostic.escape, hnul, htab, hreturn, hline, hquoted]
  · obtain ⟨hbackslash, hquote⟩ := not_or.mp hquoted
    refine .inr ⟨?_, hbackslash, hquote, hline⟩
    simp [Diagnostic.escape, hnul, htab, hreturn, hline, hbackslash, hquote,
      isVisible_of_isMark hmark]

/-- A quoted name ends at the quote behind it. -/
theorem quotedLength_escape {name : List Char} (hname : ∀ c ∈ name, isMark c = true)
    (more : List Char) :
    quotedLength '"' (name.flatMap (Diagnostic.escape '"') ++ '"' :: more) =
      some ((name.flatMap (Diagnostic.escape '"')).length + 1) := by
  induction name with
  | nil => simp [quotedLength]
  | cons c name ih =>
    have hrest := ih fun d hd ↦ hname d (List.mem_cons_of_mem c hd)
    rcases escape_of_isMark (hname c List.mem_cons_self) with
      ⟨hescape, hquoted⟩ | ⟨hescape, hbackslash, hquote, hline⟩
    · have hline : c ≠ '\n' := by rcases hquoted with rfl | rfl <;> decide
      simp [hescape, quotedLength, hrest, hline]
    · simp [hescape, quotedLength, hrest, hbackslash, hquote, hline]

/-- A quoted name has the bytes of the name. -/
theorem unescape_escape {name : List Char} (hname : ∀ c ∈ name, isMark c = true) :
    Literal.unescape '"' (name.flatMap (Diagnostic.escape '"')) =
      some (name.flatMap String.utf8EncodeChar) := by
  induction name with
  | nil => simp [Literal.unescape]
  | cons c name ih =>
    have hrest := ih fun d hd ↦ hname d (List.mem_cons_of_mem c hd)
    rcases escape_of_isMark (hname c List.mem_cons_self) with
      ⟨hescape, hquoted⟩ | ⟨hescape, hbackslash, hquote, hline⟩
    · have hunit (rest : List Char) : Literal.escapeUnit '"' (c :: rest) =
          some (String.utf8EncodeChar c, 1) := by
        rcases hquoted with rfl | rfl <;> rfl
      simp [hescape, Literal.unescape, hunit, hrest]
    · simp [hescape, Literal.unescape, hbackslash, hquote, hline, hrest]

/-- A name between quotes stands alone. -/
theorem standalone_quote {name : String} (hname : ∀ c ∈ name.toList, isMark c = true) :
    Standalone .string Anything (Diagnostic.quote name).toList := by
  rw [Diagnostic.quote, String.toList_ofList]
  refine ⟨.plain (by decide) (by decide),
    fun more _ ↦ ⟨_, _, rfl, lexeme_eq_ok_iff.mpr (.string ?_)⟩⟩
  rw [List.append_assoc, List.singleton_append, quotedLength_escape hname more]
  simp

/-- The value of a name between quotes is the name. -/
theorem unquote_quote {name : String} (hname : ∀ c ∈ name.toList, isMark c = true) :
    Literal.unquote (Diagnostic.quote name) = some name := by
  have hbytes : String.fromUTF8? ⟨(name.toList.flatMap String.utf8EncodeChar).toArray⟩ =
      some name := fromUTF8?_eq_some_iff.mpr rfl
  rw [Diagnostic.quote, Literal.unquote_enclosed]
  simp [Literal.unescapeText, unescape_escape hname, hbytes]

/-! ### Keywords -/

/-- A keyword stands alone where a name may end. -/
theorem standalone_keyword {word : String} {keyword : Keyword}
    (hword : Keyword.ofWord? word = some keyword) :
    Standalone (.keyword keyword) EndsName word.toList := by
  have hkind : wordKind word = .keyword keyword := by rw [wordKind, hword]
  have hletters : word.toList.all isNameChar = true ∧
      word.toList.head?.any (!·.isDigit) = true := by
    unfold Keyword.ofWord? at hword
    split at hword <;> first | exact ⟨rfl, rfl⟩ | cases hword
  obtain ⟨hnamed, hdigit⟩ := hletters
  have hsame : String.ofList word.toList = word := String.ofList_toList
  cases hchars : word.toList with
  | nil => simp [hchars] at hdigit
  | cons c value =>
    rw [hchars] at hnamed hdigit hsame
    have hstands := standalone_word (List.all_eq_true.mp hnamed) (by simpa using hdigit)
    rwa [hsame, hkind] at hstands

/-- The word of a control structure is its keyword. -/
theorem ofWord?_word (kind : BranchKind) :
    Keyword.ofWord? kind.word = some (Parse.branchWord kind) := by
  cases kind <;> rfl

theorem braced_append (text : String) (more : List Char) :
    (braced text).toList ++ more =
      '\x7b' :: '\x7b' :: (text.toList ++ '\x7d' :: '\x7d' :: more) := by
  simp [braced]

/-- A text ends in front of an action. -/
theorem Solid.endsText {inner : List Char} (hsolid : Solid inner) :
    EndsText ('\x7b' :: '\x7b' :: inner) :=
  .delimiter hsolid.markerBlank?_eq

namespace Parse

/-! ### The marks of an action -/

section Actions

variable {setting : Setting} {s after : State} {visible : List String} {text more : List Char}
  {mode : Mode}

theorem State.Reaches.leaveAction (hreaches : s.Reaches after visible mode text) :
    s.Reaches after.leaveAction visible mode text :=
  ⟨hreaches.before, hreaches.visible_eq, hreaches.trees_eq, hreaches.loopDepth_eq,
    hreaches.depth_eq⟩

/-- An action is opened. -/
theorem State.Before.opens (hsolid : Solid text)
    (hbefore : s.Before .outside ('\x7b' :: '\x7b' :: text)) :
    ∃ item opened, s.Reads item opened ∧ item.kind = .leftDelim ∧
      s.Reaches (opened.enterAction item.position.line) s.visible (.inside 0) text := by
  obtain ⟨item, opened, hread, hkind, -, hreaches⟩ :=
    hbefore.reads hsolid.emits_leftDelim (by simp)
  exact ⟨item, opened, hread, hkind, hreaches.before, hreaches.visible_eq, hreaches.trees_eq,
    hreaches.loopDepth_eq, hreaches.depth_eq⟩

/-- An action is opened with a keyword, and what is derived of it is a statement. -/
theorem State.Before.opens_keyword (setting : Setting) {word : String} {keyword : Keyword}
    (hword : Keyword.ofWord? word = some keyword) (hmore : EndsName more)
    (hbefore : s.Before .outside ('\x7b' :: '\x7b' :: (word.toList ++ more))) :
    ∃ opened mark afterWord, opened.Reads mark afterWord ∧ mark.kind = .keyword keyword ∧
      s.Reaches afterWord s.visible (.inside 0) more ∧
      ∀ {found last}, DerivesPassage setting (.action found) opened last →
        DerivesPassage setting (.statement found) s last.leaveAction := by
  have hstands := standalone_keyword hword
  have hsolid := hstands.solid.append more
  obtain ⟨item, opened, hread, hkind, hreaches⟩ := hbefore.opens hsolid
  obtain ⟨mark, afterWord, hmark, hmarkKind, -, hafter⟩ :=
    (hreaches.before.faces_solid hsolid).reads
      (hstands.emits hmore (show nextDepth 0 (.keyword keyword) = some 0 from rfl))
  rw [hreaches.visible_eq] at hafter
  exact ⟨_, mark, afterWord, hmark, hmarkKind, hreaches.trans hafter,
    fun hfound ↦ .delimited hread hkind hfound⟩

/-- An action is closed. -/
theorem State.Before.closes (hbefore : s.Before (.inside 0) ('\x7d' :: '\x7d' :: more)) :
    ∃ item after, s.Reads item after ∧ item.kind = .rightDelim ∧
      s.Reaches after s.visible .outside more := by
  obtain ⟨item, after, hread, hkind, -, hreaches⟩ :=
    hbefore.reads (emits_rightDelim more) (by simp)
  exact ⟨item, after, hread, hkind, hreaches⟩

end Actions

/-! ### Single statements -/

/-- That a statement is read again wherever `before` are visible, inside so many loops; it leaves
`after` visible. -/
structure RereadsStatement (setting : Setting) (loops : Nat) (before : List String) (node : Node)
    (after : List String) : Prop where
  text : node.isText = true → after = before ∧ node.canonical ≠ ""
  action : node.isText = false → ∀ more, EndsText (node.canonical.toList ++ more)
  derives : ∀ {s : State} {more : List Char}, s.visible = before → s.loopDepth = loops →
    s.depth + node.nesting ≤ maxDepth → node.Legible →
    (node.isText = true → EndsText more) →
    s.Before .outside (node.canonical.toList ++ more) →
    ∃ again last, DerivesPassage setting (.statement (.node again)) s last ∧
      again.unplaced = node.unplaced ∧ s.Reaches last after .outside more

section Statements

variable {setting : Setting} {loops : Nat} {before after : List String} {position : Position}

/-- A text that is not empty is read again. -/
theorem rereads_text {value : String} (hne : value ≠ "") :
    RereadsStatement setting loops before (.text position value) before := by
  refine ⟨fun _ ↦ ⟨rfl, hne⟩, fun hkind ↦ (by cases hkind),
    fun {s more} hvisible _ _ hlegible hmore hbefore ↦ ?_⟩
  have hfree : '\x7b' ∉ value.toList := hlegible (.text position value) (by simp [Node.leaves])
  have hchars : value.toList ≠ [] := by simpa using hne
  obtain ⟨item, last, hread, hkind, hvalue, hreaches⟩ :=
    hbefore.reads (emits_text hchars hfree (hmore rfl)) (by simp)
  rw [String.ofList_toList] at hvalue
  rw [hvisible] at hreaches
  refine ⟨_, last, .text hread hkind, ?_, hreaches⟩
  rw [hvalue]
  rfl

/-- A comment is read again. -/
theorem rereads_comment {item : Item} (hkind : item.kind = .comment)
    (hlegible : item.Legible braces) :
    RereadsStatement setting loops before (.comment position item.value) before := by
  obtain ⟨kind, start, value⟩ := item
  subst hkind
  obtain ⟨hmarks, rest, hlength⟩ := hlegible
  have htext (more : List Char) : (Node.canonical (.comment position value)).toList ++ more =
      '\x7b' :: '\x7b' :: (value.toList ++ '\x7d' :: '\x7d' :: more) :=
    braced_append value more
  refine ⟨fun hkind ↦ (by cases hkind), fun _ more ↦ ?_, fun {s more} hvisible _ _ _ _ hbefore ↦ ?_⟩
  · rw [htext]
    obtain ⟨content, hcontent⟩ := hmarks
    have hmarker (text : List Char) : markerBlank? (['/', '*'] ++ text) = none := rfl
    refine .delimiter ?_
    rw [← hcontent, List.append_assoc]
    exact hmarker _
  · rw [htext] at hbefore
    obtain ⟨other, last, hread, hother, hvalue, hreaches⟩ :=
      hbefore.reads (emits_comment hmarks hlength more) (by simp)
    rw [String.ofList_toList] at hvalue
    rw [hvisible] at hreaches
    refine ⟨_, last, .comment hread hother, ?_, hreaches⟩
    rw [hvalue]
    rfl

/-- A keyword by itself in an action is read again if the action may stand in the loops. -/
theorem rereads_keyword {node : Node} {word : String} {keyword : Keyword}
    (hword : Keyword.ofWord? word = some keyword) (hkind : node.isText = false)
    (hcanonical : node.canonical = braced word)
    (hderives : ∀ {s mark afterWord last}, s.Reads mark afterWord → mark.kind = .keyword keyword →
      afterWord.ReadsKind .rightDelim last → last.loopDepth = loops →
      ∃ again, DerivesPassage setting (.action (.node again)) s last ∧
        again.unplaced = node.unplaced) :
    RereadsStatement setting loops before node before := by
  have htext (more : List Char) : node.canonical.toList ++ more =
      '\x7b' :: '\x7b' :: (word.toList ++ '\x7d' :: '\x7d' :: more) := by
    rw [hcanonical, braced_append]
  refine ⟨by simp [hkind], fun _ more ↦ ?_, fun {s more} hvisible hloops _ _ _ hbefore ↦ ?_⟩
  · rw [htext]
    exact ((standalone_keyword hword).solid.append _).endsText
  · rw [htext] at hbefore
    obtain ⟨opened, mark, afterWord, hread, hkeyword, hopened, hstatement⟩ :=
      hbefore.opens_keyword setting hword (.operand .delimiter)
    obtain ⟨closer, last, hclose, hcloser, hclosed⟩ := hopened.before.closes
    have hreaches := hopened.trans hclosed
    obtain ⟨again, haction, hagain⟩ :=
      hderives hread hkeyword ⟨closer, hclose, hcloser⟩ (hreaches.loopDepth_eq.trans hloops)
    rw [hopened.visible_eq, hvisible] at hreaches
    exact ⟨again, last.leaveAction, hstatement haction, hagain, hreaches.leaveAction⟩

/-- A break in a loop is read again. -/
theorem rereads_break (hloops : loops ≠ 0) :
    RereadsStatement setting loops before (.breakLoop position) before := by
  have hword : Keyword.ofWord? "break" = some .breakWord := rfl
  refine rereads_keyword hword rfl rfl fun hread hkind hclose hlast ↦ ?_
  exact ⟨_, .breakAction hread hkind hclose (hlast ▸ hloops), rfl⟩

/-- A continue in a loop is read again. -/
theorem rereads_continue (hloops : loops ≠ 0) :
    RereadsStatement setting loops before (.continueLoop position) before := by
  have hword : Keyword.ofWord? "continue" = some .continueWord := rfl
  refine rereads_keyword hword rfl rfl fun hread hkind hclose hlast ↦ ?_
  exact ⟨_, .continueAction hread hkind hclose (hlast ▸ hloops), rfl⟩

/-- A pipeline in an action is read again. -/
theorem RereadsPipeline.action {found : Pipeline}
    (hfound : RereadsPipeline setting 0 before found after) :
    RereadsStatement setting loops before (.action position found) after := by
  have htext (more : List Char) : (Node.canonical (.action position found)).toList ++ more =
      '\x7b' :: '\x7b' :: (found.canonical.toList ++ '\x7d' :: '\x7d' :: more) :=
    braced_append found.canonical more
  refine ⟨fun hkind ↦ (by cases hkind), fun _ more ↦ ?_,
    fun {s more} hvisible _ hdepth _ _ hbefore ↦ ?_⟩
  · rw [htext]
    exact (hfound.solid.append _).endsText
  · rw [htext] at hbefore
    have hsolid := hfound.solid.append ('\x7d' :: '\x7d' :: more)
    obtain ⟨item, opened, hread, hkind, hopened⟩ := hbefore.opens hsolid
    obtain ⟨again, last, hderives, hagain, hlast⟩ :=
      hfound.derives .command rfl (hopened.visible_eq.trans hvisible)
        (hopened.depth_eq.symm ▸ hdepth) .delimiter (hopened.before.faces_solid hsolid)
    obtain ⟨first, afterFirst, hfirst, hstart⟩ := exists_reads_of_pipeline hderives
    refine ⟨_, last.leaveAction, .delimited hread hkind
      (.pipelineAction hfirst (startsControl_of_startsOperand hstart) hderives), ?_,
      (hopened.trans hlast).leaveAction⟩
    exact congrArg (Node.action {}) hagain

/-- The text of the argument of an invocation and the end of its action, in front of a text. -/
def argumentText (more : List Char) : Option Pipeline → List Char
  | none => '\x7d' :: '\x7d' :: more
  | some inner => ' ' :: (inner.canonical.toList ++ '\x7d' :: '\x7d' :: more)

/-- The text of an invocation is that of the name of the template and of the argument. -/
theorem template_append (name : String) (argument : Option Pipeline) (more : List Char) :
    (Node.canonical (.template position name argument)).toList ++ more =
      '\x7b' :: '\x7b' :: ("template".toList ++
        ' ' :: ((Diagnostic.quote name).toList ++ argumentText more argument)) := by
  cases argument <;> simp [Node.canonical, Node.write, braced, argumentText]

/-- An invocation starts an action, whatever the name of the template. -/
theorem endsText_template (name : String) (argument : Option Pipeline) (more : List Char) :
    EndsText ((Node.canonical (.template position name argument)).toList ++ more) := by
  have hkeyword : Keyword.ofWord? "template" = some .templateWord := rfl
  rw [template_append]
  exact ((standalone_keyword hkeyword).solid.append _).endsText

/-- The name of an invoked template is read again. -/
theorem derives_invocation (setting : Setting) {s : State} {name : String} {behind : List Char}
    (hname : ∀ c ∈ name.toList, isMark c = true)
    (hbefore : s.Before .outside ('\x7b' :: '\x7b' ::
      ("template".toList ++ ' ' :: ((Diagnostic.quote name).toList ++ behind)))) :
    ∃ opened mark afterWord start afterName, opened.Reads mark afterWord ∧
      mark.kind = .keyword .templateWord ∧ NamesTemplate afterWord name start afterName ∧
      s.Reaches afterName s.visible (.inside 0) behind ∧
      ∀ {found last}, DerivesPassage setting (.action found) opened last →
        DerivesPassage setting (.statement found) s last.leaveAction := by
  have hstands := standalone_quote hname
  have hsolid := hstands.solid.append behind
  obtain ⟨opened, mark, afterWord, hread, hkind, hopened, hstatement⟩ :=
    hbefore.opens_keyword setting rfl (.operand (.blank hsolid))
  obtain ⟨item, afterName, hitem, hstring, hvalue, hnamed⟩ :=
    (hopened.before.faces_behind hsolid).reads (hstands.emits trivial rfl)
  rw [String.ofList_toList] at hvalue
  rw [hopened.visible_eq] at hnamed
  exact ⟨opened, mark, afterWord, item.position, afterName, hread, hkind,
    .name hitem (.inl hstring) (hvalue ▸ unquote_quote hname), hopened.trans hnamed, hstatement⟩

/-- The invocation of a template without an argument is read again. -/
theorem rereads_template {name : String} :
    RereadsStatement setting loops before (.template position name none) before := by
  refine ⟨fun hkind ↦ (by cases hkind), fun _ ↦ endsText_template name none,
    fun {s more} hvisible _ _ hlegible _ hbefore ↦ ?_⟩
  rw [template_append] at hbefore
  have hname : ∀ c ∈ name.toList, isMark c = true :=
    hlegible (.template position name) (by simp [Node.leaves])
  obtain ⟨opened, mark, afterWord, start, afterName, hread, hkind, hnames, hnamed, hstatement⟩ :=
    derives_invocation setting hname hbefore
  obtain ⟨closer, last, hclose, hcloser, hclosed⟩ := hnamed.before.closes
  rw [hnamed.visible_eq, hvisible] at hclosed
  exact ⟨_, last.leaveAction,
    hstatement (.templateBare hread hkind hnames ⟨closer, hclose, hcloser⟩), rfl,
    (hnamed.trans hclosed).leaveAction⟩

/-- The invocation of a template with an argument is read again. -/
theorem RereadsPipeline.template {name : String} {argument : Pipeline}
    (hargument : RereadsPipeline setting 0 before argument after) :
    RereadsStatement setting loops before (.template position name (some argument)) after := by
  refine ⟨fun hkind ↦ (by cases hkind), fun _ ↦ endsText_template name (some argument),
    fun {s more} hvisible _ hdepth hlegible _ hbefore ↦ ?_⟩
  rw [template_append] at hbefore
  have hname : ∀ c ∈ name.toList, isMark c = true :=
    hlegible (.template position name) (by simp [Node.leaves])
  have hsolid := hargument.solid.append ('\x7d' :: '\x7d' :: more)
  obtain ⟨opened, mark, afterWord, start, afterName, hread, hkind, hnames, hnamed, hstatement⟩ :=
    derives_invocation setting hname hbefore
  obtain ⟨again, last, hderives, hagain, hlast⟩ :=
    hargument.derives .template rfl (hnamed.visible_eq.trans hvisible)
      (hnamed.depth_eq.symm ▸ hdepth) .delimiter (hnamed.before.faces_behind hsolid)
  obtain ⟨next, afterNext, hnext, hstart⟩ := exists_reads_of_pipeline hderives
  have hopen : next.kind ≠ .rightDelim := by
    intro hclosed
    rw [hclosed] at hstart
    cases hstart
  refine ⟨_, last.leaveAction, hstatement (.templateWith hread hkind hnames hnext hopen hderives),
    ?_, (hnamed.trans hlast).leaveAction⟩
  exact congrArg (fun inner ↦ Node.template {} name (some inner)) hagain

end Statements

end Parse

end Stencil.Syntax
