import Stencil.Proofs.Json.Scalars
import Stencil.Proofs.Line.Execution
import Stencil.Proofs.Literals.Integers
import Stencil.Proofs.Literals.Values
import Stencil.Proofs.Reparsing.Legible

/-!
# The value of an integer literal

Numbers without a point or an exponent are exact (`integer_literals_exact`). The parser reads one
exactly if it spells an integer that a word holds, the readings are those of this integer, and it is
the value of the literal; any other makes the parser refuse the source, wherever it stands. An
action of such a literal alone writes the integer in decimal (`render_integer`), and the decimal
text of a word spells it (`spellsInteger_toString`).
-/

set_option autoImplicit false
set_option relaxedAutoImplicit false

namespace Stencil.Syntax

open Number Parse

/-! ### Numbers in brackets -/

/-- That a text is a number from its first character to its last, and starts with no point. -/
structure IsNumber (text : List Char) : Prop where
  starts : ∀ c ∈ text.head?, c = '+' ∨ c = '-' ∨ c.isDigit = true
  chars : ∀ c ∈ text, isNumberChar c = true
  ends : afterNumber text = []
  nonempty : text ≠ []

/-- The source of an action of a text. -/
def bracketed (text : String) : String := "[" ++ text ++ "]"

/-- A number between brackets is scanned as an action of a number. -/
theorem scans_number {text : List Char} (hnumber : IsNumber text) :
    Scans Delimiters.brackets .outside ('[' :: (text ++ [']']))
      [.opening none, .item .number text, .closing none] none := by
  obtain ⟨c, value, rfl⟩ := List.exists_cons_of_ne_nil hnumber.nonempty
  have hplain (d : Char) (hd : d ∈ c :: value) := plain_of_isNumberChar (hnumber.chars d hd)
  obtain ⟨hblank, -, hbracket, hslash⟩ := hplain c List.mem_cons_self
  have hopens : Opens Delimiters.brackets ('[' :: (c :: value ++ [']']))
      ⟨[], [], none, c :: (value ++ [']'])⟩ := by
    refine ⟨rfl, ?_, by simp, fun _ ↦ ⟨rfl, ?_⟩, by simp⟩
    · rw [LineTemplate.left_brackets]
      simp [findPattern]
    · have hsecond : ∀ d ∈ (value ++ [']']).head?, isBlank d = false := by
        cases value with
        | nil => simp; decide
        | cons d value => simpa using (hplain d (by simp)).1
      unfold markerBlank?
      split
      next hcons =>
        rw [(List.cons.inj hcons).2] at hsecond
        rw [hsecond _ rfl]
        rfl
      next => rfl
  have hlexeme : lexeme Delimiters.brackets c (value ++ [']']) = .ok (.number, value.length) :=
    lexeme_number (.inr (hnumber.starts c rfl)) hnumber.chars hnumber.ends (by decide)
  have hclosing : closing? Delimiters.brackets (c :: (value ++ [']'])) = none := by
    simp [closing?, startsWithRightMarker_cons, hblank, LineTemplate.right_brackets,
      List.isPrefixOf, hbracket.symm]
  have hend : Scans Delimiters.brackets (.inside 0) [']'] [.closing none] none :=
    .close (LineTemplate.closes_bracket []) (.plain (by decide))
  have haction : ¬ ['/', '*'] <+: c :: (value ++ [']']) := by
    simp [List.cons_prefix_cons, hslash.symm]
  exact .action hopens haction (.item hclosing hlexeme rfl hend)

/-- The items of a number between brackets. -/
theorem lex_number {text : String} (hnumber : IsNumber text.toList) :
    ∃ closing last, lex Delimiters.brackets (bracketed text) =
      [⟨.leftDelim, {}, "["⟩, ⟨.number, ⟨1, 1⟩, text⟩, ⟨.rightDelim, closing, "]"⟩,
        ⟨.eof, last, ""⟩] := by
  have hsource : (bracketed text).toList = '[' :: (text.toList ++ [']']) := by
    simp [bracketed]
  have hscans := scans_number hnumber
  rw [← hsource] at hscans
  have hitems : lex Delimiters.brackets (bracketed text) = _ := hscans.lexFrom_eq {}
  have hstart : Position.next {} '[' = ⟨1, 1⟩ := by decide
  refine ⟨Position.advance ⟨1, 1⟩ text.toList, Position.advance ⟨1, 1⟩ (text.toList ++ [']']),
    hitems.trans ?_⟩
  simp [Scan.items, itemsOf, Piece.item?, Piece.text, lastItem, leftMarker, rightMarker,
    Delimiters.brackets, Delimiters.ofStrings, hstart]

/-- A number between brackets is parsed to an action of its literal. -/
theorem parse_number {text : String} (hnumber : IsNumber text.toList) {literal : NumberLiteral}
    (hliteral : NumberLiteral.ofText ⟨1, 1⟩ text = .ok literal) (name : String)
    (isFunction : String → Bool) :
    parse name Delimiters.brackets isFunction (bracketed text) =
      .ok ⟨[⟨name, name, ⟨{}, [.action ⟨1, 1⟩
        ⟨⟨1, 1⟩, false, [], [⟨⟨1, 1⟩, [.number literal]⟩]⟩]⟩⟩]⟩ := by
  obtain ⟨closing, last, hlex⟩ := lex_number hnumber
  have hrest : (State.initial (lex Delimiters.brackets (bracketed text))).rest = _ := hlex
  have hterm (visible : List String) : IsTerm ⟨name, isFunction⟩ visible
      ⟨.number, ⟨1, 1⟩, text⟩ (.number literal) := .number rfl hliteral
  have hfirst : LineTemplate.StartsTerm ⟨.number, ⟨1, 1⟩, text⟩ := ⟨rfl, rfl, nofun, nofun, nofun⟩
  obtain ⟨after, hderives, hafter, htrees⟩ := LineTemplate.derives_action rfl hfirst rfl hrest
    fun s hinside ↦ by
      obtain ⟨afterNumber, hread, hbehind, htrees⟩ := LineTemplate.exists_reads hinside nofun
      have halone : afterNumber.peek.kind ≠ .field := by
        rw [LineTemplate.peek_of_rest hbehind]
        nofun
      exact ⟨afterNumber, .term hread (hterm s.visible) (.alone halone), hbehind, htrees⟩
  have hpeek : (State.initial (lex Delimiters.brackets (bracketed text))).peek =
      ⟨.leftDelim, {}, "["⟩ := LineTemplate.peek_of_rest hrest
  have hend : after.peek.kind = .eof := by rw [LineTemplate.peek_of_rest hafter]
  have hroot := DerivesRoot.statement (by rw [hpeek]; nofun) (not_opensDefinition hderives) hderives
    (.finished hend)
  refine parse_eq_ok_iff.mpr ⟨_, after, hroot, ?_⟩
  rw [hpeek]
  exact define_of_empty htrees _

/-- The node of a number's action. -/
def numberAction (literal : NumberLiteral) : Node :=
  .action ⟨1, 1⟩ ⟨⟨1, 1⟩, false, [], [⟨⟨1, 1⟩, [.number literal]⟩]⟩

open Exec in
/-- The action of a number writes the value of its literal. -/
theorem runNode_numberAction (frame : Frame) (invoke : Invoker) (dot : Value)
    (literal : NumberLiteral) :
    runNode frame invoke dot (numberAction literal) =
      emit (numberValue literal).output >>= fun _ ↦ pure .normal := by
  have hpipeline : evalPipeline frame dot
      ⟨⟨1, 1⟩, false, [], [⟨⟨1, 1⟩, [.number literal]⟩]⟩ = pure (numberValue literal) := by
    simp [evalPipeline, evalCommands, evalCommand, bindVariables]
  rw [numberAction, runNode, hpipeline]
  rfl

open Exec in
/-- A template of a number's action alone writes the value of the number. -/
theorem render_numberAction (template : Template) (literal : NumberLiteral)
    (htrees : template.trees = ⟨[⟨template.name, template.name, ⟨{}, [numberAction literal]⟩⟩]⟩)
    (data : Value) : template.render data = .ok (numberValue literal).output := by
  have hfind : template.program.trees.find? template.name =
      some ⟨template.name, template.name, ⟨{}, [numberAction literal]⟩⟩ := by
    simp [Template.program, htrees, TreeSet.find?]
  obtain ⟨sink, hwrite, -, houtput⟩ :=
    Sink.exists_write (show (Sink.limited none).room = none from rfl) (numberValue literal).output
  have hrun : (runBody (template.program.frame
      ⟨template.name, template.name, ⟨{}, [numberAction literal]⟩⟩)
        (invoker template.program maxInvocations) data ⟨{}, [numberAction literal]⟩).run
          ⟨Scope.initial data, Sink.limited none⟩ =
      (.ok .normal, ⟨Scope.initial data, sink⟩) := by
    rw [runBody, runNodes, runNode_numberAction, run_bind, run_bind, run_emit, hwrite]
    rfl
  have hexecute : template.execute data none none = ⟨sink.output, none⟩ := by
    have hall := execute_eq hfind template.name none data
    rw [hrun] at hall
    exact hall
  have hempty : (Sink.limited none).output = "" := rfl
  rw [Template.render, hexecute, houtput, hempty, String.empty_append]

/-- The action of a number alone writes the value of its literal. -/
theorem render_number {text : String} (hnumber : IsNumber text.toList) {literal : NumberLiteral}
    (hliteral : NumberLiteral.ofText ⟨1, 1⟩ text = .ok literal) (settings : Bracketed)
    (name : String) (data : Value) :
    ∃ template, settings.compile name (bracketed text) = .ok template ∧
      template.render data = .ok (Exec.numberValue literal).output := by
  refine ⟨⟨name, Delimiters.brackets, settings.functions, .default,
    ⟨[⟨name, name, ⟨{}, [numberAction literal]⟩⟩]⟩⟩, ?_, render_numberAction _ literal rfl data⟩
  simp only [Bracketed.compile, Bracketed.trees, parse_number hnumber hliteral, bind, Except.bind,
    pure, Except.pure, numberAction]

/-! ### Numbers of a source -/

/-- A number of a source that has no point is one by itself. -/
theorem isNumber_of_mem_lex {delimiters : Delimiters} {source : String} {item : Item}
    (hitem : item ∈ lex delimiters source) (hkind : item.kind = .number)
    (hpoint : '.' ∉ item.value.toList) : IsNumber item.value.toList := by
  obtain ⟨kind, position, value⟩ := item
  subst hkind
  obtain ⟨c, more, rest, hvalue, hlexes⟩ := (legible_of_mem_lex hitem).lexes rfl
  obtain ⟨hstart, hnumber⟩ := hlexes.startsNumber
  obtain ⟨hchars, hafter⟩ := afterNumber_of_numberLexeme hstart hnumber
  rw [hvalue] at hpoint ⊢
  refine ⟨fun d hd ↦ ?_, hchars, hafter, nofun⟩
  obtain rfl : c = d := Option.some.inj hd
  exact hstart.resolve_left fun hdot ↦ hpoint (hdot.1 ▸ List.mem_cons_self)

/-- The value of an integer that has a reading. -/
theorem numberValue_literal {n : Integer} (hfits : n.Fits) (position : Position) (text : String) :
    Exec.numberValue (n.literal position text) = .int n.value := by
  unfold Exec.numberValue Integer.literal
  cases hsigned : Word.isSigned n.value with
  | true => rfl
  | false =>
    obtain ⟨hsign, hunsigned, hnonneg⟩ := hfits.of_isSigned_eq_false hsigned
    simp [hsign, hunsigned, hnonneg]

/-! ### Decimal texts -/

/-- Digits are a number, with a minus sign or without one. -/
theorem isNumber_digits {digits : List Char} (hdigits : ∀ c ∈ digits, c.isDigit = true)
    (hnonempty : digits ≠ []) : IsNumber digits ∧ IsNumber ('-' :: digits) := by
  have hchars : ∀ c ∈ digits, isNumberChar c = true := fun c hc ↦ by
    simp [isNumberChar, isNameChar_of_isDigit (hdigits c hc)]
  have hne {c : Char} (hc : c.isDigit = false) : c ∉ digits := fun hmem ↦ by
    simp [hdigits c hmem] at hc
  have hbase : numberBase digits = (.decimal, digits) := by
    have hmark {mark : Char} (hmark : mark.isDigit = false) (rest : List Char) :
        digits ≠ '0' :: mark :: rest := by
      rintro rfl
      exact hne hmark (List.mem_cons_of_mem _ List.mem_cons_self)
    exact numberBase.eq_7 digits (hmark rfl) (hmark rfl) (hmark rfl) (hmark rfl) (hmark rfl)
      (hmark rfl)
  have hsign : dropOne ['+', '-'] digits = digits := by
    cases digits with
    | nil => rfl
    | cons c digits =>
      have hother {sign : Char} (hsign : sign.isDigit = false) : c ≠ sign := by
        rintro rfl
        exact hne hsign List.mem_cons_self
      simp [dropOne, hother (show '+'.isDigit = false by decide),
        hother (show '-'.isDigit = false by decide)]
  have hrun : digits.dropWhile NumberBase.decimal.isDigit = [] := by
    rw [List.dropWhile_eq_nil_iff]
    exact fun c hc ↦ by simp [NumberBase.isDigit, hdigits c hc]
  have hends : afterDigits .decimal digits = [] := by
    simp [afterDigits, hrun, afterFraction, afterExponent]
  refine ⟨⟨fun c hc ↦ ?_, hchars, ?_, hnonempty⟩, ⟨fun c hc ↦ ?_, ?_, ?_,
    List.cons_ne_nil _ _⟩⟩
  · exact .inr (.inr (hdigits c (List.mem_of_mem_head? hc)))
  · rw [afterNumber_eq, hsign, hbase, hends]
  · exact .inr (.inl (Option.some.inj hc).symm)
  · exact List.forall_mem_cons.mpr ⟨by decide, hchars⟩
  · have hdrop : dropOne ['+', '-'] ('-' :: digits) = digits := rfl
    rw [afterNumber_eq, hdrop, hbase, hends]

/-- The decimal text of an integer is its digits, behind a minus sign if it is negative. -/
theorem toList_toString (n : Int) :
    (toString n).toList =
      signChars (if n < 0 then some true else none) ++ Nat.toDigits 10 n.natAbs := by
  cases n with
  | ofNat n => rw [Json.toList_toString_ofNat]; rfl
  | negSucc n =>
    rw [Json.toList_toString_negSucc, if_pos (Int.negSucc_lt_zero n)]
    rfl

/-- The decimal text of an integer is a number. -/
theorem isNumber_toString (n : Int) : IsNumber (toString n).toList := by
  have hboth := isNumber_digits
    (fun c hc ↦ Nat.isDigit_of_mem_toDigits (by decide) (by decide) hc)
    (Nat.toDigits_ne_nil : Nat.toDigits 10 n.natAbs ≠ [])
  rw [toList_toString]
  split
  · exact hboth.2
  · exact hboth.1

/-- The decimal text of an integer spells it, with a sign if it is negative. -/
theorem spellsInteger_toString (n : Int) :
    SpellsInteger (toString n).toList ⟨if n < 0 then some true else none, n.natAbs⟩ := by
  have hclean : (toString n).toList.filter (· ≠ '_') = (toString n).toList := by
    refine List.filter_eq_self.mpr fun c hc ↦ decide_eq_true ?_
    rintro rfl
    rw [toList_toString, List.mem_append] at hc
    rcases hc with hc | hc
    · split at hc <;> simp [signChars] at hc
    · exact Nat.underscore_not_in_toDigits hc
  have hdecimal : Announces (Nat.toDigits 10 n.natAbs) 10 (Nat.toDigits 10 n.natAbs) := by
    refine .decimal ?_
    by_cases hzero : n.natAbs = 0
    · exact .inr (by rw [hzero]; rfl)
    · exact .inl (Json.head_toDigits_ne_zero _ (Nat.pos_of_ne_zero hzero))
  refine ⟨Nat.toDigits 10 n.natAbs, 10, _, ?_, hdecimal, Nat.toDigits_ne_nil,
    .toDigits (by decide) (by decide) _⟩
  rw [hclean, toList_toString]

/-! ### Integers -/

/-- The action of an integer that has a reading writes it in decimal. -/
theorem render_integer {text : String} {n : Integer} (hnumber : IsNumber text.toList)
    (hspells : SpellsInteger text.toList n) (hfits : n.Fits) (settings : Bracketed) (name : String)
    (data : Value) :
    ∃ template, settings.compile name (bracketed text) = .ok template ∧
      template.render data = .ok (toString n.value) := by
  have hliteral : NumberLiteral.ofText ⟨1, 1⟩ text = .ok (n.literal ⟨1, 1⟩ text) :=
    ofText_of_fits (ofText?_eq_some_iff.mpr hspells) hfits
  have hrender := render_number hnumber hliteral settings name data
  rwa [numberValue_literal hfits] at hrender

/-- Integer literals are exact. Of the numbers of a source, those without a point or an exponent are
read exactly if they spell an integer that a word of 64 bits holds, a signed one or, without a sign,
an unsigned one; the readings are then this integer where they hold it, and so are the value and
what the number writes in an action of its own. If one spells no such integer, the source is
refused. The decimal text of any signed or unsigned word writes itself. -/
theorem integer_literals_exact :
    (∀ {delimiters : Delimiters} {source : String} {item : Item}, item ∈ lex delimiters source →
      item.kind = .number → IsIntegral item.value.toList →
      (∀ literal, NumberLiteral.ofText item.position item.value = .ok literal ↔
        ∃ n, SpellsInteger item.value.toList n ∧ n.Fits ∧
          literal = n.literal item.position item.value) ∧
      (∀ n, SpellsInteger item.value.toList n → n.Fits →
        Exec.numberValue (n.literal item.position item.value) = .int n.value ∧
        ∀ (settings : Bracketed) (name : String) (data : Value), ∃ template,
          settings.compile name (bracketed item.value) = .ok template ∧
            template.render data = .ok (toString n.value)) ∧
      ((∀ n, SpellsInteger item.value.toList n → ¬ n.Fits) →
        ∀ (name : String) (isFunction : String → Bool), ∃ error,
          parse name delimiters isFunction source = .error error)) ∧
    ∀ n : Int, Word.isSigned n = true ∨ Word.isUnsigned n = true →
      ∀ (settings : Bracketed) (name : String) (data : Value), ∃ template,
        settings.compile name (bracketed (toString n)) = .ok template ∧
          template.render data = .ok (toString n) := by
  constructor
  · intro delimiters source item hitem hkind hintegral
    refine ⟨fun literal ↦ ofText_eq_ok_iff hintegral, fun n hspells hfits ↦ ?_, ?_⟩
    · have hnumber := isNumber_of_mem_lex hitem hkind hintegral.1
      exact ⟨numberValue_literal hfits _ _, render_integer hnumber hspells hfits⟩
    · intro hnone name isFunction
      cases hparse : parse name delimiters isFunction source with
      | error error => exact ⟨error, rfl⟩
      | ok set =>
        have hvalue := parse_hasValue hparse item hitem
        unfold Item.HasValue at hvalue
        rw [hkind] at hvalue
        obtain ⟨literal, hliteral⟩ := hvalue
        obtain ⟨n, hspells, hfits, -⟩ := (ofText_eq_ok_iff hintegral).mp hliteral
        exact absurd hfits (hnone n hspells)
  · intro n hword settings name data
    have hvalue : (Integer.mk (if n < 0 then some true else none) n.natAbs).value = n := by
      by_cases hnegative : n < 0
      · rw [if_pos hnegative]
        exact (Int.eq_neg_natAbs_of_nonpos hnegative.le).symm
      · rw [if_neg hnegative]
        exact (Int.eq_natAbs_of_nonneg (not_lt.mp hnegative)).symm
    have hfits : (Integer.mk (if n < 0 then some true else none) n.natAbs).Fits := by
      unfold Integer.Fits
      rw [hvalue]
      refine hword.imp_right fun hunsigned ↦ ⟨?_, hunsigned⟩
      simp only [Word.isUnsigned, Bool.and_eq_true, decide_eq_true_eq] at hunsigned
      exact if_neg (by omega)
    have hrender := render_integer (isNumber_toString n) (spellsInteger_toString n) hfits settings
      name data
    rwa [hvalue] at hrender

/-- A hexadecimal literal with a sign is the integer it spells, the least number above the unsigned
words is refused, and the least of the signed words writes itself. -/
theorem integer_literals_exact_limits :
    (∃ item ∈ lex Delimiters.brackets "[-0x1F]", item.kind = .number ∧
      IsIntegral item.value.toList ∧
      NumberLiteral.ofText item.position item.value =
        .ok (Integer.literal ⟨some true, 31⟩ item.position item.value) ∧
      ∃ template, Bracketed.compile {} "t" (bracketed item.value) = .ok template ∧
        template.render .null = .ok (toString (-31 : Int))) ∧
    (∃ item ∈ lex Delimiters.brackets "[18446744073709551616]", item.kind = .number ∧
      IsIntegral item.value.toList ∧
      ∃ error, parse "t" Delimiters.brackets (fun _ ↦ false) "[18446744073709551616]" =
        .error error) ∧
    ∃ template, Bracketed.compile {} "t" (bracketed (toString (-9223372036854775808 : Int))) =
        .ok template ∧
      template.render .null = .ok (toString (-9223372036854775808 : Int)) := by
  obtain ⟨hitems, hwords⟩ := integer_literals_exact
  refine ⟨?_, ?_, hwords _ (.inl (by decide)) {} "t" .null⟩
  · have hmem : (⟨.number, ⟨1, 1⟩, "-0x1F"⟩ : Item) ∈ lex Delimiters.brackets "[-0x1F]" :=
      List.mem_of_getElem? (by cbv : (lex Delimiters.brackets "[-0x1F]")[1]? = some _)
    have hintegral : IsIntegral "-0x1F".toList :=
      ⟨by decide, by decide, by decide, .inl (by decide)⟩
    have hspells : SpellsInteger "-0x1F".toList ⟨some true, 31⟩ :=
      ofText?_eq_some_iff.mp (by cbv)
    have hfits : Integer.Fits ⟨some true, 31⟩ := .inl (by decide)
    obtain ⟨hread, hrender, -⟩ := hitems hmem rfl hintegral
    exact ⟨_, hmem, rfl, hintegral, (hread _).mpr ⟨_, hspells, hfits, rfl⟩,
      (hrender _ hspells hfits).2 {} "t" .null⟩
  · have hmem : (⟨.number, ⟨1, 1⟩, "18446744073709551616"⟩ : Item) ∈
        lex Delimiters.brackets "[18446744073709551616]" :=
      List.mem_of_getElem?
        (by cbv : (lex Delimiters.brackets "[18446744073709551616]")[1]? = some _)
    have hintegral : IsIntegral "18446744073709551616".toList :=
      ⟨by decide, by decide, by decide, .inr (by decide)⟩
    have hspelled : Integer.ofText? "18446744073709551616".toList =
        some ⟨none, 18446744073709551616⟩ := by
      cbv
    have hlarge (n : Integer) (hspells : SpellsInteger "18446744073709551616".toList n) :
        ¬ n.Fits := by
      rw [← ofText?_eq_some_iff, hspelled] at hspells
      obtain rfl := Option.some.inj hspells
      unfold Integer.Fits
      decide
    obtain ⟨-, -, hrefused⟩ := hitems hmem rfl hintegral
    exact ⟨_, hmem, rfl, hintegral, hrefused hlarge "t" _⟩

end Stencil.Syntax
