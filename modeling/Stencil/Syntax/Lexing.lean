import Stencil.Syntax.Delimiters
import Stencil.Syntax.Item
import Stencil.Unicode.Alphanumeric

/-!
# From a source to its items

`lex` reads a source from its first character to its last. Between actions it looks for the next
left delimiter; what precedes the delimiter is text (`lexText`). Inside an action it takes one
lexeme after another, up to the right delimiter (`lexAction`). A dash that touches a delimiter and
stands off from the action by a blank is a trim marker: the blanks of the text on its other side are
dropped.

A lexeme is a first character and a count of the characters that follow it (`lexeme`), so what an
item holds and what remains are a `take` and a `drop` of the text at the same place. Every step
shortens the text that remains, and an item's position is that of the text read before it.
-/

set_option autoImplicit false
set_option relaxedAutoImplicit false

namespace Stencil.Syntax

/-! ### Classes of characters -/

/-- The characters that separate the parts of an action and that trimming removes. -/
def isBlank (c : Char) : Bool :=
  c = ' ' || c = '\t' || c = '\r' || c = '\n'

/-- The characters of a name. -/
def isNameChar (c : Char) : Bool :=
  c = '_' || Unicode.isAlphanumeric c

/-- The marks of ASCII that may stand alone in an action. -/
def isMark (c : Char) : Bool :=
  0x20 ≤ c.toNat && c.toNat < 0x7F

/-! ### Delimiters and trim markers -/

/-- Where `pattern` first occurs in a text. -/
def findPattern (pattern : List Char) : List Char → Option Nat
  | [] => if pattern.isPrefixOf [] then some 0 else none
  | c :: rest =>
    if pattern.isPrefixOf (c :: rest) then some 0
    else (findPattern pattern rest).map (· + 1)

/-- The length of a trim marker: the dash and the blank beside it. -/
def trimMarkerLength : Nat := 2

/-- Whether a trim marker follows a left delimiter. -/
def startsWithLeftMarker : List Char → Bool
  | '-' :: c :: _ => isBlank c
  | _ => false

/-- Whether a text starts with the trim marker of a right delimiter. -/
def startsWithRightMarker : List Char → Bool
  | c :: '-' :: _ => isBlank c
  | _ => false

/-- Whether a right delimiter starts here and, if so, whether a trim marker precedes it. -/
def closing? (delimiters : Delimiters) (text : List Char) : Option Bool :=
  if startsWithRightMarker text &&
      delimiters.right.toList.isPrefixOf (text.drop trimMarkerLength) then some true
  else if delimiters.right.toList.isPrefixOf text then some false
  else none

/-- A text without the blanks at its end. -/
def trimRight (text : List Char) : List Char :=
  (text.reverse.dropWhile isBlank).reverse

/-- How many characters a closing delimiter takes, with its marker. -/
def delimiterLength (delimiters : Delimiters) (trimmed : Bool) : Nat :=
  (if trimmed then trimMarkerLength else 0) + delimiters.right.toList.length

/-- How many characters a closing delimiter takes away. A trim marker takes the blanks that follow
as well. -/
def closingLength (delimiters : Delimiters) (trimmed : Bool) (text : List Char) : Nat :=
  let length := delimiterLength delimiters trimmed
  if trimmed then length + ((text.drop length).takeWhile isBlank).length else length

/-- A closing delimiter takes at least one character. -/
theorem closingLength_pos (delimiters : Delimiters) (trimmed : Bool) (text : List Char) :
    0 < closingLength delimiters trimmed text := by
  have := delimiters.right_length_pos
  simp only [closingLength, delimiterLength]
  split <;> omega

/-! ### Lexemes -/

/-- Whether a name may end here. -/
def atTerminator (delimiters : Delimiters) (text : List Char) : Bool :=
  match text with
  | [] => true
  | c :: _ =>
    isBlank c || ['.', ',', '|', ':', ')', '('].contains c ||
      delimiters.right.toList.isPrefixOf text

/-- The length of a quoted body and its closing mark. A backslash keeps the next character from
closing it, and no line end may occur. -/
def quotedLength (mark : Char) : List Char → Option Nat
  | [] => none
  | '\\' :: c :: rest => if c = '\n' then none else (quotedLength mark rest).map (· + 2)
  | c :: rest =>
    if c = '\n' then none
    else if c = mark then some 1
    else (quotedLength mark rest).map (· + 1)

/-- The length of a raw body and its closing back quote. -/
def rawLength : List Char → Option Nat
  | [] => none
  | c :: rest => if c = '`' then some 1 else (rawLength rest).map (· + 1)

/-- The bases in which a number may be written. -/
inductive NumberBase
  | decimal
  | hexadecimal
  | octal
  | binary
deriving DecidableEq, Repr

/-- Whether `c` may stand among the digits of a number in this base. -/
def NumberBase.isDigit (base : NumberBase) (c : Char) : Bool :=
  c = '_' ||
    match base with
    | decimal => c.isDigit
    | hexadecimal => c.isDigit || ('a' ≤ c && c ≤ 'f') || ('A' ≤ c && c ≤ 'F')
    | octal => '0' ≤ c && c ≤ '7'
    | binary => c = '0' || c = '1'

/-- A text without one leading character of the given ones. -/
def dropOne (accepted : List Char) : List Char → List Char
  | [] => []
  | c :: rest => if accepted.contains c then rest else c :: rest

/-- The base that the start of an unsigned number announces, and what follows the announcement. -/
def numberBase : List Char → NumberBase × List Char
  | '0' :: 'x' :: rest => (.hexadecimal, rest)
  | '0' :: 'X' :: rest => (.hexadecimal, rest)
  | '0' :: 'o' :: rest => (.octal, rest)
  | '0' :: 'O' :: rest => (.octal, rest)
  | '0' :: 'b' :: rest => (.binary, rest)
  | '0' :: 'B' :: rest => (.binary, rest)
  | text => (.decimal, text)

/-- What follows the digits of an exponent, if one of the given letters introduces it. -/
def afterExponent (letters : List Char) (text : List Char) : List Char :=
  match text with
  | [] => []
  | c :: rest =>
    if letters.contains c then (dropOne ['+', '-'] rest).dropWhile NumberBase.decimal.isDigit
    else text

/-- What follows the longest number at the head of a text: a sign, the base, digits, a point with
digits, and an exponent where the base has one. -/
def afterNumber (text : List Char) : List Char :=
  let (base, digits) := numberBase (dropOne ['+', '-'] text)
  let whole := digits.dropWhile base.isDigit
  let fraction :=
    match whole with
    | '.' :: rest => rest.dropWhile base.isDigit
    | rest => rest
  match base with
  | .decimal => afterExponent ['e', 'E'] fraction
  | .hexadecimal => afterExponent ['p', 'P'] fraction
  | _ => fraction

/-- Whether a character may occur in a number, in a name right after it, or in neither. -/
def isNumberChar (c : Char) : Bool := isNameChar c || ['.', '+', '-'].contains c

/-- A number that starts with `c`: how many characters follow `c`. No name may follow it. -/
def numberLexeme (c : Char) (rest : List Char) : Except String (ItemKind × Nat) :=
  let text := (c :: rest).takeWhile isNumberChar
  let after := afterNumber text
  let length := text.length - after.length
  match after with
  | next :: _ =>
    if isNameChar next then
      .error ("bad number syntax: " ++ Diagnostic.quote (String.ofList (text.take (length + 1))))
    else .ok (.number, length - 1)
  | [] => .ok (.number, length - 1)

/-- A name in `rest`, which must end where a name may end. -/
def nameLexeme (delimiters : Delimiters) (kind : ItemKind) (rest : List Char) :
    Except String (ItemKind × Nat) :=
  let length := (rest.takeWhile isNameChar).length
  let after := rest.drop length
  if atTerminator delimiters after then .ok (kind, length)
  else
    match after with
    | [] => .error "bad character "
    | c :: _ => .error ("bad character " ++ Diagnostic.codePoint c)

/-- What follows a sign that may stand without a name. It stands for itself, as `bare`, wherever a
name may end, be it before a right delimiter that is itself made of the characters of a name. -/
def signedName (delimiters : Delimiters) (bare named : ItemKind) (rest : List Char) :
    Except String (ItemKind × Nat) :=
  if atTerminator delimiters rest then .ok (bare, 0) else nameLexeme delimiters named rest

/-- What a whole word is: a keyword, a truth value or the name of a function. -/
def wordKind (word : String) : ItemKind :=
  match Keyword.ofWord? word with
  | some keyword => .keyword keyword
  | none => if word = "true" || word = "false" then .bool else .identifier

/-- The length of a quoted literal after its opening mark, or a message if it is not closed. -/
def quotedLexeme (kind : ItemKind) (length : Option Nat) (message : String) :
    Except String (ItemKind × Nat) :=
  match length with
  | some n => .ok (kind, n)
  | none => .error message

/-- How many of the blanks after the first belong to a run. The last one is left to the trim marker
of a right delimiter. -/
def spaceLength (delimiters : Delimiters) (rest : List Char) : Nat :=
  let length := (rest.takeWhile isBlank).length
  match rest.drop length with
  | '-' :: after => if delimiters.right.toList.isPrefixOf after then length - 1 else length
  | _ => length

/-- The lexeme that starts with `c`: its kind, and how many characters of `rest` belong to it. -/
def lexeme (delimiters : Delimiters) (c : Char) (rest : List Char) :
    Except String (ItemKind × Nat) :=
  if isBlank c then .ok (.space, spaceLength delimiters rest)
  else if c = '=' then .ok (.assign, 0)
  else if c = ':' then
    match rest with
    | '=' :: _ => .ok (.declare, 1)
    | _ => .error "expected :="
  else if c = '|' then .ok (.pipe, 0)
  else if c = '"' then
    quotedLexeme .string (quotedLength '"' rest) "unterminated quoted string"
  else if c = '`' then
    quotedLexeme .rawString (rawLength rest) "unterminated raw quoted string"
  else if c = '$' then signedName delimiters .variable .variable rest
  else if c = '\'' then
    quotedLexeme .charConstant (quotedLength '\'' rest) "unterminated character constant"
  else if c = '.' then
    match rest with
    | [] => numberLexeme c rest
    | next :: _ =>
      if next.isDigit then numberLexeme c rest
      else signedName delimiters (.keyword .dot) .field rest
  else if c = '+' || c = '-' || c.isDigit then numberLexeme c rest
  else if isNameChar c then
    let word := String.ofList (c :: rest.takeWhile isNameChar)
    nameLexeme delimiters (wordKind word) rest
  else if c = '(' then .ok (.leftParen, 0)
  else if c = ')' then .ok (.rightParen, 0)
  else if isMark c then .ok (.char, 0)
  else .error ("unrecognized character in action: " ++ Diagnostic.codePoint c)

/-! ### The two readers -/

/-- One item, unless its text is empty. -/
def textItem (position : Position) (text : List Char) : List Item :=
  if text.isEmpty then [] else [⟨.text, position, String.ofList text⟩]

/-- The length of a comment that starts here, with both markers. -/
def commentLength (text : List Char) : Option Nat :=
  (findPattern ['*', '/'] (text.drop 2)).map (· + 4)

theorem findPattern_le {pattern : List Char} (text : List Char) {n : Nat}
    (found : findPattern pattern text = some n) : n + pattern.length ≤ text.length := by
  induction text generalizing n with
  | nil =>
    simp only [findPattern] at found
    split at found
    · rename_i h
      have := (List.isPrefixOf_iff_prefix.mp h).length_le
      cases found
      simpa using this
    · cases found
  | cons c rest ih =>
    simp only [findPattern] at found
    split at found
    · rename_i h
      have := (List.isPrefixOf_iff_prefix.mp h).length_le
      cases found
      simpa using this
    · cases h : findPattern pattern rest with
      | none => simp [h] at found
      | some m =>
        simp only [h, Option.map_some, Option.some.injEq] at found
        have := ih h
        simp only [List.length_cons]
        omega

mutual

/-- Reads from outside actions to the end of the source. -/
def lexText (delimiters : Delimiters) (position : Position) (text : List Char) : List Item :=
  match found : findPattern delimiters.left.toList text with
  | none => textItem position text ++ [⟨.eof, position.advance text, ""⟩]
  | some length =>
    let before := text.take length
    let after := text.drop (length + delimiters.left.toList.length)
    let opening := position.advance before
    let trimmed := startsWithLeftMarker after
    let marker := if trimmed then trimMarkerLength else 0
    let body := after.drop marker
    let start := (opening.advance delimiters.left.toList).advance (after.take marker)
    textItem position (if trimmed then trimRight before else before) ++
      if ['/', '*'].isPrefixOf body then
        match commentLength body with
        | none => [⟨.error, start, "unclosed comment"⟩]
        | some commented =>
          let comment := body.take commented
          let rest := body.drop commented
          match closing? delimiters rest with
          | none => [⟨.error, start, "comment ends before closing delimiter"⟩]
          | some closed =>
            let length := closingLength delimiters closed rest
            ⟨.comment, start, String.ofList comment⟩ ::
              lexText delimiters ((start.advance comment).advance (rest.take length))
                (rest.drop length)
      else
        ⟨.leftDelim, opening, delimiters.left⟩ :: lexAction delimiters 0 start body
termination_by text.length
decreasing_by
  · have := findPattern_le text found
    have := delimiters.left_length_pos
    simp only [List.length_drop]
    omega
  · have := findPattern_le text found
    have := delimiters.left_length_pos
    simp only [List.length_drop]
    omega

/-- Reads from inside an action, with `depth` parentheses open, to the end of the source. -/
def lexAction (delimiters : Delimiters) (depth : Nat) (position : Position) (text : List Char) :
    List Item :=
  match text with
  | [] => [⟨.error, position, "unclosed action"⟩]
  | c :: rest =>
    match closing? delimiters (c :: rest) with
    | some trimmed =>
      if depth = 0 then
        let marker := if trimmed then trimMarkerLength else 0
        let start := position.advance ((c :: rest).take marker)
        let length := closingLength delimiters trimmed (c :: rest)
        ⟨.rightDelim, start, delimiters.right⟩ ::
          lexText delimiters (position.advance ((c :: rest).take length))
            ((c :: rest).drop length)
      else [⟨.error, position, "unclosed left paren"⟩]
    | none =>
      match lexeme delimiters c rest with
      | .error message => [⟨.error, position, message⟩]
      | .ok (kind, length) =>
        let value := c :: rest.take length
        let after := position.advance value
        ⟨kind, position, String.ofList value⟩ ::
          if kind = .rightParen && depth = 0 then
            [⟨.error, after, "unexpected right paren"⟩]
          else
            let depth :=
              if kind = .leftParen then depth + 1
              else if kind = .rightParen then depth - 1
              else depth
            lexAction delimiters depth after (rest.drop length)
termination_by text.length
decreasing_by
  · have := closingLength_pos delimiters trimmed (c :: rest)
    simp only [List.length_drop, List.length_cons]
    omega
  · simp only [List.length_drop, List.length_cons]
    omega

end

/-- The items of a source. The last one is the end of the source or an error. -/
def lex (delimiters : Delimiters) (source : String) : List Item :=
  lexText delimiters {} source.toList

end Stencil.Syntax
