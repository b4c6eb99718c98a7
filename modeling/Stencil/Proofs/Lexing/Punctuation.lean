import Stencil.Proofs.Lexing.Scan

/-!
# Delimiters made of punctuation

Some marks have no use inside an action: no name, number, blank or comment starts with one
(`punctuation_spec`). With delimiters made of such marks, the lexer does not take the right
delimiter of an action for a part of it. Where it looks ahead inside an action it may see the
delimiter, but all that it asks there is whether the rest of the action is empty or a trim marker.
So what it finds is a function of the rest alone (`closing?_right`, `atTerminator_right`,
`spaceLength_right`), and a lexeme is the same whatever the right delimiter is
(`Lexes.redelimit`).
-/

set_option autoImplicit false
set_option relaxedAutoImplicit false

namespace Stencil.Syntax

/-! ### Punctuation -/

/-- The marks that have no meaning inside an action and that no name, number or blank is. -/
def punctuation : List Char :=
  ['\x7b', '\x7d', '[', ']', '<', '>', '%', '#', '@', '!', '^', '~', '?', '&', ';']

namespace Delimiters

/-- The characters of both delimiters. -/
def chars (delimiters : Delimiters) : List Char :=
  delimiters.left.toList ++ delimiters.right.toList

/-- That delimiters are made of punctuation. -/
def Punctual (delimiters : Delimiters) : Prop := ∀ c ∈ delimiters.chars, c ∈ punctuation

instance (delimiters : Delimiters) : Decidable delimiters.Punctual :=
  List.decidableBAll (· ∈ punctuation) delimiters.chars

end Delimiters

/-- That a text has no character of delimiters. -/
def FreeOf (delimiters : Delimiters) (text : List Char) : Prop := ∀ c ∈ text, c ∉ delimiters.chars

instance (delimiters : Delimiters) (text : List Char) : Decidable (FreeOf delimiters text) :=
  List.decidableBAll (· ∉ delimiters.chars) text

/-- Punctuation is no blank, no dash and no part of a name or a number, and starts no comment. -/
theorem punctuation_spec {c : Char} (hc : c ∈ punctuation) :
    isBlank c = false ∧ isNameChar c = false ∧ isNumberChar c = false ∧ c.isDigit = false ∧
      c ≠ '-' ∧ c ≠ '/' ∧ c ≠ '*' := by
  simp only [punctuation, List.mem_cons, List.not_mem_nil, or_false] at hc
  rcases hc with rfl | rfl | rfl | rfl | rfl | rfl | rfl | rfl | rfl | rfl | rfl | rfl | rfl | rfl |
    rfl <;> decide

section Delimiter

variable {delimiters : Delimiters}

/-- A right delimiter starts with a mark of its own. -/
theorem exists_right_eq (hpunctual : delimiters.Punctual) :
    ∃ mark rest, delimiters.right.toList = mark :: rest ∧ mark ∈ delimiters.chars ∧
      mark ∈ punctuation := by
  obtain ⟨mark, rest, hright⟩ := List.exists_cons_of_length_pos delimiters.right_length_pos
  have hmark : mark ∈ delimiters.chars := by simp [Delimiters.chars, hright]
  exact ⟨mark, rest, hright, hmark, hpunctual mark hmark⟩

/-- A left delimiter starts with a mark of its own. -/
theorem exists_left_eq (hpunctual : delimiters.Punctual) :
    ∃ mark rest, delimiters.left.toList = mark :: rest ∧ mark ∈ delimiters.chars ∧
      mark ∈ punctuation := by
  obtain ⟨mark, rest, hleft⟩ := List.exists_cons_of_length_pos delimiters.left_length_pos
  have hmark : mark ∈ delimiters.chars := by simp [Delimiters.chars, hleft]
  exact ⟨mark, rest, hleft, hmark, hpunctual mark hmark⟩

/-! ### Looking ahead inside an action -/

section Ahead

variable {inner more : List Char}

/-- The right delimiter stands at the start of the rest of an action only if the rest is empty. -/
theorem isPrefixOf_right (hpunctual : delimiters.Punctual) (hfree : FreeOf delimiters inner) :
    delimiters.right.toList.isPrefixOf (inner ++ (delimiters.right.toList ++ more)) =
      inner.isEmpty := by
  cases inner with
  | nil => simp [List.isPrefixOf_iff_prefix]
  | cons c rest =>
    obtain ⟨mark, tail, hright, hmark, _⟩ := exists_right_eq hpunctual
    have hne : mark ≠ c := fun heq ↦ hfree c List.mem_cons_self (heq ▸ hmark)
    rw [hright, List.isEmpty_cons, Bool.eq_false_iff, Ne, List.isPrefixOf_iff_prefix]
    exact fun hprefix ↦ hne (List.cons_prefix_cons.mp hprefix).1

/-- What is taken from the rest of an action stops at the right delimiter. -/
theorem takeWhile_right (hpunctual : delimiters.Punctual) {p : Char → Bool}
    (hp : ∀ c ∈ punctuation, p c = false) :
    (inner ++ (delimiters.right.toList ++ more)).takeWhile p = inner.takeWhile p := by
  obtain ⟨mark, tail, hright, _, hmark⟩ := exists_right_eq hpunctual
  rw [hright]
  induction inner with
  | nil => simp [hp mark hmark]
  | cons c rest ih =>
    simp only [List.cons_append, List.takeWhile_cons] at ih ⊢
    rw [ih]

/-- A trim marker is a blank with a dash after it. -/
theorem startsWithRightMarker_cons (c : Char) (rest : List Char) :
    startsWithRightMarker (c :: rest) = (isBlank c && decide (rest.head? = some '-')) := by
  cases rest with
  | nil => simp [startsWithRightMarker]
  | cons d rest =>
    by_cases hdash : d = '-'
    · simp [startsWithRightMarker, hdash]
    · unfold startsWithRightMarker
      split
      next heq => simp_all
      next => simp [hdash]

/-- A trim marker is seen only in the rest of an action, and not across the right delimiter. -/
theorem startsWithRightMarker_right (hpunctual : delimiters.Punctual) :
    startsWithRightMarker (inner ++ (delimiters.right.toList ++ more)) =
      startsWithRightMarker inner := by
  obtain ⟨mark, tail, hright, _, hmark⟩ := exists_right_eq hpunctual
  obtain ⟨hblank, _, _, _, hdash, _⟩ := punctuation_spec hmark
  cases inner with
  | nil =>
    rw [hright, List.nil_append, List.cons_append, startsWithRightMarker_cons, hblank]
    rfl
  | cons c rest =>
    rw [List.cons_append, startsWithRightMarker_cons, startsWithRightMarker_cons, hright]
    cases rest <;> simp [hdash]

/-- Whether a right delimiter follows is told by the rest of an action alone. -/
theorem closing?_right (hpunctual : delimiters.Punctual) (hfree : FreeOf delimiters inner) :
    closing? delimiters (inner ++ (delimiters.right.toList ++ more)) =
      if startsWithRightMarker inner && (inner.drop trimMarkerLength).isEmpty then some true
      else if inner.isEmpty then some false
      else none := by
  unfold closing?
  rw [startsWithRightMarker_right hpunctual, isPrefixOf_right hpunctual hfree]
  cases hmarker : startsWithRightMarker inner with
  | false => simp
  | true =>
    obtain ⟨blank, _, hinner⟩ := eq_of_startsWithRightMarker hmarker
    have hlength : trimMarkerLength ≤ inner.length := by
      rw [hinner]
      simp [trimMarkerLength]
    rw [List.drop_append_of_le_length hlength, isPrefixOf_right hpunctual]
    exact fun c hc ↦ hfree c (List.mem_of_mem_drop hc)

/-- Whether a name may end before the rest of an action. -/
def endsName (inner : List Char) : Bool :=
  inner.head?.all fun c ↦ isBlank c || ['.', ',', '|', ':', ')', '('].contains c

/-- Whether a name may end is told by the rest of an action alone. -/
theorem atTerminator_right (hpunctual : delimiters.Punctual) (hfree : FreeOf delimiters inner) :
    atTerminator delimiters (inner ++ (delimiters.right.toList ++ more)) = endsName inner := by
  have hprefix : delimiters.right.toList.isPrefixOf (inner ++ (delimiters.right.toList ++ more)) =
      inner.isEmpty := isPrefixOf_right hpunctual hfree
  cases inner with
  | nil =>
    obtain ⟨mark, tail, hright, _⟩ := exists_right_eq hpunctual
    rw [hright, List.nil_append, List.cons_append] at hprefix ⊢
    simp [atTerminator, endsName, hright, hprefix]
  | cons c rest =>
    rw [List.cons_append] at hprefix ⊢
    simp [atTerminator, endsName, hprefix]

/-- How many blanks are a run is told by the rest of an action alone. -/
theorem spaceLength_right (hpunctual : delimiters.Punctual) (hfree : FreeOf delimiters inner) :
    spaceLength delimiters (inner ++ (delimiters.right.toList ++ more)) =
      let length := (inner.takeWhile isBlank).length
      if inner.drop length = ['-'] then length - 1 else length := by
  have hle := length_takeWhile_le isBlank inner
  simp only [spaceLength]
  rw [takeWhile_right hpunctual fun c hc ↦ (punctuation_spec hc).1,
    List.drop_append_of_le_length hle]
  cases hdrop : inner.drop (inner.takeWhile isBlank).length with
  | nil =>
    obtain ⟨mark, tail, hright, _, hmark⟩ := exists_right_eq hpunctual
    have hdash := (punctuation_spec hmark).2.2.2.2.1
    rw [hright]
    simp only [List.nil_append, List.cons_append]
    split
    next heq => simp_all
    next => simp
  | cons c rest =>
    simp only [List.cons_append]
    have hrest : FreeOf delimiters rest := by
      intro d hd
      refine hfree d (List.mem_of_mem_drop (i := (inner.takeWhile isBlank).length) ?_)
      rw [hdrop]
      exact List.mem_cons_of_mem c hd
    by_cases hc : c = '-'
    · subst hc
      simp only [isPrefixOf_right hpunctual hrest]
      cases rest <;> simp
    · simp [hc]

/-- A trim marker after a left delimiter is seen only in the rest of an action. -/
theorem markerBlank?_right (hpunctual : delimiters.Punctual) :
    markerBlank? (inner ++ (delimiters.right.toList ++ more)) = markerBlank? inner := by
  obtain ⟨mark, tail, hright, _, hmark⟩ := exists_right_eq hpunctual
  obtain ⟨hblank, _, _, _, hdash, _⟩ := punctuation_spec hmark
  rw [hright]
  match inner with
  | [] => simp [markerBlank?, hdash]
  | [c] => by_cases hc : c = '-' <;> simp [markerBlank?, hc, hblank]
  | c :: d :: rest => by_cases hc : c = '-' <;> simp [markerBlank?, hc]

/-- A comment starts only in the rest of an action, and not across the right delimiter. -/
theorem comment_prefix_right (hpunctual : delimiters.Punctual) :
    ['/', '*'] <+: inner ++ (delimiters.right.toList ++ more) ↔ ['/', '*'] <+: inner := by
  obtain ⟨mark, tail, hright, _, hmark⟩ := exists_right_eq hpunctual
  obtain ⟨_, _, _, _, _, hslash, hstar⟩ := punctuation_spec hmark
  rw [hright]
  match inner with
  | [] => simp [List.cons_prefix_cons, hslash.symm]
  | [c] => simp [List.cons_prefix_cons, hstar.symm]
  | c :: d :: rest => simp [List.cons_prefix_cons]

end Ahead

/-! ### Looking for the left delimiter -/

/-- A text that is free of delimiters has no character of the left one. -/
theorem FreeOf.left {text : List Char} (hfree : FreeOf delimiters text) :
    ∀ c ∈ text, c ∉ delimiters.left.toList :=
  fun c hc hleft ↦ hfree c hc (List.mem_append_left _ hleft)

/-- A text without the characters of the left delimiter does not hold it. -/
theorem findPattern_left_eq_none {text : List Char}
    (hfree : ∀ c ∈ text, c ∉ delimiters.left.toList) :
    findPattern delimiters.left.toList text = none := by
  obtain ⟨mark, tail, hleft⟩ := List.exists_cons_of_length_pos delimiters.left_length_pos
  rw [hleft] at hfree ⊢
  induction text with
  | nil => rfl
  | cons c rest ih =>
    have hne : mark ≠ c := fun heq ↦ hfree c List.mem_cons_self (heq ▸ List.mem_cons_self)
    simp [findPattern, List.isPrefixOf, hne, ih fun d hd ↦ hfree d (List.mem_cons_of_mem c hd)]

/-- The left delimiter is found behind a text without its characters. -/
theorem findPattern_left_eq_some {before : List Char}
    (hfree : ∀ c ∈ before, c ∉ delimiters.left.toList) (after : List Char) :
    findPattern delimiters.left.toList (before ++ (delimiters.left.toList ++ after)) =
      some before.length := by
  obtain ⟨mark, tail, hleft⟩ := List.exists_cons_of_length_pos delimiters.left_length_pos
  rw [hleft] at hfree ⊢
  induction before with
  | nil =>
    rw [List.nil_append, List.cons_append, findPattern, if_pos]
    · rfl
    · simp [List.isPrefixOf_iff_prefix]
  | cons c rest ih =>
    have hne : mark ≠ c := fun heq ↦ hfree c List.mem_cons_self (heq ▸ List.mem_cons_self)
    rw [List.cons_append, findPattern, if_neg,
      ih fun d hd ↦ hfree d (List.mem_cons_of_mem c hd)]
    · rfl
    · rw [List.cons_append, List.isPrefixOf_iff_prefix]
      exact fun hprefix ↦ hne (List.cons_prefix_cons.mp hprefix).1

/-- Whether a text starts with a blank is told by what stands before its first left delimiter. -/
theorem startsBlank_left (hpunctual : delimiters.Punctual) (before after : List Char) :
    startsBlank (before ++ (delimiters.left.toList ++ after)) = startsBlank before := by
  cases before with
  | nil =>
    obtain ⟨mark, tail, hleft, _, hmark⟩ := exists_left_eq hpunctual
    simp [startsBlank, hleft, (punctuation_spec hmark).1]
  | cons c rest => rfl

/-! ### Literals and comments -/

/-- A quoted literal is read from its own characters. -/
theorem quotedLength_append {mark : Char} {value rest : List Char} (other : List Char)
    (hbackslash : mark ≠ '\\')
    (hquoted : quotedLength mark (value ++ rest) = some value.length) :
    quotedLength mark (value ++ other) = some value.length := by
  generalize htext : value ++ rest = text at hquoted
  fun_induction quotedLength mark text generalizing value with
  | case1 => cases hquoted
  | case2 => cases hquoted
  | case3 c more hne ih =>
    obtain ⟨n, hn, hlength⟩ := Option.map_eq_some_iff.mp hquoted
    rcases value with _ | ⟨backslash, _ | ⟨d, value⟩⟩
    · simp at hlength
    · simp at hlength
    · simp only [List.cons_append, List.cons.injEq] at htext
      obtain ⟨rfl, rfl, hmore⟩ := htext
      have hvalue : n = value.length := by simpa using hlength
      simp [quotedLength, hne, ih hmore (hvalue ▸ hn)]
  | case4 => cases hquoted
  | case5 more hescape hline =>
    rcases value with _ | ⟨c, _ | ⟨d, value⟩⟩
    · simp at hquoted
    · simp only [List.cons_append, List.nil_append, List.cons.injEq] at htext
      obtain ⟨rfl, rfl⟩ := htext
      simp [quotedLength, hbackslash, hline]
    · simp at hquoted
  | case6 c more hescape hline hmark ih =>
    obtain ⟨n, hn, hlength⟩ := Option.map_eq_some_iff.mp hquoted
    rcases value with _ | ⟨d, value⟩
    · simp at hlength
    · simp only [List.cons_append, List.cons.injEq] at htext
      obtain ⟨rfl, hmore⟩ := htext
      have hvalue : n = value.length := by simpa using hlength
      have hd : d ≠ '\\' := by
        rintro rfl
        cases more with
        | nil => cases hn
        | cons c more => exact hescape c more rfl rfl
      simp [quotedLength, hd, hline, hmark, ih hmore (hvalue ▸ hn)]

/-- A raw literal is read from its own characters. -/
theorem rawLength_append {value rest : List Char} (other : List Char)
    (hraw : rawLength (value ++ rest) = some value.length) :
    rawLength (value ++ other) = some value.length := by
  induction value with
  | nil =>
    cases rest with
    | nil => cases hraw
    | cons c rest =>
      simp only [List.nil_append, rawLength] at hraw
      split at hraw <;> simp at hraw
  | cons c value ih =>
    simp only [List.cons_append, rawLength] at hraw ⊢
    by_cases hc : c = '`'
    · rw [if_pos hc] at hraw ⊢
      exact hraw
    · rw [if_neg hc] at hraw ⊢
      obtain ⟨n, hn, hlength⟩ := Option.map_eq_some_iff.mp hraw
      have hvalue : n = value.length := by simpa using hlength
      rw [ih (hvalue ▸ hn)]
      rfl

/-- Whether a text starts with a pattern is told by as much of the text as the pattern is long. -/
theorem isPrefixOf_append {pattern text : List Char} (hle : pattern.length ≤ text.length)
    (more : List Char) : pattern.isPrefixOf (text ++ more) = pattern.isPrefixOf text := by
  rw [Bool.eq_iff_iff, List.isPrefixOf_iff_prefix, List.isPrefixOf_iff_prefix]
  exact ⟨fun h ↦ List.prefix_of_prefix_length_le h (List.prefix_append text more) hle,
    fun h ↦ h.trans (List.prefix_append text more)⟩

/-- A pattern is found by its own characters and those before it. -/
theorem findPattern_append {pattern text rest : List Char} (other : List Char) {n : Nat}
    (hfound : findPattern pattern (text ++ rest) = some n)
    (hle : n + pattern.length ≤ text.length) :
    findPattern pattern (text ++ other) = some n := by
  induction text generalizing n with
  | nil =>
    obtain ⟨rfl, rfl⟩ : n = 0 ∧ pattern = [] := by simpa using hle
    cases other <;> simp [findPattern]
  | cons c text ih =>
    simp only [List.cons_append, findPattern] at hfound ⊢
    rw [← List.cons_append, isPrefixOf_append (by omega)] at hfound ⊢
    split at hfound
    next hhere =>
      rw [if_pos hhere]
      exact hfound
    next hhere =>
      rw [if_neg hhere]
      obtain ⟨m, hm, hn⟩ := Option.map_eq_some_iff.mp hfound
      rw [ih hm (by simp at hle; omega)]
      simpa using hn

/-- A comment is read from its own characters. -/
theorem commentLength_append {content rest : List Char} (other : List Char)
    (hlength : commentLength (content ++ rest) = some content.length) :
    commentLength (content ++ other) = some content.length := by
  obtain ⟨n, hn, htotal⟩ := Option.map_eq_some_iff.mp hlength
  have htwo : 2 ≤ content.length := by omega
  rw [List.drop_append_of_le_length htwo] at hn
  rw [commentLength, List.drop_append_of_le_length htwo, findPattern_append other hn]
  · simp [htotal]
  · rw [List.length_drop, List.length_cons, List.length_cons, List.length_nil]
    omega

end Delimiter

/-! ### Lexemes -/

section Redelimit

variable {old new : Delimiters}

/-- A name ends in the rest of an action whatever the right delimiter is. -/
theorem nameLexeme_redelimit (hold : old.Punctual) (hnew : new.Punctual) {inner : List Char}
    (hfreeOld : FreeOf old inner) (hfreeNew : FreeOf new inner) {more : List Char}
    (other : List Char) {named kind : ItemKind} {n : Nat}
    (hname : nameLexeme old named (inner ++ (old.right.toList ++ more)) = .ok (kind, n)) :
    nameLexeme new named (inner ++ (new.right.toList ++ other)) = .ok (kind, n) := by
  rw [nameLexeme_eq_ok_iff, takeWhile_right hold fun c hc ↦ (punctuation_spec hc).2.1] at hname
  rw [nameLexeme_eq_ok_iff, takeWhile_right hnew fun c hc ↦ (punctuation_spec hc).2.1]
  obtain ⟨hkind, hlength, hend⟩ := hname
  have hle : n ≤ inner.length := hlength ▸ length_takeWhile_le isNameChar inner
  rw [List.drop_append_of_le_length hle] at hend ⊢
  rw [atTerminator_right hold fun c hc ↦ hfreeOld c (List.mem_of_mem_drop hc)] at hend
  rw [atTerminator_right hnew fun c hc ↦ hfreeNew c (List.mem_of_mem_drop hc)]
  exact ⟨hkind, hlength, hend⟩

/-- A name behind a sign ends in the rest of an action whatever the right delimiter is. -/
theorem signedName_redelimit (hold : old.Punctual) (hnew : new.Punctual) {inner : List Char}
    (hfreeOld : FreeOf old inner) (hfreeNew : FreeOf new inner) {more : List Char}
    (other : List Char) {bare named kind : ItemKind} {n : Nat}
    (hname : signedName old bare named (inner ++ (old.right.toList ++ more)) = .ok (kind, n)) :
    signedName new bare named (inner ++ (new.right.toList ++ other)) = .ok (kind, n) := by
  rw [signedName_eq_ok_iff, atTerminator_right hold hfreeOld] at hname
  rw [signedName_eq_ok_iff, atTerminator_right hnew hfreeNew]
  exact hname.imp_right fun ⟨hend, hname⟩ ↦
    ⟨hend, nameLexeme_redelimit hold hnew hfreeOld hfreeNew other hname⟩

/-- A number ends in the rest of an action whatever the right delimiter is. -/
theorem numberLexeme_redelimit (hold : old.Punctual) (hnew : new.Punctual) (c : Char)
    (inner more other : List Char) :
    numberLexeme c (inner ++ (old.right.toList ++ more)) =
      numberLexeme c (inner ++ (new.right.toList ++ other)) := by
  have hnumber : ∀ d ∈ punctuation, isNumberChar d = false :=
    fun d hd ↦ (punctuation_spec hd).2.2.1
  have htext (delimiters : Delimiters) (hpunctual : delimiters.Punctual) (more : List Char) :
      (c :: (inner ++ (delimiters.right.toList ++ more))).takeWhile isNumberChar =
        (c :: inner).takeWhile isNumberChar := by
    rw [← List.cons_append]
    exact takeWhile_right hpunctual hnumber
  simp only [numberLexeme, htext old hold, htext new hnew]

/-- The first character of the rest of an action is a digit whatever the right delimiter is. -/
theorem all_isDigit_redelimit (hold : old.Punctual) {inner more : List Char}
    (other : List Char)
    (hdigit : (inner ++ (old.right.toList ++ more)).head?.all Char.isDigit) :
    (inner ++ (new.right.toList ++ other)).head?.all Char.isDigit := by
  cases inner with
  | nil =>
    obtain ⟨mark, tail, hright, _, hmark⟩ := exists_right_eq hold
    rw [hright, List.nil_append, List.cons_append] at hdigit
    simp [(punctuation_spec hmark).2.2.2.1] at hdigit
  | cons c rest => exact hdigit

/-- A rest of an action that does not start with a digit does not start with one whatever the right
delimiter is. -/
theorem exists_cons_redelimit (hnew : new.Punctual) {inner more other : List Char} {next : Char}
    {rest : List Char} (hrest : inner ++ (old.right.toList ++ more) = next :: rest)
    (hnext : next.isDigit = false) :
    ∃ c tail, inner ++ (new.right.toList ++ other) = c :: tail ∧ c.isDigit = false := by
  cases inner with
  | nil =>
    obtain ⟨mark, tail, hright, _, hmark⟩ := exists_right_eq hnew
    rw [hright]
    exact ⟨mark, tail ++ other, rfl, (punctuation_spec hmark).2.2.2.1⟩
  | cons c inner =>
    obtain ⟨rfl, _⟩ := List.cons.inj hrest
    exact ⟨c, _, rfl, hnext⟩

/-- A lexeme is the same whatever the right delimiter of its action is. -/
theorem Lexes.redelimit (hold : old.Punctual) (hnew : new.Punctual) {c : Char}
    {value inner more : List Char} (other : List Char) {kind : ItemKind}
    (hfreeOld : FreeOf old (value ++ inner)) (hfreeNew : FreeOf new (value ++ inner))
    (hlexes : Lexes old c (value ++ (inner ++ (old.right.toList ++ more))) kind value.length) :
    Lexes new c (value ++ (inner ++ (new.right.toList ++ other))) kind value.length := by
  have hsplit (delimiters : Delimiters) (more : List Char) :
      value ++ (inner ++ (delimiters.right.toList ++ more)) =
        (value ++ inner) ++ (delimiters.right.toList ++ more) := by
    rw [List.append_assoc]
  generalize htext : value ++ (inner ++ (old.right.toList ++ more)) = text at hlexes
  generalize hlength : value.length = length at hlexes
  cases hlexes with
  | space hblank =>
    rw [← htext, hsplit, spaceLength_right hold hfreeOld] at hlength
    have hother : spaceLength new (value ++ inner ++ (new.right.toList ++ other)) =
        value.length :=
      (spaceLength_right hnew hfreeNew).trans hlength.symm
    rw [← htext, hsplit old, spaceLength_right hold hfreeOld, ← hlength, ← hother, hsplit new]
    exact .space hblank
  | assign => exact .assign
  | declare =>
    obtain ⟨d, hd⟩ := List.length_eq_one_iff.mp hlength
    rw [hd, List.singleton_append, List.cons.injEq] at htext
    rw [hd, htext.1]
    exact .declare
  | bar => exact .bar
  | string hquoted =>
    rw [← htext, ← hlength] at hquoted
    exact .string (hlength ▸ quotedLength_append _ (by decide) hquoted)
  | rawString hraw =>
    rw [← htext, ← hlength] at hraw
    exact .rawString (hlength ▸ rawLength_append _ hraw)
  | variableName hname =>
    rw [← htext, hsplit] at hname
    rw [hsplit]
    exact .variableName (signedName_redelimit hold hnew hfreeOld hfreeNew other hname)
  | charConstant hquoted =>
    rw [← htext, ← hlength] at hquoted
    exact .charConstant (hlength ▸ quotedLength_append _ (by decide) hquoted)
  | field hnext hname =>
    rw [← htext, hsplit] at hname
    have hother := signedName_redelimit hold hnew hfreeOld hfreeNew other hname
    rw [hsplit] at htext ⊢
    obtain ⟨other, more, hcons, hdigit⟩ := exists_cons_redelimit hnew htext hnext
    rw [hcons] at hother ⊢
    exact .field hdigit hother
  | number hstart hnumber =>
    rw [← htext, hsplit] at hnumber hstart
    rw [hsplit]
    refine .number ?_ (numberLexeme_redelimit hold hnew c _ more other ▸ hnumber)
    exact hstart.imp_left fun ⟨hdot, hdigit⟩ ↦ ⟨hdot, all_isDigit_redelimit hold other hdigit⟩
  | word hc hdigit hname =>
    rw [← htext, hsplit] at hname
    rw [hsplit]
    refine .word hc hdigit ?_
    rw [takeWhile_right hold fun c hc ↦ (punctuation_spec hc).2.1] at hname
    rw [takeWhile_right hnew fun c hc ↦ (punctuation_spec hc).2.1]
    exact nameLexeme_redelimit hold hnew hfreeOld hfreeNew other hname
  | leftParen => exact .leftParen
  | rightParen => exact .rightParen
  | mark hmark hblank hname hleader => exact .mark hmark hblank hname hleader

end Redelimit

end Stencil.Syntax
