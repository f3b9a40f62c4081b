import Unlambda.Proofs.Source.Token

/-!
# Texts without a next token

A lexer finds no token in three situations. A character can stand where it does in no token: it
begins none, or it is not one that `.` and `?` may take with them. The text can end behind a `.`
or a `?`. Or nothing but trivia is left. This module says what a lexer reports in each of them,
and that up to the reported place the text can always go on with a primitive.

## Main definitions

* `Unlambda.Source.Stray`: a character that cannot stand where it does
* `Unlambda.Source.Lexer.Lacks`: no token comes next, and the error that tells why
* `Unlambda.Source.BeginsPrimitive`: a text that can go on with a primitive

## Main results

* `Unlambda.Source.Lexer.next_of_stray`: a stray character is reported, whatever comes after it
* `Unlambda.Source.Lexer.next_of_cut`, `Unlambda.Source.Lexer.next_of_trailing`: what is reported
  at the end of a text
* `Unlambda.Source.Lexer.lacks_of_next_error`, `Unlambda.Source.Lexer.lacks_of_next_none`: a
  lexer that finds no token is in one of the three situations
-/

namespace Unlambda.Source

/-- `Stray start x`: a text in which a token begins with `start` cannot go on with `x`. -/
inductive Stray : List Char → Char → Prop
  /-- No token begins with the character, and it is no trivia. -/
  | first {x : Char} (noTrivia : Gap.space.after? x = none)
      (noSign : x ≠ '\x60' ∧ x ≠ '.' ∧ x ≠ '?') (noName : ∀ p : Primitive, x ∉ p.names) :
      Stray [] x
  /-- The character is not one that a primitive may carry. -/
  | carried {sign x : Char} (carries : sign = '.' ∨ sign = '?') (other : ¬IsProgramChar x) :
      Stray [sign] x

variable {x : Char} {start trivia text rest : List Char}

/-! ### Beginnings of primitives -/

/-- The text can go on so that it becomes a primitive behind trivia. -/
def BeginsPrimitive (text : List Char) : Prop :=
  ∃ more trivia spelling, ∃ p : Primitive,
    text ++ more = trivia ++ spelling ∧ Trivia trivia ∧ p.Spelled spelling

theorem beginsPrimitive_of_trivia (h : Trivia trivia) : BeginsPrimitive trivia :=
  ⟨['i'], trivia, ['i'], .i, rfl, h, .name (by decide)⟩

theorem beginsPrimitive_of_trailingTrivia (h : TrailingTrivia text) : BeginsPrimitive text :=
  ⟨['\n', 'i'], text ++ ['\n'], ['i'], .i, by simp, h.append_newline, .name (by decide)⟩

theorem beginsPrimitive_of_sign {sign : Char} (h : Trivia trivia)
    (hsign : sign = '.' ∨ sign = '?') : BeginsPrimitive (trivia ++ [sign]) := by
  have hchar : IsProgramChar 'i' := by decide
  rcases hsign with rfl | rfl
  · exact ⟨['i'], trivia, ['.', 'i'], .print 'i', by simp, h, .print hchar⟩
  · exact ⟨['i'], trivia, ['?', 'i'], .compare 'i', by simp, h, .compare hchar⟩

/-- In front of a stray character the text can still go on. -/
theorem Stray.begins (hstray : Stray start x) (h : Trivia trivia) :
    BeginsPrimitive (trivia ++ start) := by
  cases hstray with
  | first => exact (List.append_nil trivia).symm ▸ beginsPrimitive_of_trivia h
  | carried hsign => exact beginsPrimitive_of_sign h hsign

namespace Lexer

variable {lexer lexer' : Lexer} {error : SyntaxError}

/-! ### Stray characters are reported -/

theorem carried_of_not_isProgramChar {start : Position} {primitive : Char → Primitive}
    (hx : ¬IsProgramChar x) (hrest : lexer.rest = x :: rest) :
    lexer.carried start primitive =
      (.error (.unexpectedChar x lexer.position), lexer.past [x] rest) := by
  rw [carried, hrest, ← consume_eq_past]
  exact if_neg hx

theorem ofChar?_eq_none (h : ∀ p : Primitive, x ∉ p.names) : Primitive.ofChar? x = none := by
  cases hname : Primitive.ofChar? x with
  | none => rfl
  | some p => exact absurd (Primitive.ofChar?_eq_some_iff.mp hname) (h p)

/-- A stray character is reported where a token would begin with `start`. -/
theorem next_at_stray (h : Stray start x) (hrest : lexer.rest = start ++ x :: rest) :
    lexer.next = (.error (.unexpectedChar x (lexer.position.advanceAll start)),
      lexer.past (start ++ [x]) rest) := by
  cases h with
  | first htrivia hsign hname =>
    refine next_of_begun htrivia hrest ?_
    rw [begun, if_neg hsign.1, if_neg hsign.2.1, if_neg hsign.2.2, ofChar?_eq_none hname]
    rfl
  | @carried sign _ hsign hchar =>
    have hbegun (primitive : Char → Primitive) :
        (lexer.past [sign] (x :: rest)).carried lexer.position primitive =
          (.error (.unexpectedChar x (lexer.position.advanceAll [sign])),
            lexer.past ([sign] ++ [x]) rest) := by
      rw [carried_of_not_isProgramChar hchar (rest_past ..), past_past, position_past]
    rcases hsign with rfl | rfl
    · exact next_of_begun (by decide) hrest (hbegun .print)
    · exact next_of_begun (by decide) hrest (hbegun .compare)

/-- **A stray character is reported,** whatever comes after it. -/
theorem next_of_stray (htrivia : Trivia trivia) (h : Stray start x)
    (hrest : lexer.rest = trivia ++ (start ++ x :: rest)) :
    lexer.next = (.error (.unexpectedChar x (lexer.position.advanceAll (trivia ++ start))),
      lexer.past (trivia ++ (start ++ [x])) rest) := by
  rw [next_of_trivia htrivia hrest, next_at_stray h (rest_past ..), past_past, position_past,
    Position.advanceAll_append]

/-! ### Ends of texts -/

/-- A sign is reported behind which the text ends. -/
theorem next_of_cut {sign : Char} (htrivia : Trivia trivia) (hsign : sign = '.' ∨ sign = '?')
    (hrest : lexer.rest = trivia ++ [sign]) :
    lexer.next = (.error (.unexpectedEnd "a character after `.` or `?`"
      (lexer.position.advanceAll lexer.rest)), lexer.past lexer.rest []) := by
  have hbehind : (lexer.past trivia [sign]).next =
      (.error (.unexpectedEnd "a character after `.` or `?`"
        ((lexer.past trivia [sign]).position.advanceAll [sign])),
      (lexer.past trivia [sign]).past [sign] []) := by
    rcases hsign with rfl | rfl <;> exact next_of_begun (by decide) (rest_past ..) rfl
  rw [next_of_trivia htrivia hrest, hbehind, past_past, position_past, hrest,
    Position.advanceAll_append]

/-- Nothing is found where only trivia is left. -/
theorem next_of_trailing (h : TrailingTrivia lexer.rest) :
    lexer.next = (.ok none, lexer.past lexer.rest []) := by
  rcases lexer.skipTrivia_cases with ⟨-, hskip⟩ | ⟨trivia, x, rest, -, -, -, hskip⟩
  · rw [next, hskip]
    rfl
  · have hnothing : lexer.skipTrivia.rest = [] := rest_skipTrivia_eq_nil_iff.mpr h
    rw [hskip] at hnothing
    cases hnothing

/-! ### What is reported -/

/-- No token comes next, and the error tells why a token is expected in vain. -/
inductive Lacks (lexer : Lexer) : SyntaxError → Prop
  | stray {trivia start rest : List Char} {x : Char} (space : Trivia trivia)
      (stray : Stray start x) (left : lexer.rest = trivia ++ (start ++ x :: rest)) :
      Lacks lexer (.unexpectedChar x (lexer.position.advanceAll (trivia ++ start)))
  /-- The text ends where a character should be carried. -/
  | cut {trivia : List Char} {sign : Char} (space : Trivia trivia)
      (carries : sign = '.' ∨ sign = '?') (left : lexer.rest = trivia ++ [sign]) :
      Lacks lexer
        (.unexpectedEnd "a character after `.` or `?`" (lexer.position.advanceAll lexer.rest))
  /-- The text ends before a token begins. -/
  | ended (trailing : TrailingTrivia lexer.rest) :
      Lacks lexer
        (.unexpectedEnd "an expression" (lexer.position.advanceAll lexer.rest))

theorem begun_ne_ok_none {start : Position} : lexer.begun start x ≠ (.ok none, lexer') := by
  have hcarried (primitive : Char → Primitive) :
      lexer.carried start primitive ≠ (.ok none, lexer') := by
    unfold carried
    split
    · simp
    · split <;> simp
  unfold begun
  split
  · simp
  split
  · exact hcarried .print
  split
  · exact hcarried .compare
  split <;> simp

theorem trailingTrivia_of_next_none (h : lexer.next = (.ok none, lexer')) :
    TrailingTrivia lexer.rest := by
  rcases lexer.skipTrivia_cases with ⟨htrailing, -⟩ | ⟨trivia, x, rest, -, -, -, hskip⟩
  · exact htrailing
  · rw [next, hskip] at h
    exact absurd h begun_ne_ok_none

/-- **A lexer that finds nothing but trivia** is at the end of a text. -/
theorem lacks_of_next_none (h : lexer.next = (.ok none, lexer')) :
    lexer.Lacks (.unexpectedEnd "an expression" lexer'.position) := by
  have htrailing := trailingTrivia_of_next_none h
  obtain ⟨-, rfl⟩ := Prod.mk.inj ((next_of_trailing htrailing).symm.trans h)
  exact .ended htrailing

theorem lacks_of_carried {sign : Char} {start : Position} {primitive : Char → Primitive}
    (htrivia : Trivia trivia) (hsign : sign = '.' ∨ sign = '?')
    (hrest : lexer.rest = trivia ++ sign :: rest)
    (h : (lexer.past (trivia ++ [sign]) rest).carried start primitive = (.error error, lexer')) :
    lexer.Lacks error := by
  unfold carried at h
  rw [rest_past] at h
  cases rest with
  | nil =>
    obtain ⟨herror, -⟩ := Prod.mk.inj h
    obtain rfl := Except.error.inj herror
    have hcut := Lacks.cut htrivia hsign hrest
    rwa [hrest] at hcut
  | cons x rest =>
    dsimp only at h
    split at h
    · cases h
    · next hchar =>
      obtain ⟨herror, -⟩ := Prod.mk.inj h
      obtain rfl := Except.error.inj herror
      exact .stray htrivia (.carried hsign hchar) hrest

/-- **A lexer that reports an error** is in front of a stray character, or at the end of a text
that breaks off behind a sign. -/
theorem lacks_of_next_error (h : lexer.next = (.error error, lexer')) : lexer.Lacks error := by
  rcases lexer.skipTrivia_cases with ⟨-, hskip⟩ | ⟨trivia, x, rest, htrivia, hx, hrest, hskip⟩
  · rw [next, hskip] at h
    cases h
  · rw [next, hskip] at h
    simp only [rest_past, consume_eq_past, past_past, position_past] at h
    unfold begun at h
    split at h
    · cases h
    next hquote =>
    split at h
    · next hdot => exact lacks_of_carried htrivia (.inl rfl) (hdot ▸ hrest) (hdot ▸ h)
    next hdot =>
    split at h
    · next hmark => exact lacks_of_carried htrivia (.inr rfl) (hmark ▸ hrest) (hmark ▸ h)
    next hmark =>
    split at h
    · cases h
    · next hname =>
      obtain ⟨herror, -⟩ := Prod.mk.inj h
      obtain rfl := Except.error.inj herror
      have hnames (p : Primitive) : x ∉ p.names := by
        intro hp
        rw [Primitive.ofChar?_eq_some_iff.mpr hp] at hname
        cases hname
      have hstray := Lacks.stray htrivia (.first hx ⟨hquote, hdot, hmark⟩ hnames) hrest
      rwa [List.append_nil] at hstray

end Lexer

end Unlambda.Source
