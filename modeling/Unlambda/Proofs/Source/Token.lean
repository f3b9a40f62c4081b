import Unlambda.Proofs.Source.Trivia

/-!
# Spelled tokens

A token can be spelled in one or two ways: a letter in either case, a sign, or `.` or `?` with
the character behind it. This module says so without a lexer, and then shows that a lexer finds
a token just where trivia and one of its spellings come next.

## Main definitions

* `Unlambda.Primitive.names`: the characters that name a primitive by themselves
* `Unlambda.Primitive.Spelled`, `Unlambda.Source.Lexeme.Spelled`: the texts of a token

## Main results

* `Unlambda.Primitive.ofChar?_eq_some_iff`: which character names which primitive
* `Unlambda.Source.Lexer.next_eq_token_iff`: which token a lexer finds, and where it stands
  afterwards
-/

namespace Unlambda

namespace Primitive

/-- The characters that name a primitive by themselves. -/
def names : Primitive → List Char
  | s => ['s', 'S']
  | k => ['k', 'K']
  | i => ['i', 'I']
  | v => ['v', 'V']
  | c => ['c', 'C']
  | d => ['d', 'D']
  | e => ['e', 'E']
  | r => ['r', 'R']
  | read => ['@']
  | reprint => ['|']
  | print _ => []
  | compare _ => []

/-- The texts that spell a primitive. -/
inductive Spelled : Primitive → List Char → Prop
  | name {p : Primitive} {x : Char} (named : x ∈ p.names) : Spelled p [x]
  | print {x : Char} (carried : IsProgramChar x) : Spelled (.print x) ['.', x]
  | compare {x : Char} (carried : IsProgramChar x) : Spelled (.compare x) ['?', x]

variable {p : Primitive} {x : Char}

/-- A character and its lower case are the same, or the character is an upper-case letter. -/
theorem eq_or_eq_ofNat_of_toLower_eq {x y : Char} (h : x.toLower = y) :
    x = y ∨ 65 ≤ x.toNat ∧ x.toNat ≤ 90 ∧ x = Char.ofNat (y.toNat - 32) := by
  unfold Char.toLower at h
  split at h
  · next hupper =>
    right
    have hlow : 65 ≤ x.toNat := UInt32.le_iff_toNat_le.mp hupper.1
    have hhigh : x.toNat ≤ 90 := UInt32.le_iff_toNat_le.mp hupper.2
    have hsum : y.toNat = x.toNat + 32 := by
      rw [← h]
      change (x.val + 32).toNat = x.val.toNat + 32
      rw [UInt32.toNat_add]
      exact Nat.mod_eq_of_lt (by change x.toNat + 32 < 2 ^ 32; omega)
    refine ⟨hlow, hhigh, ?_⟩
    rw [hsum, Nat.add_sub_cancel, Char.ofNat_toNat]
  · exact .inl h

/-- **Which character names which primitive.** -/
theorem ofChar?_eq_some_iff : ofChar? x = some p ↔ x ∈ p.names := by
  constructor
  · intro h
    unfold ofChar? at h
    split at h <;> cases h
    -- Each letter is left with its lower case and its upper case, and each sign with itself.
    all_goals
      next hx =>
        rcases eq_or_eq_ofNat_of_toLower_eq hx with rfl | ⟨hlow, hhigh, rfl⟩
        · decide
        · revert hlow hhigh
          decide
  · intro h
    cases p <;> simp only [names, List.mem_cons, List.not_mem_nil, or_false] at h
    case read | reprint => subst h; rfl
    all_goals rcases h with rfl | rfl <;> rfl

end Primitive

namespace Source

/-- The texts that spell a token. -/
inductive Lexeme.Spelled : Lexeme → List Char → Prop
  | apply : Spelled .apply ['\x60']
  | primitive {p : Primitive} {text : List Char} (spelled : p.Spelled text) :
      Spelled (.primitive p) text

namespace Lexer

variable {lexer lexer' : Lexer} {lexeme : Lexeme} {token : Token} {x : Char}
  {text trivia rest : List Char}

/-! ### Spelled tokens are found -/

theorem carried_of_isProgramChar {start : Position} {primitive : Char → Primitive}
    (hx : IsProgramChar x) (hrest : lexer.rest = x :: rest) :
    lexer.carried start primitive =
      (.ok (some ⟨.primitive (primitive x), start⟩), lexer.past [x] rest) := by
  rw [carried, hrest, ← consume_eq_past]
  exact if_pos hx

/-- The characters that name a primitive are neither trivia nor the beginning of a longer
token. -/
theorem begun_of_mem_names {p : Primitive} (hx : x ∈ p.names) (start : Position) :
    Gap.space.after? x = none ∧
      lexer.begun start x = (.ok (some ⟨.primitive p, start⟩), lexer) := by
  have hplain : Gap.space.after? x = none ∧ x ≠ '\x60' ∧ x ≠ '.' ∧ x ≠ '?' := by
    cases p <;> simp only [Primitive.names, List.mem_cons, List.not_mem_nil, or_false] at hx
    case read | reprint => subst hx; decide
    all_goals rcases hx with rfl | rfl <;> decide
  obtain ⟨hspace, hquote, hdot, hmark⟩ := hplain
  refine ⟨hspace, ?_⟩
  rw [begun, if_neg hquote, if_neg hdot, if_neg hmark, Primitive.ofChar?_eq_some_iff.mpr hx]

theorem next_of_begun {answer : Except SyntaxError (Option Token) × Lexer}
    (hx : Gap.space.after? x = none) (hrest : lexer.rest = x :: rest)
    (hbegun : (lexer.past [x] rest).begun lexer.position x = answer) : lexer.next = answer := by
  rw [next, skipTrivia_of_token hx hrest]
  simp only [hrest]
  rw [consume_eq_past]
  exact hbegun

theorem next_of_carried {first : Char} {primitive : Char → Primitive}
    (hfirst : Gap.space.after? first = none)
    (hbegun : ∀ (lexer : Lexer) start, lexer.begun start first = lexer.carried start primitive)
    (hx : IsProgramChar x) (hrest : lexer.rest = first :: x :: rest) :
    lexer.next =
      (.ok (some ⟨.primitive (primitive x), lexer.position⟩), lexer.past [first, x] rest) := by
  refine next_of_begun hfirst hrest ?_
  rw [hbegun, carried_of_isProgramChar hx (rest_past ..), past_past]
  rfl

/-- A token that comes next is found at once. -/
theorem next_at_token (h : lexeme.Spelled text) (hrest : lexer.rest = text ++ rest) :
    lexer.next = (.ok (some ⟨lexeme, lexer.position⟩), lexer.past text rest) := by
  cases h with
  | apply => exact next_of_begun (by decide) hrest rfl
  | primitive spelled =>
    cases spelled with
    | name named =>
      obtain ⟨hspace, hbegun⟩ := begun_of_mem_names named lexer.position
      exact next_of_begun hspace hrest hbegun
    | print carried | compare carried =>
      exact next_of_carried (by decide) (fun _ _ => rfl) carried hrest

/-- What comes next is found behind any trivia. -/
theorem next_of_trivia (htrivia : Trivia trivia) (hrest : lexer.rest = trivia ++ rest) :
    lexer.next = (lexer.past trivia rest).next := by
  rw [next, next, skipTrivia_of_trivia htrivia hrest]

/-- A token is found behind any trivia. -/
theorem next_of_spelled (htrivia : Trivia trivia) (h : lexeme.Spelled text)
    (hrest : lexer.rest = trivia ++ text ++ rest) :
    lexer.next = (.ok (some ⟨lexeme, lexer.position.advanceAll trivia⟩),
      lexer.past (trivia ++ text) rest) := by
  rw [List.append_assoc] at hrest
  rw [next_of_trivia htrivia hrest, next_at_token h (rest_past ..), past_past, position_past]

/-! ### What is found is spelled -/

theorem spelled_of_carried {start : Position} {primitive : Char → Primitive} {first : Char}
    (hspelled : ∀ x, IsProgramChar x → (primitive x).Spelled [first, x])
    (h : lexer.carried start primitive = (.ok (some token), lexer')) :
    token.position = start ∧ ∃ x, lexer.rest = x :: lexer'.rest ∧
      lexer' = lexer.past [x] lexer'.rest ∧ token.lexeme.Spelled [first, x] := by
  unfold carried at h
  split at h
  · cases h
  · next x rest hrest =>
    split at h
    · next hx =>
      obtain ⟨htoken, rfl⟩ := Prod.mk.inj h
      obtain rfl := Option.some.inj (Except.ok.inj htoken)
      exact ⟨rfl, x, hrest, consume_eq_past lexer x rest, .primitive (hspelled x hx)⟩
    · cases h

/-- What is found behind the first character of a token is the rest of one of its
spellings. -/
theorem spelled_of_begun {start : Position}
    (h : lexer.begun start x = (.ok (some token), lexer')) :
    token.position = start ∧ ∃ text, lexer.rest = text ++ lexer'.rest ∧
      lexer' = lexer.past text lexer'.rest ∧ token.lexeme.Spelled (x :: text) := by
  unfold begun at h
  split at h
  · next hx =>
    obtain ⟨htoken, rfl⟩ := Prod.mk.inj h
    obtain rfl := Option.some.inj (Except.ok.inj htoken)
    exact ⟨rfl, [], rfl, (past_nil rfl).symm, hx ▸ .apply⟩
  split at h
  · next hx =>
    obtain ⟨hstart, y, hrest, hpast, hspelled⟩ := spelled_of_carried (fun _ => .print) h
    exact ⟨hstart, [y], hrest, hpast, hx ▸ hspelled⟩
  split at h
  · next hx =>
    obtain ⟨hstart, y, hrest, hpast, hspelled⟩ := spelled_of_carried (fun _ => .compare) h
    exact ⟨hstart, [y], hrest, hpast, hx ▸ hspelled⟩
  split at h
  · next p hp =>
    obtain ⟨htoken, rfl⟩ := Prod.mk.inj h
    obtain rfl := Option.some.inj (Except.ok.inj htoken)
    have hnamed : x ∈ p.names := Primitive.ofChar?_eq_some_iff.mp hp
    exact ⟨rfl, [], rfl, (past_nil rfl).symm, .primitive (.name hnamed)⟩
  · cases h

theorem spelled_of_next (h : lexer.next = (.ok (some token), lexer')) :
    ∃ trivia text, Trivia trivia ∧ token.lexeme.Spelled text ∧
      lexer.rest = trivia ++ text ++ lexer'.rest ∧
      lexer' = lexer.past (trivia ++ text) lexer'.rest ∧
      token.position = lexer.position.advanceAll trivia := by
  rcases lexer.skipTrivia_cases with ⟨-, hskip⟩ | ⟨trivia, x, rest, htrivia, -, hrest, hskip⟩
  · rw [next, hskip] at h
    cases h
  · rw [next, hskip] at h
    simp only [rest_past, consume_eq_past, past_past, position_past] at h
    obtain ⟨hstart, text, htext, hpast, hspelled⟩ := spelled_of_begun h
    rw [rest_past] at htext
    rw [past_past, List.append_assoc] at hpast
    refine ⟨trivia, x :: text, htrivia, hspelled, ?_, hpast, hstart⟩
    rw [hrest, htext, List.append_assoc, List.cons_append]

/-- **Which token a lexer finds.** It is one of which a spelling comes next, behind any amount
of trivia. Afterwards the lexer stands behind this spelling. -/
theorem next_eq_token_iff :
    lexer.next = (.ok (some token), lexer') ↔
      ∃ trivia text rest, Trivia trivia ∧ token.lexeme.Spelled text ∧
        lexer.rest = trivia ++ text ++ rest ∧ lexer' = lexer.past (trivia ++ text) rest ∧
        token.position = lexer.position.advanceAll trivia := by
  constructor
  · intro h
    obtain ⟨trivia, text, htrivia, hspelled, hrest, hpast, hposition⟩ := spelled_of_next h
    exact ⟨trivia, text, lexer'.rest, htrivia, hspelled, hrest, hpast, hposition⟩
  · rintro ⟨trivia, text, rest, htrivia, hspelled, hrest, rfl, hposition⟩
    rw [next_of_spelled htrivia hspelled hrest, ← hposition]

end Lexer

end Source

end Unlambda
