import Unlambda.Source.Lexer

/-!
# Trivia

Between two tokens there may be white space and comments. A comment runs from `#` through the
next newline, whatever it contains; only at the end of a text may the newline be missing. This
module says so without a lexer, and then shows that a lexer skips just that much.

## Main definitions

* `Unlambda.Source.Trivia`: what may stand in front of a token
* `Unlambda.Source.TrailingTrivia`: what may stand at the end of a text
* `Unlambda.Source.Lexer.past`: a lexer once a text has been consumed

## Main results

* `Unlambda.Source.Lexer.skip_eq_past`: what is skipped is trivia
* `Unlambda.Source.Lexer.skipTrivia_cases`: where a lexer stops to skip
* `Unlambda.Source.Lexer.skipTrivia_of_trivia`: all trivia in front of a token is skipped
* `Unlambda.Source.Lexer.rest_skipTrivia_eq_nil_iff`: nothing is left just behind trailing
  trivia
-/

namespace Unlambda.Source

/-- White space and comments, each comment closed by a newline. -/
inductive Trivia : List Char → Prop
  | nil : Trivia []
  | space {x : Char} {text : List Char} (space : Gap.IsSpace x) (trivia : Trivia text) :
      Trivia (x :: text)
  | comment {body text : List Char} (oneLine : '\n' ∉ body) (trivia : Trivia text) :
      Trivia ('#' :: (body ++ '\n' :: text))

/-- White space and comments up to the end of a text, which may close the last comment. -/
inductive TrailingTrivia : List Char → Prop
  | closed {text : List Char} (trivia : Trivia text) : TrailingTrivia text
  | unclosed {text body : List Char} (trivia : Trivia text) (oneLine : '\n' ∉ body) :
      TrailingTrivia (text ++ '#' :: body)

variable {x : Char} {text body trivia rest : List Char}

theorem TrailingTrivia.space (space : Gap.IsSpace x) (h : TrailingTrivia text) :
    TrailingTrivia (x :: text) := by
  cases h with
  | closed trivia => exact .closed (.space space trivia)
  | unclosed trivia oneLine => exact .unclosed (.space space trivia) oneLine

theorem TrailingTrivia.comment (oneLine : '\n' ∉ body) (h : TrailingTrivia text) :
    TrailingTrivia ('#' :: (body ++ '\n' :: text)) := by
  cases h with
  | closed trivia => exact .closed (.comment oneLine trivia)
  | @unclosed before last trivia lastLine =>
    have h : TrailingTrivia ('#' :: (body ++ '\n' :: before) ++ '#' :: last) :=
      .unclosed (.comment oneLine trivia) lastLine
    simpa using h

theorem trailingTrivia_comment (oneLine : '\n' ∉ body) : TrailingTrivia ('#' :: body) :=
  .unclosed .nil oneLine

/-! ### Longer comments -/

theorem not_isSpace_hash : ¬Gap.IsSpace '#' := by decide

theorem not_mem_cons_of_ne (hx : x ≠ '\n') (h : '\n' ∉ body) : '\n' ∉ x :: body := by
  simp only [List.mem_cons, not_or]
  exact ⟨hx.symm, h⟩

/-- A comment may be longer. -/
theorem Trivia.insert (hx : x ≠ '\n') (h : Trivia ('#' :: text)) : Trivia ('#' :: x :: text) := by
  cases h with
  | space space _ => exact absurd space not_isSpace_hash
  | @comment body after oneLine trivia =>
    exact @Trivia.comment (x :: body) after (not_mem_cons_of_ne hx oneLine) trivia

theorem TrailingTrivia.insert (hx : x ≠ '\n') (h : TrailingTrivia ('#' :: text)) :
    TrailingTrivia ('#' :: x :: text) := by
  generalize hcomment : '#' :: text = comment at h
  cases h with
  | closed trivia =>
    subst hcomment
    exact .closed (trivia.insert hx)
  | @unclosed before last trivia lastLine =>
    cases before with
    | nil =>
      -- The comment is the one that is not closed.
      obtain ⟨-, rfl⟩ := List.cons.inj hcomment
      exact trailingTrivia_comment (not_mem_cons_of_ne hx lastLine)
    | cons y before =>
      obtain ⟨rfl, rfl⟩ := List.cons.inj hcomment
      exact @TrailingTrivia.unclosed ('#' :: x :: before) last (trivia.insert hx) lastLine

/-- Trivia may be followed by more trivia. -/
theorem Trivia.append (h : Trivia text) (htrivia : Trivia trivia) : Trivia (text ++ trivia) := by
  induction h with
  | nil => exact htrivia
  | space space _ ih => exact .space space ih
  | @comment body text oneLine _ ih =>
    rw [List.cons_append, List.append_assoc, List.cons_append]
    exact .comment oneLine ih

/-- A newline closes whatever comment is open. -/
theorem TrailingTrivia.append_newline (h : TrailingTrivia text) : Trivia (text ++ ['\n']) := by
  cases h with
  | closed trivia => exact trivia.append (.space (by decide) .nil)
  | unclosed trivia oneLine =>
    rw [List.append_assoc]
    exact trivia.append (.comment oneLine .nil)

/-! ### Lexers that have consumed a text -/

namespace Lexer

variable {lexer : Lexer} {position : Position} {bytes : Nat}

/-- The lexer once `text` has been consumed and `rest` is left. -/
def past (lexer : Lexer) (text rest : List Char) : Lexer :=
  ⟨lexer.position.advanceAll text,
    text.foldl (fun bytes x => bytes + x.utf8Size) lexer.bytes, rest⟩

@[simp] theorem rest_past (lexer : Lexer) (text rest : List Char) :
    (lexer.past text rest).rest = rest := rfl

@[simp] theorem position_past (lexer : Lexer) (text rest : List Char) :
    (lexer.past text rest).position = lexer.position.advanceAll text := rfl

theorem past_nil (h : lexer.rest = rest) : lexer.past [] rest = lexer := by
  subst h
  rfl

theorem past_past (lexer : Lexer) (a b rest rest' : List Char) :
    (lexer.past a rest).past b rest' = lexer.past (a ++ b) rest' := by
  simp only [past, Position.advanceAll_append, List.foldl_append]

theorem consume_eq_past (lexer : Lexer) (x : Char) (rest : List Char) :
    lexer.consume x rest = lexer.past [x] rest := rfl

/-- The character that brings a lexer into a gap of this kind. -/
def opening : Gap → List Char
  | .space => []
  | .comment => ['#']

/-- **What is skipped is trivia.** Only if nothing is left need its last comment not be
closed. -/
theorem skip_eq_past (gap : Gap) (position : Position) (bytes : Nat) (text : List Char) :
    ∃ trivia rest, text = trivia ++ rest ∧
      skip gap position bytes text = past ⟨position, bytes, text⟩ trivia rest ∧
      (Trivia (opening gap ++ trivia) ∨ rest = [] ∧ TrailingTrivia (opening gap ++ trivia)) := by
  induction text generalizing gap position bytes with
  | nil =>
    refine ⟨[], [], rfl, rfl, ?_⟩
    cases gap with
    | space => exact .inl .nil
    | comment => exact .inr ⟨rfl, trailingTrivia_comment List.not_mem_nil⟩
  | cons x text ih =>
    -- Whatever is skipped behind `x` is skipped together with `x`.
    have extend (gap' : Gap) (hafter : gap.after? x = some gap')
        (htrivia : ∀ trivia, Trivia (opening gap' ++ trivia) → Trivia (opening gap ++ x :: trivia))
        (htrailing : ∀ trivia, TrailingTrivia (opening gap' ++ trivia) →
          TrailingTrivia (opening gap ++ x :: trivia)) :
        ∃ trivia rest, x :: text = trivia ++ rest ∧
          skip gap position bytes (x :: text) =
            past ⟨position, bytes, x :: text⟩ trivia rest ∧
          (Trivia (opening gap ++ trivia) ∨
            rest = [] ∧ TrailingTrivia (opening gap ++ trivia)) := by
      obtain ⟨trivia, rest, rfl, hskip, h⟩ := ih gap' (position.advance x) (bytes + x.utf8Size)
      refine ⟨x :: trivia, rest, rfl, ?_, h.imp (htrivia trivia) (.imp_right (htrailing trivia))⟩
      rw [skip, hafter]
      exact hskip
    cases gap with
    | space =>
      by_cases hhash : x = '#'
      · subst hhash
        exact extend .comment rfl (fun _ h => h) (fun _ h => h)
      by_cases hspace : Gap.IsSpace x
      · exact extend .space (by simp [Gap.after?, hhash, hspace])
          (fun _ => .space hspace) (fun _ => .space hspace)
      · refine ⟨[], x :: text, rfl, ?_, .inl .nil⟩
        simp [skip, Gap.after?, hhash, hspace, past]
    | comment =>
      by_cases hnewline : x = '\n'
      · subst hnewline
        exact extend .space rfl (fun _ => @Trivia.comment [] _ List.not_mem_nil)
          (fun _ => @TrailingTrivia.comment _ [] List.not_mem_nil)
      · exact extend .comment (by simp [Gap.after?, hnewline])
          (fun _ => .insert hnewline) (fun _ => .insert hnewline)

/-- Where a lexer stops to skip, no more trivia comes next. -/
theorem after?_of_rest_skip {gap : Gap} {position : Position} {bytes : Nat}
    (h : (skip gap position bytes text).rest = x :: rest) : Gap.space.after? x = none := by
  induction text generalizing gap position bytes with
  | nil => cases h
  | cons y text ih =>
    rw [skip] at h
    split at h
    · exact ih h
    · next hafter =>
      obtain ⟨rfl, -⟩ := List.cons.inj h
      cases gap with
      | space => exact hafter
      | comment => cases hafter

/-- A lexer skips up to a character that is no trivia, or it skips all. -/
theorem skipTrivia_cases (lexer : Lexer) :
    (TrailingTrivia lexer.rest ∧ lexer.skipTrivia = lexer.past lexer.rest []) ∨
    ∃ trivia x rest, Trivia trivia ∧ Gap.space.after? x = none ∧
      lexer.rest = trivia ++ x :: rest ∧ lexer.skipTrivia = lexer.past trivia (x :: rest) := by
  obtain ⟨trivia, rest, hrest, hskip, htrivia⟩ :=
    skip_eq_past .space lexer.position lexer.bytes lexer.rest
  have hskipped : lexer.skipTrivia = lexer.past trivia rest := hskip
  cases rest with
  | nil =>
    rw [List.append_nil] at hrest
    refine .inl ⟨?_, hrest ▸ hskipped⟩
    rw [hrest]
    exact htrivia.elim .closed And.right
  | cons x rest =>
    have hclosed : Trivia trivia := htrivia.resolve_right fun hend => List.cons_ne_nil _ _ hend.1
    have hstop : (skip .space lexer.position lexer.bytes lexer.rest).rest = x :: rest := by
      rw [hskip, rest_past]
    exact .inr ⟨trivia, x, rest, hclosed, after?_of_rest_skip hstop, hrest, hskipped⟩

/-! ### All trivia is skipped -/

/-- The rest of a comment is skipped with its newline. -/
theorem skip_comment (oneLine : '\n' ∉ body) (position : Position) (bytes : Nat)
    (rest : List Char) :
    skip .comment position bytes (body ++ '\n' :: rest) =
      (past ⟨position, bytes, []⟩ (body ++ ['\n']) rest).skipTrivia := by
  induction body generalizing position bytes with
  | nil => simp [skip, Gap.after?, skipTrivia, past]
  | cons x body ih =>
    obtain ⟨hx, hbody⟩ := List.ne_and_not_mem_of_not_mem_cons oneLine
    rw [List.cons_append, skip, Gap.after?, if_neg hx.symm]
    exact ih hbody (position.advance x) (bytes + x.utf8Size)

/-- A comment that nothing closes is skipped to the end. -/
theorem rest_skip_comment (oneLine : '\n' ∉ body) (position : Position) (bytes : Nat) :
    (skip .comment position bytes body).rest = [] := by
  induction body generalizing position bytes with
  | nil => rfl
  | cons x body ih =>
    obtain ⟨hx, hbody⟩ := List.ne_and_not_mem_of_not_mem_cons oneLine
    rw [skip, Gap.after?, if_neg hx.symm]
    exact ih hbody _ _

/-- To skip trivia is to go past it, and then to skip what else there is. -/
theorem skipTrivia_of_trivia (h : Trivia trivia) (hrest : lexer.rest = trivia ++ rest) :
    lexer.skipTrivia = (lexer.past trivia rest).skipTrivia := by
  induction h generalizing lexer with
  | nil =>
    have hself : lexer.past [] rest = lexer := past_nil hrest
    rw [hself]
  | @space x text space _ ih =>
    have hafter : Gap.space.after? x = some .space := by
      have hhash : x ≠ '#' := fun h => not_isSpace_hash (h ▸ space)
      simp [Gap.after?, hhash, space]
    rw [skipTrivia, hrest, List.cons_append, skip, hafter]
    have hone : (lexer.past [x] (text ++ rest)).skipTrivia = _ := ih rfl
    rw [past_past] at hone
    simpa [skipTrivia, past] using hone
  | @comment body text oneLine _ ih =>
    have hafter : Gap.space.after? '#' = some .comment := rfl
    rw [skipTrivia, hrest, List.cons_append, skip, hafter]
    simp only [List.append_assoc, List.cons_append, skip_comment oneLine]
    have hone : (lexer.past ('#' :: body ++ ['\n']) (text ++ rest)).skipTrivia = _ := ih rfl
    rw [past_past] at hone
    simpa [skipTrivia, past, Nat.add_assoc] using hone

/-- A lexer in front of a token skips nothing. -/
theorem skipTrivia_of_token (hx : Gap.space.after? x = none) (hrest : lexer.rest = x :: rest) :
    lexer.skipTrivia = lexer := by
  rw [skipTrivia, hrest, skip, hx, ← hrest]

/-- A lexer skips the trivia in front of a token. -/
theorem skipTrivia_eq_past (h : Trivia trivia) (hx : Gap.space.after? x = none)
    (hrest : lexer.rest = trivia ++ x :: rest) :
    lexer.skipTrivia = lexer.past trivia (x :: rest) :=
  (skipTrivia_of_trivia h hrest).trans (skipTrivia_of_token hx (rest_past ..))

/-- **Nothing is left just behind trailing trivia.** -/
theorem rest_skipTrivia_eq_nil_iff : lexer.skipTrivia.rest = [] ↔ TrailingTrivia lexer.rest := by
  constructor
  · intro hnil
    rcases lexer.skipTrivia_cases with ⟨htrailing, -⟩ | ⟨trivia, x, rest, -, -, -, hskip⟩
    · exact htrailing
    · rw [hskip] at hnil
      cases hnil
  · intro h
    generalize hrest : lexer.rest = text at h
    cases h with
    | closed trivia =>
      rw [skipTrivia_of_trivia trivia (hrest.trans (List.append_nil text).symm)]
      rfl
    | @unclosed text body trivia oneLine =>
      rw [skipTrivia_of_trivia trivia hrest]
      exact rest_skip_comment oneLine _ _

end Lexer

end Unlambda.Source
