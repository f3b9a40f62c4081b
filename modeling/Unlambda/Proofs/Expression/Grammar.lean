import Unlambda.Expression.Parser
import Unlambda.Proofs.Source.Token

/-!
# The grammar of programs

A program is written with a backquote in front of each application, and with trivia in front of
any token. This module states the grammar as a relation between expressions and texts, and
shows that the reader accepts these texts and no others, although it keeps a list of openings
where the grammar has recursion.

## Main definitions

* `Unlambda.Expression.Renders`: the texts of an expression, up to its last token
* `Unlambda.Expression.proceed`: what the reader does with an expression that is complete

## Main results

* `Unlambda.Expression.Renders.readWithin_eq`: a text of an expression is read as a whole
* `Unlambda.Expression.exists_renders_of_readWithin`: what is read first is the text of an
  expression
* `Unlambda.Expression.read_eq_ok_iff`: what one reading takes from a text
* `Unlambda.Expression.parse_eq_ok_iff_renders`: the reader accepts the grammar
-/

namespace Unlambda.Expression

open Source

/-- `e.Renders text`: the text renders the expression. It ends with the last token. -/
inductive Renders : Expression → List Char → Prop
  | primitive {p : Primitive} {trivia text : List Char} (space : Trivia trivia)
      (spelled : p.Spelled text) : Renders (.primitive p) (trivia ++ text)
  | application {f x : Expression} {trivia text text' : List Char} (space : Trivia trivia)
      (operator : Renders f text) (operand : Renders x text') :
      Renders (.application f x) (trivia ++ '\x60' :: (text ++ text'))

/-- How the reader goes on with what an expression has completed: it is done, or reads what the
openings that are left wait for. -/
def proceed (completed : Expression ⊕ List Opening) (lexer : Lexer) :
    Except SyntaxError Expression × Lexer :=
  match completed with
  | .inl e => (.ok e, lexer)
  | .inr openings => readWithin openings lexer

variable {e f x : Expression} {openings : List Opening} {lexer lexer' middle : Lexer}
  {token : Token} {p : Primitive} {text rest : List Char} {error : SyntaxError}

/-! ### One token -/

theorem readWithin_of_error (hnext : lexer.next = (.error error, middle)) :
    readWithin openings lexer = (.error error, middle) := by
  rw [readWithin]
  split
  · next h =>
    cases hnext.symm.trans h
    rfl
  · next h => cases hnext.symm.trans h
  · next h => cases hnext.symm.trans h

theorem readWithin_of_none (hnext : lexer.next = (.ok none, middle)) :
    readWithin openings lexer =
      (.error (.unexpectedEnd "an expression" middle.position), middle) := by
  rw [readWithin]
  split
  · next h => cases hnext.symm.trans h
  · next h =>
    cases hnext.symm.trans h
    rfl
  · next h => cases hnext.symm.trans h

theorem readWithin_of_apply (hnext : lexer.next = (.ok (some token), middle))
    (htoken : token.lexeme = .apply) :
    readWithin openings lexer = readWithin (.operator :: openings) middle := by
  rw [readWithin]
  split
  · next h => cases hnext.symm.trans h
  · next h => cases hnext.symm.trans h
  · next token' lexer' h =>
    cases hnext.symm.trans h
    simp only [htoken]

theorem readWithin_of_primitive (hnext : lexer.next = (.ok (some token), middle))
    (htoken : token.lexeme = .primitive p) :
    readWithin openings lexer = proceed (complete (.primitive p) openings) middle := by
  rw [readWithin]
  split
  · next h => cases hnext.symm.trans h
  · next h => cases hnext.symm.trans h
  · next token' lexer' h =>
    cases hnext.symm.trans h
    simp only [htoken]
    cases complete (.primitive p) openings <;> rfl

/-- To read anything, there has to be a token. -/
theorem exists_next_of_readWithin (h : readWithin openings lexer = (.ok e, lexer')) :
    ∃ token middle, lexer.next = (.ok (some token), middle) := by
  rw [readWithin] at h
  split at h
  · cases h
  · cases h
  · next token middle hnext => exact ⟨token, middle, hnext⟩

/-! ### Texts of expressions are read -/

/-- **A text of an expression is read as a whole,** and then the reader goes on with the
expression. -/
theorem Renders.readWithin_eq (h : e.Renders text) (openings : List Opening)
    (hrest : lexer.rest = text ++ rest) :
    readWithin openings lexer = proceed (complete e openings) (lexer.past text rest) := by
  induction h generalizing openings lexer rest with
  | @primitive p trivia text space spelled =>
    have hnext := Lexer.next_of_spelled space (.primitive spelled) hrest
    exact readWithin_of_primitive hnext rfl
  | @application f x trivia text text' space operator operand ihf ihx =>
    have hquote : lexer.rest = trivia ++ ['\x60'] ++ (text ++ (text' ++ rest)) := by
      simpa using hrest
    have hnext := Lexer.next_of_spelled space .apply hquote
    -- The backquote opens the application, the operator fills its first place, and the operand
    -- completes it.
    calc readWithin openings lexer
      _ = readWithin (.operator :: openings)
            (lexer.past (trivia ++ ['\x60']) (text ++ (text' ++ rest))) :=
          readWithin_of_apply hnext rfl
      _ = readWithin (.operand f :: openings)
            (lexer.past (trivia ++ ['\x60'] ++ text) (text' ++ rest)) := by
          rw [ihf _ rfl, Lexer.past_past]
          rfl
      _ = proceed (complete (.application f x) openings)
            (lexer.past (trivia ++ '\x60' :: (text ++ text')) rest) := by
          rw [ihx _ rfl, Lexer.past_past]
          simp only [complete, List.append_assoc, List.cons_append, List.nil_append]

/-! ### What is read is a text of an expression -/

/-- **What is read first is the text of an expression,** and what is read after it is what the
reader goes on with. -/
theorem exists_renders_of_readWithin (h : readWithin openings lexer = (.ok e, lexer')) :
    ∃ part text rest, Renders part text ∧ lexer.rest = text ++ rest ∧
      proceed (complete part openings) (lexer.past text rest) = (.ok e, lexer') := by
  -- Induction on what is left: an application takes two readings behind its backquote.
  induction hlength : lexer.rest.length using Nat.strongRecOn generalizing openings lexer with
  | _ n ih =>
  subst hlength
  obtain ⟨token, middle, hnext⟩ := exists_next_of_readWithin h
  have hshorter := Lexer.length_rest_lt_of_next hnext
  obtain ⟨trivia, text, rest, hspace, hspelled, hrest, rfl, -⟩ := Lexer.next_eq_token_iff.mp hnext
  simp only [Lexer.rest_past] at hshorter
  cases htoken : token.lexeme with
  | primitive p =>
    rw [htoken] at hspelled
    cases hspelled with
    | primitive spelled =>
      rw [readWithin_of_primitive hnext htoken] at h
      exact ⟨.primitive p, trivia ++ text, rest, .primitive hspace spelled, hrest, h⟩
  | apply =>
    rw [htoken] at hspelled
    cases hspelled with
    | apply =>
      rw [readWithin_of_apply hnext htoken] at h
      -- The operator.
      obtain ⟨f, ftext, frest, hf, hfrest, h⟩ := ih _ hshorter h rfl
      rw [Lexer.rest_past] at hfrest
      rw [Lexer.past_past] at h
      have hoperand : readWithin (.operand f :: openings)
          (lexer.past (trivia ++ ['\x60'] ++ ftext) frest) = (.ok e, lexer') := h
      have hstill : frest.length < lexer.rest.length := by
        rw [hfrest, List.length_append] at hshorter
        omega
      -- The operand.
      obtain ⟨x, xtext, xrest, hx, hxrest, h⟩ := ih _ hstill hoperand rfl
      rw [Lexer.rest_past] at hxrest
      refine ⟨.application f x, trivia ++ '\x60' :: (ftext ++ xtext), xrest,
        .application hspace hf hx, ?_, ?_⟩
      · rw [hrest, hfrest, hxrest]
        simp only [List.append_assoc, List.cons_append, List.nil_append]
      · rw [Lexer.past_past] at h
        simpa only [complete, List.append_assoc, List.cons_append, List.nil_append] using h

/-- **What one reading takes from a text:** a rendering of the expression, and nothing of what
comes after it. -/
theorem read_eq_ok_iff :
    read lexer = (.ok e, lexer') ↔
      ∃ text rest, e.Renders text ∧ lexer.rest = text ++ rest ∧ lexer' = lexer.past text rest := by
  constructor
  · intro h
    obtain ⟨part, text, rest, hrenders, hrest, hproceed⟩ := exists_renders_of_readWithin h
    obtain ⟨hpart, hlexer⟩ := Prod.mk.inj hproceed
    obtain rfl := Except.ok.inj hpart
    exact ⟨text, rest, hrenders, hrest, hlexer.symm⟩
  · rintro ⟨text, rest, hrenders, hrest, rfl⟩
    exact hrenders.readWithin_eq [] hrest

/-! ### Whole texts -/

variable {source trailing : List Char}

theorem Renders.parse_eq_ok (h : e.Renders text) (htrailing : TrailingTrivia trailing) :
    parse (text ++ trailing) = .ok e := by
  have hread : read (.ofText (text ++ trailing)) = _ :=
    read_eq_ok_iff.mpr ⟨text, trailing, h, rfl, rfl⟩
  have hnothing : ((Lexer.ofText (text ++ trailing)).past text trailing).skipTrivia.rest = [] :=
    Lexer.rest_skipTrivia_eq_nil_iff.mpr htrailing
  rw [parse, hread]
  simp only [hnothing, List.isEmpty_nil, if_true]

theorem exists_renders_of_parse (h : parse source = .ok e) :
    ∃ text trailing, source = text ++ trailing ∧ e.Renders text ∧ TrailingTrivia trailing := by
  unfold parse at h
  split at h
  · cases h
  · next e' lexer hread =>
    obtain ⟨text, trailing, hrenders, hsource, rfl⟩ := read_eq_ok_iff.mp hread
    simp only at h
    split at h
    · next hempty =>
      obtain rfl := Except.ok.inj h
      have hnothing := List.isEmpty_iff.mp hempty
      exact ⟨text, trailing, hsource, hrenders, Lexer.rest_skipTrivia_eq_nil_iff.mp hnothing⟩
    · cases h

/-- **The reader accepts the grammar.** A text is read as `e` just if it is a rendering of `e`
with nothing but trivia behind it, where the end of the text may close a last comment. -/
theorem parse_eq_ok_iff_renders (source : List Char) (e : Expression) :
    parse source = .ok e ↔
      ∃ text trailing, source = text ++ trailing ∧ e.Renders text ∧ TrailingTrivia trailing := by
  constructor
  · exact exists_renders_of_parse
  · rintro ⟨text, trailing, rfl, hrenders, htrailing⟩
    exact hrenders.parse_eq_ok htrailing

/-- The first `#` is carried by `.` and opens no comment. The end of the text closes the last
comment. -/
example : parse "`.# #c\n k# end".toList =
    .ok (.application (.primitive (.print '#')) (.primitive .k)) := by with_unfolding_all rfl

end Unlambda.Expression
