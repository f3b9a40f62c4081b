import Unlambda.Proofs.Expression.Grammar
import Unlambda.Proofs.Source.Stray

/-!
# Where a text stops being the beginning of a program

A text that is no program is refused at the first character with which it stops being the
beginning of one. Up to there it can be completed: whatever is open can be filled with `i`. From
there on it cannot, since the reader never looks ahead: it would meet the same character at the
same place whatever came after it. If there is no such character, then the text only ends too
early.

## Main definitions

* `Unlambda.Expression.Leads`: to read a text is to come from some openings to others
* `Unlambda.Expression.Completable`: a text is the beginning of a program
* `Unlambda.Expression.Refused`: why and where a text is refused

## Main results

* `Unlambda.Expression.stops_of_readWithin`: how far the reader comes
* `Unlambda.Expression.exists_closing`: whatever is open can be filled
* `Unlambda.Expression.refused_of_parse`: a text that is no program is refused for a reason
* `Unlambda.Expression.error_at_first_hopeless_char`: the same in terms of offsets
-/

namespace Unlambda.Expression

open Source

variable {e : Expression} {openings openings' middle : List Opening} {lexer lexer' : Lexer}
  {error : SyntaxError} {source text text' part rest trivia : List Char} {x : Char}

/-! ### How far the reader comes -/

/-- To read the text is to come from the one list of openings to the other one, whatever comes
after the text. -/
def Leads (openings openings' : List Opening) (text : List Char) : Prop :=
  ∀ (lexer : Lexer) (rest : List Char), lexer.rest = text ++ rest →
    readWithin openings lexer = readWithin openings' (lexer.past text rest)

theorem Leads.nil (openings : List Opening) : Leads openings openings [] := by
  intro lexer rest hrest
  have hself : lexer.past [] rest = lexer := Lexer.past_nil hrest
  rw [hself]

theorem Leads.trans (h : Leads openings middle text) (h' : Leads middle openings' text') :
    Leads openings openings' (text ++ text') := by
  intro lexer rest hrest
  rw [List.append_assoc] at hrest
  rw [h lexer _ hrest, h' _ rest rfl, Lexer.past_past]

theorem leads_of_apply (htrivia : Trivia trivia) :
    Leads openings (.operator :: openings) (trivia ++ ['\x60']) := by
  intro lexer rest hrest
  exact readWithin_of_apply (Lexer.next_of_spelled htrivia .apply hrest) rfl

theorem leads_of_primitive {p : Primitive} (htrivia : Trivia trivia) (hspelled : p.Spelled text)
    (hopen : complete (.primitive p) openings = .inr openings') :
    Leads openings openings' (trivia ++ text) := by
  intro lexer rest hrest
  rw [readWithin_of_primitive (Lexer.next_of_spelled htrivia (.primitive hspelled) hrest) rfl,
    hopen]
  rfl

/-- From these openings the reader comes to a place where the next token is missing. -/
def Stops (openings : List Opening) (lexer : Lexer) (error : SyntaxError) : Prop :=
  ∃ openings' text rest, lexer.rest = text ++ rest ∧ Leads openings openings' text ∧
    (lexer.past text rest).Lacks error

theorem stops_of_lacks (openings : List Opening) (h : lexer.Lacks error) :
    Stops openings lexer error :=
  ⟨openings, [], lexer.rest, rfl, .nil openings, h⟩

theorem Stops.of_leads (hrest : lexer.rest = text ++ rest) (hleads : Leads openings middle text)
    (h : Stops middle (lexer.past text rest) error) : Stops openings lexer error := by
  obtain ⟨openings', text', rest', hrest', hleads', hlacks⟩ := h
  rw [Lexer.rest_past] at hrest'
  rw [Lexer.past_past] at hlacks
  refine ⟨openings', text ++ text', rest', ?_, hleads.trans hleads', hlacks⟩
  rw [hrest, hrest', List.append_assoc]

/-- **How far the reader comes.** If it reports an error, then it has read some tokens, and the
next one is missing. -/
theorem stops_of_readWithin (h : readWithin openings lexer = (.error error, lexer')) :
    Stops openings lexer error := by
  -- The cases are those of the reader: no token, a backquote, and a primitive that does or does
  -- not complete the outermost application.
  fun_induction readWithin openings lexer with
  | case1 openings lexer reported after hnext =>
    obtain ⟨herror, -⟩ := Prod.mk.inj h
    obtain rfl := Except.error.inj herror
    exact stops_of_lacks openings (Lexer.lacks_of_next_error hnext)
  | case2 openings lexer after hnext =>
    obtain ⟨herror, -⟩ := Prod.mk.inj h
    obtain rfl := Except.error.inj herror
    exact stops_of_lacks openings (Lexer.lacks_of_next_none hnext)
  | case3 openings lexer token after hnext hshorter happly ih =>
    obtain ⟨trivia, text, rest, htrivia, hspelled, hrest, rfl, -⟩ :=
      Lexer.next_eq_token_iff.mp hnext
    rw [happly] at hspelled
    cases hspelled with
    | apply => exact .of_leads hrest (leads_of_apply htrivia) (ih h)
  | case4 openings lexer token after hnext hshorter p hprimitive e hcomplete => cases h
  | case5 openings lexer token after hnext hshorter p hprimitive openings' hcomplete ih =>
    obtain ⟨trivia, text, rest, htrivia, hspelled, hrest, rfl, -⟩ :=
      Lexer.next_eq_token_iff.mp hnext
    rw [hprimitive] at hspelled
    cases hspelled with
    | primitive spelled =>
      exact .of_leads hrest (leads_of_primitive htrivia spelled hcomplete) (ih h)

/-! ### Whatever is open can be filled -/

/-- The text is the beginning of a program. -/
def Completable (text : List Char) : Prop := ∃ rest e, parse (text ++ rest) = .ok e

/-- **Whatever is open can be filled.** Behind every expression there is a text that completes
the openings. -/
theorem exists_closing (e : Expression) (openings : List Opening) :
    ∃ text, ∀ lexer : Lexer, lexer.rest = text →
      ∃ e', proceed (complete e openings) lexer = (.ok e', lexer.past text []) := by
  induction openings generalizing e with
  | nil => exact ⟨[], fun lexer hrest => ⟨e, by rw [Lexer.past_nil hrest]; rfl⟩⟩
  | cons opening openings ih =>
    cases opening with
    | operand f => exact ih (application f e)
    | operator =>
      -- The operand can be `i`, and then the application is complete.
      obtain ⟨text, htext⟩ := ih (application e (primitive .i))
      refine ⟨'i' :: text, fun lexer hrest => ?_⟩
      obtain ⟨e', he'⟩ := htext (lexer.past ['i'] text) rfl
      have hspelled : Primitive.i.Spelled ['i'] := .name (by decide)
      have hnext := Lexer.next_of_spelled .nil (.primitive hspelled) hrest
      refine ⟨e', ?_⟩
      rw [Lexer.past_past] at he'
      exact (readWithin_of_primitive hnext rfl).trans he'

theorem parse_of_read_of_rest (hread : read (.ofText source) = (.ok e, lexer))
    (hrest : lexer.rest = []) : parse source = .ok e := by
  have hnothing : lexer.skipTrivia.rest = [] :=
    Lexer.rest_skipTrivia_eq_nil_iff.mpr (hrest ▸ .closed .nil)
  rw [parse, hread]
  simp only [hnothing, List.isEmpty_nil, if_true]

/-- **What the reader has read can be completed,** together with the beginning of a further
primitive. -/
theorem Leads.completable (h : Leads [] openings text) (hpart : BeginsPrimitive part) :
    Completable (text ++ part) := by
  obtain ⟨more, trivia, spelling, p, hmore, htrivia, hspelled⟩ := hpart
  obtain ⟨closing, hclosing⟩ := exists_closing (primitive p) openings
  have hsource : text ++ part ++ (more ++ closing) = text ++ (trivia ++ spelling ++ closing) := by
    rw [← hmore]
    simp only [List.append_assoc]
  have hnext := Lexer.next_of_spelled htrivia (.primitive hspelled) (Lexer.rest_past
    (.ofText (text ++ part ++ (more ++ closing))) text (trivia ++ spelling ++ closing))
  obtain ⟨e, he⟩ := hclosing _ (Lexer.rest_past _ (trivia ++ spelling) closing)
  have hread := (h _ _ hsource).trans ((readWithin_of_primitive hnext rfl).trans he)
  exact ⟨more ++ closing, e, parse_of_read_of_rest hread (Lexer.rest_past ..)⟩

/-! ### From here on nothing helps -/

theorem parse_of_read_error (hread : read (.ofText source) = (.error error, lexer)) :
    parse source = .error error := by
  rw [parse, hread]

/-- A text is refused at a stray character, whatever comes after it. -/
theorem Leads.parse_of_stray {start : List Char} (h : Leads [] openings text)
    (htrivia : Trivia trivia) (hstray : Stray start x) (rest : List Char) :
    parse (text ++ (trivia ++ start) ++ x :: rest) =
      .error (.unexpectedChar x (Position.start.advanceAll (text ++ (trivia ++ start)))) := by
  simp only [List.append_assoc]
  have hread := h (.ofText (text ++ (trivia ++ (start ++ x :: rest)))) _ rfl
  rw [readWithin_of_error (Lexer.next_of_stray htrivia hstray (Lexer.rest_past ..)),
    Lexer.position_past, ← Position.advanceAll_append] at hread
  exact parse_of_read_error hread

/-- A text is refused at the first character behind a program that is no trivia, whatever comes
after it. -/
theorem Renders.parse_of_trailing (h : e.Renders text) (htrivia : Trivia trivia)
    (hx : Gap.space.after? x = none) (rest : List Char) :
    parse (text ++ trivia ++ x :: rest) =
      .error (.trailingInput (Position.start.advanceAll (text ++ trivia))) := by
  rw [List.append_assoc]
  have hread : read (.ofText (text ++ (trivia ++ x :: rest))) = _ :=
    read_eq_ok_iff.mpr ⟨text, _, h, rfl, rfl⟩
  have hskip := Lexer.skipTrivia_eq_past htrivia hx (Lexer.rest_past
    (.ofText (text ++ (trivia ++ x :: rest))) text (trivia ++ x :: rest))
  rw [Lexer.past_past] at hskip
  rw [parse, hread]
  simp only [hskip, Lexer.rest_past, Lexer.position_past, List.isEmpty_cons]
  rfl

theorem not_completable_of_error
    (h : ∀ rest, ∃ error, parse (text ++ x :: rest) = .error error) :
    ¬Completable (text ++ [x]) := by
  rintro ⟨rest, e, he⟩
  obtain ⟨error, herror⟩ := h rest
  rw [List.append_assoc, List.singleton_append, herror] at he
  cases he

/-! ### Why and where a text is refused -/

/-- Why a text is refused, and the error that tells where. -/
inductive Refused (source : List Char) : SyntaxError → Prop
  /-- The program goes on in front of the character, but not with it. -/
  | char {front rest : List Char} {x : Char} (split : source = front ++ x :: rest)
      (hopeful : Completable front) (hopeless : ¬Completable (front ++ [x])) :
      Refused source (.unexpectedChar x (Position.start.advanceAll front))
  /-- The program is over in front of the character. -/
  | trailing {front rest : List Char} {x : Char} (split : source = front ++ x :: rest)
      (accepted : ∃ e, parse front = .ok e) (hopeless : ¬Completable (front ++ [x])) :
      Refused source (.trailingInput (Position.start.advanceAll front))
  /-- The program goes on behind the text. -/
  | ended {expected : String} (hopeful : Completable source) :
      Refused source (.unexpectedEnd expected (Position.start.advanceAll source))

/-- Where the next token is missing, a text is refused. -/
theorem Leads.refused (h : Leads [] openings text)
    (hlacks : ((Lexer.ofText (text ++ rest)).past text rest).Lacks error) :
    Refused (text ++ rest) error := by
  cases hlacks with
  | @stray trivia start behind x space stray left =>
    obtain rfl : rest = trivia ++ (start ++ x :: behind) := left
    have hhopeless : ¬Completable (text ++ (trivia ++ start) ++ [x]) :=
      not_completable_of_error fun after => ⟨_, h.parse_of_stray space stray after⟩
    rw [Lexer.position_past, ← Position.advanceAll_append]
    exact .char (by simp only [List.append_assoc]; rfl) (h.completable (stray.begins space))
      hhopeless
  | @cut trivia sign space carries left =>
    obtain rfl : rest = trivia ++ [sign] := left
    rw [Lexer.position_past, Lexer.rest_past, ← Position.advanceAll_append]
    exact .ended (h.completable (beginsPrimitive_of_sign space carries))
  | ended trailing =>
    rw [Lexer.position_past, Lexer.rest_past, ← Position.advanceAll_append]
    exact .ended (h.completable (beginsPrimitive_of_trailingTrivia trailing))

/-- Where more comes behind a program, a text is refused. -/
theorem Renders.refused (h : e.Renders text) (htrivia : Trivia trivia)
    (hx : Gap.space.after? x = none) (rest : List Char) :
    Refused (text ++ trivia ++ x :: rest)
      (.trailingInput (Position.start.advanceAll (text ++ trivia))) :=
  .trailing rfl ⟨e, h.parse_eq_ok (.closed htrivia)⟩
    (not_completable_of_error fun after => ⟨_, h.parse_of_trailing htrivia hx after⟩)

/-- **A text that is no program is refused for a reason.** -/
theorem refused_of_parse (h : parse source = .error error) : Refused source error := by
  cases hread : read (.ofText source) with
  | mk answer lexer =>
  cases answer with
  | error reported =>
    obtain rfl := Except.error.inj ((parse_of_read_error hread).symm.trans h)
    obtain ⟨openings, text, rest, hsource, hleads, hlacks⟩ := stops_of_readWithin hread
    obtain rfl : source = text ++ rest := hsource
    exact hleads.refused hlacks
  | ok e =>
    obtain ⟨text, rest, hrenders, hsource, -⟩ := read_eq_ok_iff.mp hread
    obtain rfl : source = text ++ rest := hsource
    -- What the reader leaves is trivia, or it has a first character that is none.
    rcases (Lexer.ofText rest).skipTrivia_cases with
      ⟨htrailing, -⟩ | ⟨trivia, x, behind, htrivia, hx, hrest, -⟩
    · cases (hrenders.parse_eq_ok htrailing).symm.trans h
    · obtain rfl : rest = trivia ++ x :: behind := hrest
      rw [← List.append_assoc] at h ⊢
      obtain rfl := Except.error.inj ((hrenders.parse_of_trailing htrivia hx behind).symm.trans h)
      exact hrenders.refused htrivia hx behind

/-! ### The place as an offset -/

/-- **A text is refused at the first character with which it stops being the beginning of a
program.** The offset of the error is the number of characters in front of it.

* An unexpected character is the one that stands there. What comes before it is the beginning of
  a program, and together with the character it is not.
* Input is trailing if what comes before it is a program already.
* The end is unexpected only where the text as a whole is the beginning of a program. -/
theorem error_at_first_hopeless_char (source : List Char) (error : SyntaxError)
    (h : parse source = .error error) :
    match error with
    | .unexpectedChar found position =>
      source[position.offset]? = some found ∧ Completable (source.take position.offset) ∧
        ¬Completable (source.take (position.offset + 1))
    | .trailingInput position =>
      position.offset < source.length ∧ (∃ e, parse (source.take position.offset) = .ok e) ∧
        ¬Completable (source.take (position.offset + 1))
    | .unexpectedEnd _ position => position.offset = source.length ∧ Completable source := by
  have hoffset (front : List Char) : (Position.start.advanceAll front).offset = front.length :=
    (Position.offset_advanceAll ..).trans (Nat.zero_add _)
  cases refused_of_parse h with
  | @char front rest x split hopeful hopeless =>
    subst split
    simp only [hoffset, List.take_left, List.take_length_add_append]
    exact ⟨by simp, hopeful, hopeless⟩
  | @trailing front rest x split accepted hopeless =>
    subst split
    simp only [hoffset, List.take_left, List.take_length_add_append]
    exact ⟨by simp, accepted, hopeless⟩
  | ended hopeful => exact ⟨hoffset source, hopeful⟩

/-- Two applications are open when `x` comes, on the second line. -/
theorem stray_letter_is_hopeless :
    parse "``k #c\n x".toList = .error (.unexpectedChar 'x' ⟨8, 2, 2⟩) ∧
      "``k #c\n x".toList[8]? = some 'x' ∧ Completable ("``k #c\n x".toList.take 8) ∧
        ¬Completable ("``k #c\n x".toList.take 9) := by
  have hparse : parse "``k #c\n x".toList = .error (.unexpectedChar 'x' ⟨8, 2, 2⟩) := by
    with_unfolding_all rfl
  exact ⟨hparse, error_at_first_hopeless_char _ _ hparse⟩

end Unlambda.Expression
