import Unlambda.Proofs.Expression.Grammar
import Unlambda.Proofs.Source.Draining

/-!
# The balance of tokens

In a program the tokens say by their number alone where it ends. There is one place to be filled
at the start. A primitive fills a place; a backquote fills one as well, but opens two others. So
the program is over as soon as there is one primitive more than there are backquotes, and if this
never happens there is no program. The reader does not count. Its openings hold all that has been
read, and how many of them still wait for their operator is the number of places that are open
besides the next one.

## Main definitions

* `Unlambda.Source.Fills`: the tokens fill so many places
* `Unlambda.Source.FillsFirst`: so many tokens do, and no fewer
* `Unlambda.Expression.lexemes`: the tokens of an expression
* `Unlambda.Expression.awaited`, `Unlambda.Expression.consumed`: what openings wait for, and what
  has been read for them
* `Unlambda.Expression.Decided`: an answer that the balance of the tokens explains

## Main results

* `Unlambda.Expression.complete_cases`: a complete expression fills one place
* `Unlambda.Expression.decided_readWithin`: the balance decides each reading
* `Unlambda.Expression.balance_decides`: the same for fronts of texts
-/

namespace Unlambda

namespace Source

/-! ### Counting -/

/-- Whether a token is a primitive. -/
def Lexeme.isPrimitive : Lexeme → Bool
  | apply => false
  | primitive _ => true

/-- The tokens fill `places` places: this is by how much the primitives among them outnumber the
backquotes. -/
def Fills (places : Nat) (tokens : List Lexeme) : Prop :=
  tokens.countP Lexeme.isPrimitive = tokens.count .apply + places

/-- The first `count` tokens fill `places` places, and no fewer of them do. -/
structure FillsFirst (places : Nat) (tokens : List Lexeme) (count : Nat) : Prop where
  le_length : count ≤ tokens.length
  fills : Fills places (tokens.take count)
  least : ∀ fewer < count, ¬Fills places (tokens.take fewer)

/-- However many of the tokens are taken, they do not fill `places` places. -/
def NeverFills (places : Nat) (tokens : List Lexeme) : Prop :=
  ∀ count ≤ tokens.length, ¬Fills places (tokens.take count)

variable {tokens : List Lexeme} {lexeme : Lexeme} {p : Primitive} {places places' count : Nat}

theorem not_fills_nil : ¬Fills (places + 1) [] := by simp [Fills]

/-- A backquote fills a place and opens two others. -/
theorem fills_apply_iff : Fills places (.apply :: tokens) ↔ Fills (places + 1) tokens := by
  simp only [Fills, List.countP_cons, Lexeme.isPrimitive, List.count_cons_self]
  simp only [Bool.false_eq_true, if_false]
  omega

/-- A primitive fills a place. -/
theorem fills_primitive_iff :
    Fills (places + 1) (.primitive p :: tokens) ↔ Fills places tokens := by
  have hother : List.count .apply (.primitive p :: tokens) = tokens.count .apply :=
    List.count_cons_of_ne (by simp)
  simp only [Fills, List.countP_cons, Lexeme.isPrimitive, if_true, hother]
  omega

theorem fillsFirst_zero : FillsFirst 0 tokens 0 where
  le_length := Nat.zero_le _
  fills := rfl
  least fewer hfewer := absurd hfewer fewer.not_lt_zero

theorem neverFills_nil : NeverFills (places + 1) [] := by
  intro count _
  rw [List.take_nil]
  exact not_fills_nil

section Cons

variable (hcons : ∀ rest, Fills (places + 1) (lexeme :: rest) ↔ Fills places' rest)
include hcons

theorem FillsFirst.cons (h : FillsFirst places' tokens count) :
    FillsFirst (places + 1) (lexeme :: tokens) (count + 1) where
  le_length := Nat.succ_le_succ h.le_length
  fills := (hcons _).mpr h.fills
  least fewer hfewer := by
    cases fewer with
    | zero => exact not_fills_nil
    | succ fewer => exact mt (hcons _).mp (h.least fewer (Nat.lt_of_succ_lt_succ hfewer))

theorem NeverFills.cons (h : NeverFills places' tokens) :
    NeverFills (places + 1) (lexeme :: tokens) := by
  intro count hcount
  cases count with
  | zero => exact not_fills_nil
  | succ count => exact mt (hcons _).mp (h count (Nat.le_of_succ_le_succ hcount))

end Cons

theorem FillsFirst.unique {count' : Nat} (h : FillsFirst places tokens count)
    (h' : FillsFirst places tokens count') : count = count' := by
  rcases Nat.lt_trichotomy count count' with hlt | heq | hlt
  · exact absurd h.fills (h'.least count hlt)
  · exact heq
  · exact absurd h'.fills (h.least count' hlt)

end Source

namespace Expression

open Source

/-! ### The tokens of an expression -/

/-- The tokens of an expression, in the order in which they are written. -/
def lexemes : Expression → List Lexeme
  | primitive p => [.primitive p]
  | application f x => .apply :: (f.lexemes ++ x.lexemes)

theorem flatMap_spelling_lexemes (e : Expression) :
    e.lexemes.flatMap Lexeme.spelling = e.spelling := by
  induction e with
  | primitive p => simp [lexemes, spelling, Lexeme.spelling]
  | application f x ihf ihx => simp [lexemes, spelling, Lexeme.spelling, ihf, ihx]

theorem text_eq_join_lexemes (e : Expression) :
    e.text = String.join (e.lexemes.map Lexeme.text) := by
  rw [← String.toList_inj, toList_text, String.toList_join, List.flatMap_map,
    ← flatMap_spelling_lexemes]
  simp only [Lexeme.text, String.toList_ofList]

theorem countP_lexemes (e : Expression) : e.lexemes.countP Lexeme.isPrimitive = e.leaves := by
  induction e with
  | primitive p => rfl
  | application f x ihf ihx => simp [lexemes, leaves, Lexeme.isPrimitive, ihf, ihx]

/-- There is one application less than there are primitives. -/
theorem length_lexemes (e : Expression) : e.lexemes.length + 1 = 2 * e.leaves := by
  induction e with
  | primitive p => rfl
  | application f x ihf ihx =>
    simp only [lexemes, leaves, List.length_cons, List.length_append]
    omega

/-! ### What openings stand for -/

/-- How many expressions the openings wait for besides the next one. -/
def awaited : List Opening → Nat
  | [] => 0
  | .operator :: openings => awaited openings + 1
  | .operand _ :: openings => awaited openings

/-- The tokens that have been read for the openings. -/
def consumed : List Opening → List Lexeme
  | [] => []
  | .operator :: openings => consumed openings ++ [.apply]
  | .operand f :: openings => consumed openings ++ .apply :: f.lexemes

variable {e : Expression} {openings openings' : List Opening} {lexer middle : Lexer}
  {token : Token} {p : Primitive} {answer : Except SyntaxError Expression × Lexer}

/-- **A complete expression fills one place.** If nothing else is awaited, then it completes the
outermost application; and otherwise there is one place less. Its tokens come behind those that
have been read before. -/
theorem complete_cases (e : Expression) (openings : List Opening) :
    (awaited openings = 0 ∧ ∃ whole, complete e openings = .inl whole ∧
      whole.lexemes = consumed openings ++ e.lexemes) ∨
    ∃ openings', complete e openings = .inr openings' ∧
      awaited openings = awaited openings' + 1 ∧
      consumed openings' = consumed openings ++ e.lexemes := by
  induction openings generalizing e with
  | nil => exact .inl ⟨rfl, e, rfl, rfl⟩
  | cons opening openings ih =>
    cases opening with
    | operator =>
      refine .inr ⟨.operand e :: openings, rfl, rfl, ?_⟩
      simp only [consumed, List.append_assoc, List.singleton_append]
    | operand f =>
      -- The application that becomes complete is put in its place in turn.
      simpa [complete, awaited, consumed, lexemes] using ih (application f e)

theorem complete_eq_inl (h : complete (.primitive p) openings = .inl e) :
    awaited openings = 0 ∧ e.lexemes = consumed openings ++ [.primitive p] := by
  rcases complete_cases (.primitive p) openings with
    ⟨hnone, whole, hwhole, hlexemes⟩ | ⟨openings', hopen, -⟩
  · obtain rfl := Sum.inl.inj (hwhole.symm.trans h)
    exact ⟨hnone, hlexemes⟩
  · cases hopen.symm.trans h

theorem complete_eq_inr (h : complete (.primitive p) openings = .inr openings') :
    awaited openings = awaited openings' + 1 ∧
      consumed openings' = consumed openings ++ [.primitive p] := by
  rcases complete_cases (.primitive p) openings with
    ⟨-, whole, hwhole, -⟩ | ⟨openings'', hopen, hless, hconsumed⟩
  · cases hwhole.symm.trans h
  · obtain rfl := Sum.inr.inj (hopen.symm.trans h)
    exact ⟨hless, hconsumed⟩

/-! ### The balance decides -/

/-- The answer that the balance of the tokens demands: the expression that these make up with what
has been read before, and the lexer behind the first of them that fill all places; or if they never
do, the error behind the last one. -/
inductive Decided (openings : List Opening) (lexer : Lexer) :
    Except SyntaxError Expression × Lexer → Prop
  | filled {e : Expression} {count : Nat}
      (first : FillsFirst (awaited openings + 1) lexer.lexemes count)
      (made : e.lexemes = consumed openings ++ lexer.lexemes.take count) :
      Decided openings lexer (.ok e, lexer.behind count)
  | short (never : NeverFills (awaited openings + 1) lexer.lexemes) :
      Decided openings lexer (.error lexer.shortage, lexer.drain.2.2)

/-- **One token.** If the places that are open behind it are those that the balance demands, then
what is decided behind it is decided in front of it. -/
theorem Decided.cons (hnext : lexer.next = (.ok (some token), middle))
    (hfills : ∀ rest, Fills (awaited openings + 1) (token.lexeme :: rest) ↔
      Fills (awaited openings' + 1) rest)
    (hconsumed : consumed openings' = consumed openings ++ [token.lexeme])
    (h : Decided openings' middle answer) : Decided openings lexer answer := by
  cases h with
  | @filled e count first made =>
    rw [← Lexer.behind_succ hnext]
    refine .filled ?_ ?_
    · rw [Lexer.lexemes_of_token hnext]
      exact first.cons hfills
    · rw [made, hconsumed, Lexer.lexemes_of_token hnext, List.take_succ_cons, List.append_assoc]
      rfl
  | short never =>
    have hlast : middle.drain.2.2 = lexer.drain.2.2 := by rw [Lexer.drain_of_token hnext]
    rw [← Lexer.shortage_of_token hnext, hlast]
    refine .short ?_
    rw [Lexer.lexemes_of_token hnext]
    exact never.cons hfills

/-- **The balance decides each reading.** -/
theorem decided_readWithin (openings : List Opening) (lexer : Lexer) :
    Decided openings lexer (readWithin openings lexer) := by
  fun_induction readWithin openings lexer with
  | case1 openings lexer error last hnext =>
    have hlast : last = lexer.drain.2.2 := by rw [Lexer.drain_of_error hnext]
    rw [← Lexer.shortage_of_error hnext, hlast]
    refine .short ?_
    rw [Lexer.lexemes_of_error hnext]
    exact neverFills_nil
  | case2 openings lexer last hnext =>
    have hlast : last = lexer.drain.2.2 := by rw [Lexer.drain_of_none hnext]
    rw [← Lexer.shortage_of_none hnext, hlast]
    refine .short ?_
    rw [Lexer.lexemes_of_none hnext]
    exact neverFills_nil
  | case3 openings lexer token middle hnext hshorter happly ih =>
    exact .cons hnext (fun _ => happly ▸ fills_apply_iff) (happly ▸ rfl) ih
  | case4 openings lexer token middle hnext hshorter p hprimitive e hcomplete =>
    -- The last place is filled, and no token behind this one is needed.
    obtain ⟨hnone, hlexemes⟩ := complete_eq_inl hcomplete
    rw [← middle.behind_zero, ← Lexer.behind_succ hnext]
    refine .filled ?_ ?_
    · rw [hnone, Lexer.lexemes_of_token hnext, hprimitive]
      exact fillsFirst_zero.cons fun _ => fills_primitive_iff
    · rw [hlexemes, Lexer.lexemes_of_token hnext, hprimitive]
      rfl
  | case5 openings lexer token middle hnext hshorter p hprimitive openings' hcomplete ih =>
    obtain ⟨hless, hconsumed⟩ := complete_eq_inr hcomplete
    refine .cons hnext (fun _ => ?_) (hprimitive ▸ hconsumed) ih
    rw [hprimitive, hless]
    exact fills_primitive_iff

/-- What the tokens that fill one place tell about the expression that they make up. -/
theorem size_and_text_of_lexemes {tokens : List Lexeme} {count : Nat}
    (hcount : count ≤ tokens.length) (h : e.lexemes = tokens.take count) :
    e.size = (tokens.take count).countP Lexeme.isPrimitive ∧ e.size = (count + 1) / 2 ∧
      e.text = String.join ((tokens.take count).map Lexeme.text) := by
  have hlength : e.lexemes.length = count := by rw [h, List.length_take_of_le hcount]
  have hleaves := e.length_lexemes
  rw [← h, countP_lexemes, size_eq_leaves]
  exact ⟨rfl, by omega, e.text_eq_join_lexemes⟩

/-- **The balance of tokens decides.** Of the tokens up to the end of a source or its first error,
let so many be taken that there is one primitive more among them than there are backquotes. A
program can be read from the front of the source just if this is possible.

* The program ends with the last of the first tokens for which it is so. These are its tokens: the
  primitives among them are its size, and their texts, one after the other, are its text.
* If it is not possible, then the error is the one behind the tokens, or, if there is none, that
  the source ends. -/
theorem balance_decides (source : List Char) :
    let lexer := Lexer.ofText source
    let tokens := lexer.lexemes
    ((∃ e rest, parseFront source = .ok (e, rest)) ↔
      ∃ count ≤ tokens.length, Fills 1 (tokens.take count)) ∧
    (∀ count, FillsFirst 1 tokens count →
      ∃ e, parseFront source = .ok (e, (lexer.behind count).rest) ∧
        e.size = (tokens.take count).countP Lexeme.isPrimitive ∧ e.size = (count + 1) / 2 ∧
        e.text = String.join ((tokens.take count).map Lexeme.text)) ∧
    ((∀ count ≤ tokens.length, ¬Fills 1 (tokens.take count)) →
      parseFront source = .error lexer.shortage) := by
  intro lexer tokens
  have hdecided : Decided [] lexer (read lexer) := decided_readWithin [] lexer
  rw [parseFront]
  generalize read lexer = answer at hdecided ⊢
  cases hdecided with
  | @filled e count first made =>
    obtain ⟨hsize, hhalf, htext⟩ := size_and_text_of_lexemes first.le_length made
    refine ⟨⟨fun _ => ⟨count, first.le_length, first.fills⟩, fun _ => ⟨e, _, rfl⟩⟩, ?_, ?_⟩
    · intro count' first'
      obtain rfl := first.unique first'
      exact ⟨e, rfl, hsize, hhalf, htext⟩
    · intro never
      exact absurd first.fills (never count first.le_length)
  | short never =>
    refine ⟨⟨?_, ?_⟩, ?_, fun _ => rfl⟩
    · rintro ⟨e, rest, h⟩
      cases h
    · rintro ⟨count, hcount, fills⟩
      exact absurd fills (never count hcount)
    · intro count first
      exact absurd first.fills (never count first.le_length)

end Expression

end Unlambda
