import Unlambda.Proofs.Source.Stray

/-!
# The bookkeeping of lexers

A lexer knows how many bytes and characters it has consumed, and on which line and column it
stands. It can be asked for tokens and to skip trivia in any order, and it goes on behind an
error; whatever it is asked, its books agree with the part of the source that it has consumed.
Nothing is consumed twice and nothing is left out, so a lexer comes to the end of its source.

## Main definitions

* `Unlambda.Source.Position.behind`: the position behind a text, by counting
* `Unlambda.Source.Lexer.Call`, `Unlambda.Source.Lexer.callAll`: what a lexer is asked to do
* `Unlambda.Source.Lexer.Books`: the books of a lexer are right
* `Unlambda.Source.Lexer.Reports`: what a lexer answers is true of its source

## Main results

* `Unlambda.Source.Position.advanceAll_behind`: advancing is counting
* `Unlambda.Source.Lexer.next_cases`: the four answers to the call for a token
* `Unlambda.Source.Lexer.Books.callAll`: calls keep the books right
* `Unlambda.Source.Lexer.exists_drained`: a source is drained in time
* `Unlambda.Source.Lexer.books_are_right`: all of this for any calls
-/

namespace Unlambda.Source

namespace Position

/-- The position behind a text, by counting its characters, its newlines, and the characters
behind the last newline. -/
def behind (text : List Char) : Position where
  offset := text.length
  line := 1 + text.count '\n'
  column := 1 + (text.reverse.takeWhile (· ≠ '\n')).length

theorem advance_behind (text : List Char) (x : Char) :
    (behind text).advance x = behind (text ++ [x]) := by
  by_cases hx : x = '\n'
  · subst hx
    simp [behind, Nat.add_assoc]
  · rw [advance_of_ne hx]
    simp [behind, hx, Nat.add_assoc]

/-- **Advancing is counting.** -/
theorem advanceAll_behind (text more : List Char) :
    (behind text).advanceAll more = behind (text ++ more) := by
  induction more generalizing text with
  | nil => rw [advanceAll_nil, List.append_nil]
  | cons x more ih =>
    rw [advanceAll_cons, advance_behind, ih, List.append_assoc, List.singleton_append]

/-- The newline ends its line, and the tab counts as one column. -/
example : behind ['#', 'é', '\n', '\t', 'k'] = ⟨5, 2, 3⟩ := by decide

end Position

namespace Lexer

/-! ### Calls -/

/-- What a lexer can be asked to do. -/
inductive Call
  /-- To find the next token. -/
  | next
  /-- To skip white space and comments. -/
  | skip

/-- The lexer behind what one call consumes, whether or not the call is answered with an
error. -/
def call (lexer : Lexer) : Call → Lexer
  | .next => lexer.next.2
  | .skip => lexer.skipTrivia

/-- The lexer behind what several calls consume, one after the other. -/
def callAll (lexer : Lexer) (calls : List Call) : Lexer := calls.foldl call lexer

@[simp] theorem callAll_cons (lexer : Lexer) (first : Call) (calls : List Call) :
    lexer.callAll (first :: calls) = (lexer.call first).callAll calls := rfl

variable {lexer : Lexer} {source consumed text rest : List Char}

/-- **The four answers to the call for a token:** there is nothing but trivia, or there is a
token, or a stray character, or a sign behind which the text ends. -/
theorem next_cases (lexer : Lexer) :
    (TrailingTrivia lexer.rest ∧ lexer.next = (.ok none, lexer.past lexer.rest [])) ∨
    (∃ token trivia text rest, token.lexeme.Spelled text ∧ lexer.rest = trivia ++ text ++ rest ∧
      token.position = lexer.position.advanceAll trivia ∧
      lexer.next = (.ok (some token), lexer.past (trivia ++ text) rest)) ∨
    (∃ front x rest, lexer.rest = front ++ [x] ++ rest ∧
      lexer.next = (.error (.unexpectedChar x (lexer.position.advanceAll front)),
        lexer.past (front ++ [x]) rest)) ∨
    lexer.next = (.error (.unexpectedEnd "a character after `.` or `?`"
      (lexer.position.advanceAll lexer.rest)), lexer.past lexer.rest []) := by
  cases hnext : lexer.next with
  | mk answer lexer' =>
  rw [← hnext]
  cases answer with
  | ok found =>
    cases found with
    | none =>
      have htrailing := trailingTrivia_of_next_none hnext
      exact .inl ⟨htrailing, next_of_trailing htrailing⟩
    | some token =>
      obtain ⟨trivia, text, rest, -, hspelled, hrest, rfl, hposition⟩ :=
        next_eq_token_iff.mp hnext
      exact .inr (.inl ⟨token, trivia, text, rest, hspelled, hrest, hposition, hnext⟩)
  | error error =>
    -- Why there is no token tells what the text looks like, and that tells all of the answer.
    cases lacks_of_next_error hnext with
    | @stray trivia start rest x space stray left =>
      have hstray := next_of_stray space stray left
      rw [← List.append_assoc] at hstray
      refine .inr (.inr (.inl ⟨trivia ++ start, x, rest, ?_, hstray⟩))
      rw [left]
      simp only [List.append_assoc, List.singleton_append]
    | cut space carries left => exact .inr (.inr (.inr (next_of_cut space carries left)))
    | ended trailing => cases hnext.symm.trans (next_of_trailing trailing)

/-- A call goes past some of the text that is left. -/
theorem exists_call_eq_past (lexer : Lexer) (c : Call) :
    ∃ text rest, lexer.rest = text ++ rest ∧ lexer.call c = lexer.past text rest := by
  have hwhole : lexer.rest = lexer.rest ++ [] := (List.append_nil _).symm
  cases c with
  | skip =>
    rcases lexer.skipTrivia_cases with ⟨-, hskip⟩ | ⟨trivia, x, rest, -, -, hrest, hskip⟩
    · exact ⟨lexer.rest, [], hwhole, hskip⟩
    · exact ⟨trivia, x :: rest, hrest, hskip⟩
  | next =>
    rcases lexer.next_cases with ⟨-, hnext⟩ | ⟨token, trivia, text, rest, -, hrest, -, hnext⟩ |
      ⟨front, x, rest, hrest, hnext⟩ | hnext
    · exact ⟨lexer.rest, [], hwhole, congrArg Prod.snd hnext⟩
    · exact ⟨trivia ++ text, rest, hrest, congrArg Prod.snd hnext⟩
    · exact ⟨front ++ [x], rest, hrest, congrArg Prod.snd hnext⟩
    · exact ⟨lexer.rest, [], hwhole, congrArg Prod.snd hnext⟩

/-- A call leaves no more than there was. -/
theorem length_rest_call_le (lexer : Lexer) (c : Call) :
    (lexer.call c).rest.length ≤ lexer.rest.length := by
  obtain ⟨text, rest, hrest, hcall⟩ := lexer.exists_call_eq_past c
  rw [hcall, hrest, rest_past, List.length_append]
  exact Nat.le_add_left _ _

/-! ### The books -/

/-- **The books of a lexer are right** if it has consumed just this much of its source. -/
structure Books (source consumed : List Char) (lexer : Lexer) : Prop where
  split : source = consumed ++ lexer.rest
  bytes : lexer.bytes = (String.ofList consumed).utf8ByteSize
  position : lexer.position = .behind consumed

theorem books_ofText (source : List Char) : Books source [] (ofText source) where
  split := rfl
  bytes := rfl
  position := rfl

theorem foldl_utf8Size (bytes : Nat) (text : List Char) :
    text.foldl (fun bytes x => bytes + x.utf8Size) bytes
      = bytes + (String.ofList text).utf8ByteSize := by
  induction text generalizing bytes with
  | nil => rfl
  | cons x text ih =>
    rw [List.foldl_cons, ih, String.ofList_cons, String.utf8ByteSize_append,
      String.utf8ByteSize_singleton, Nat.add_assoc]

theorem Books.past (h : Books source consumed lexer) (hrest : lexer.rest = text ++ rest) :
    Books source (consumed ++ text) (lexer.past text rest) where
  split := by rw [h.split, hrest, rest_past, List.append_assoc]
  bytes := by
    rw [String.ofList_append, String.utf8ByteSize_append, ← h.bytes]
    exact foldl_utf8Size lexer.bytes text
  position := by rw [position_past, h.position, Position.advanceAll_behind]

/-- **Calls keep the books right.** -/
theorem Books.callAll (h : Books source consumed lexer) (calls : List Call) :
    ∃ consumed', Books source consumed' (lexer.callAll calls) := by
  induction calls generalizing lexer consumed with
  | nil => exact ⟨consumed, h⟩
  | cons first calls ih =>
    obtain ⟨text, rest, hrest, hcall⟩ := lexer.exists_call_eq_past first
    rw [callAll_cons, hcall]
    exact ih (h.past hrest)

/-- The byte at which a lexer stands begins a character, or it is the end of the source. -/
theorem Books.isValid (h : Books source consumed lexer) :
    (⟨lexer.bytes⟩ : String.Pos.Raw).IsValid (String.ofList source) := by
  rw [String.Pos.Raw.isValid_iff_exists_append, h.split, h.bytes]
  exact ⟨_, _, String.ofList_append, rfl⟩

/-- What is left is what is left of the bytes of the source. -/
theorem Books.toUTF8_rest (h : Books source consumed lexer) :
    (String.ofList source).toUTF8.extract lexer.bytes (String.ofList source).utf8ByteSize
      = (String.ofList lexer.rest).toUTF8 := by
  rw [h.split, h.bytes, String.ofList_append]
  exact ByteArray.extract_append_eq_right rfl (String.utf8ByteSize_append ..)

/-! ### Answers -/

/-- What a lexer answers to the call for a token is true of its source. -/
inductive Reports (source : List Char) : Except SyntaxError (Option Token) × Lexer → Prop
  /-- The source is at its end. -/
  | nothing {lexer : Lexer} (ended : lexer.rest = []) : Reports source (.ok none, lexer)
  /-- A spelling of the token stands in front of the lexer. It begins at the position of the
  token. -/
  | token {token : Token} {lexer : Lexer} {front text : List Char}
      (split : source = front ++ text ++ lexer.rest) (spelled : token.lexeme.Spelled text)
      (position : token.position = .behind front) : Reports source (.ok (some token), lexer)
  /-- The character stands in front of the lexer, at the position of the error. -/
  | char {found : Char} {lexer : Lexer} {front : List Char}
      (split : source = front ++ [found] ++ lexer.rest) :
      Reports source (.error (.unexpectedChar found (.behind front)), lexer)
  /-- The source is at its end, where it should not be. -/
  | cut {expected : String} {lexer : Lexer} (ended : lexer.rest = []) :
      Reports source (.error (.unexpectedEnd expected (.behind source)), lexer)

/-- **What a lexer answers is true of its source.** -/
theorem Books.reports (h : Books source consumed lexer) : Reports source lexer.next := by
  rcases lexer.next_cases with ⟨-, hnext⟩ |
    ⟨token, trivia, text, rest, hspelled, hrest, hposition, hnext⟩ |
    ⟨front, x, rest, hrest, hnext⟩ | hnext
  · rw [hnext]
    exact .nothing rfl
  · rw [hnext]
    refine @Reports.token source token _ (consumed ++ trivia) text ?_ hspelled ?_
    · rw [h.split, hrest, rest_past]
      simp only [List.append_assoc]
    · rw [hposition, h.position, Position.advanceAll_behind]
  · rw [hnext, h.position, Position.advanceAll_behind]
    refine .char ?_
    rw [h.split, hrest, rest_past]
    simp only [List.append_assoc]
  · rw [hnext, h.position, Position.advanceAll_behind, ← h.split]
    exact .cut rfl

theorem next_eq_ok_none_iff : lexer.next.1 = .ok none ↔ TrailingTrivia lexer.rest := by
  constructor
  · intro h
    have hnext : lexer.next = (.ok none, lexer.next.2) := Prod.ext h rfl
    exact trailingTrivia_of_next_none hnext
  · intro h
    rw [next_of_trailing h]

/-- **A source is drained in time:** however many characters are left, one call for a token more
than that finds nothing. -/
theorem exists_drained (lexer : Lexer) :
    ∃ n ≤ lexer.rest.length, (lexer.callAll (List.replicate n .next)).next.1 = .ok none := by
  induction hlength : lexer.rest.length using Nat.strongRecOn generalizing lexer with
  | _ length ih =>
  subst hlength
  by_cases h : lexer.next.1 = .ok none
  · exact ⟨0, Nat.zero_le _, h⟩
  · -- A call that finds something leaves less to be found.
    have hshorter : lexer.next.2.rest.length < lexer.rest.length := length_rest_next_lt h
    obtain ⟨n, hn, hdrained⟩ := ih _ hshorter lexer.next.2 rfl
    exact ⟨n + 1, Nat.lt_of_le_of_lt hn hshorter, hdrained⟩

/-- **The books of a lexer are right,** whatever it has been asked to do and however many errors
it has reported.

* What it has consumed and what is left make up the source. Its byte is the length of the former
  in UTF-8, where a character begins or the source ends, and its position is the one that
  counting gives.
* A token has the position of its first character, and an unexpected character is the one at the
  position of the error.
* Each call for a token consumes something, unless nothing but trivia is left; then, and only
  then, nothing is found, and nothing is left afterwards.
* One call for a token more than there are characters left finds nothing. -/
theorem books_are_right (source : List Char) (calls : List Call) :
    let lexer := (ofText source).callAll calls
    (∃ consumed, Books source consumed lexer) ∧
    ((⟨lexer.bytes⟩ : String.Pos.Raw).IsValid (String.ofList source) ∧
      (String.ofList source).toUTF8.extract lexer.bytes (String.ofList source).utf8ByteSize
        = (String.ofList lexer.rest).toUTF8) ∧
    Reports source lexer.next ∧
    (lexer.next.1 ≠ .ok none → lexer.next.2.rest.length < lexer.rest.length) ∧
    (lexer.next.1 = .ok none ↔ TrailingTrivia lexer.rest) ∧
    ∃ n ≤ lexer.rest.length, (lexer.callAll (List.replicate n .next)).next.1 = .ok none := by
  intro lexer
  obtain ⟨consumed, hbooks⟩ := (books_ofText source).callAll calls
  exact ⟨⟨consumed, hbooks⟩, ⟨hbooks.isValid, hbooks.toUTF8_rest⟩, hbooks.reports,
    length_rest_next_lt, next_eq_ok_none_iff, lexer.exists_drained⟩

end Lexer

end Unlambda.Source
