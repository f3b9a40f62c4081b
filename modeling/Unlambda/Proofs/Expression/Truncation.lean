import Unlambda.Proofs.Expression.ValidPrefix

/-!
# Truncated programs

To read a program from the front of a text is to consume some of the text, and only that decides
what is read: whatever comes after it is handed back as it is. The reader does not look ahead,
and it does not stop early either. Wherever the consumed text is cut off, between two tokens,
inside a comment or in front of a carried character, the program is not there yet, and the end
of the text is reported as the place where it is missing.

## Main results

* `Unlambda.Expression.Renders.append_inj`: a rendering can be split off from a text in one way
  only
* `Unlambda.Expression.parseFront_eq_ok_iff`: what is read from the front of a text
* `Unlambda.Expression.Renders.read_of_cut`: a rendering that is cut off is refused at its end
* `Unlambda.Expression.consumed_text_decides`: all of this for the reader of fronts
-/

namespace Unlambda.Expression

open Source

variable {e e' : Expression} {source text text' part cut rest rest' : List Char}

/-! ### Fronts of texts -/

theorem Renders.ne_nil (h : e.Renders text) : text ≠ [] := by
  cases h with
  | primitive space spelled =>
    cases spelled <;> exact List.append_ne_nil_of_right_ne_nil _ (List.cons_ne_nil _ _)
  | application space operator operand =>
    exact List.append_ne_nil_of_right_ne_nil _ (List.cons_ne_nil _ _)

/-- **A rendering can be split off in one way only,** whatever comes after it. -/
theorem Renders.append_inj (h : e.Renders text) (h' : e'.Renders text')
    (heq : text ++ rest = text' ++ rest') : e = e' ∧ rest = rest' := by
  have hread : read (.ofText (text ++ rest)) = _ := read_eq_ok_iff.mpr ⟨text, rest, h, rfl, rfl⟩
  have hread' : read (.ofText (text ++ rest)) = _ :=
    read_eq_ok_iff.mpr ⟨text', rest', h', heq, rfl⟩
  obtain ⟨hsame, hlexer⟩ := Prod.mk.inj (hread.symm.trans hread')
  exact ⟨Except.ok.inj hsame, congrArg Lexer.rest hlexer⟩

/-- **What is read from the front of a text** is what the text begins with a rendering of. -/
theorem parseFront_eq_ok_iff :
    parseFront source = .ok (e, rest) ↔ ∃ text, e.Renders text ∧ source = text ++ rest := by
  constructor
  · intro h
    unfold parseFront at h
    split at h
    · cases h
    · next e' lexer hread =>
      obtain ⟨rfl, rfl⟩ := Prod.mk.inj (Except.ok.inj h)
      obtain ⟨text, rest, hrenders, hsource, rfl⟩ := read_eq_ok_iff.mp hread
      exact ⟨text, hrenders, hsource⟩
  · rintro ⟨text, hrenders, rfl⟩
    have hread : read (.ofText (text ++ rest)) = _ :=
      read_eq_ok_iff.mpr ⟨text, rest, hrenders, rfl, rfl⟩
    rw [parseFront, hread]
    rfl

/-! ### Renderings that are cut off -/

/-- No program is read from a rendering that is cut off. -/
theorem Renders.not_read_of_cut (h : e.Renders (part ++ cut)) (hcut : cut ≠ [])
    (lexer : Lexer) : read (.ofText part) ≠ (.ok e', lexer) := by
  intro hread
  obtain ⟨text, rest, hrenders, hpart, -⟩ := read_eq_ok_iff.mp hread
  -- The rendering would go on behind the program that has been read.
  have hsplit : (part ++ cut) ++ [] = text ++ (rest ++ cut) := by
    rw [List.append_nil, ← List.append_assoc]
    exact congrArg (· ++ cut) hpart
  have hnothing : [] = rest ++ cut := (h.append_inj hrenders hsplit).2
  exact hcut (List.append_eq_nil_iff.mp hnothing.symm).2

/-- Every beginning of a rendering is the beginning of a program. -/
theorem Renders.completable_of_prefix (h : e.Renders text) (hpart : part <+: text) :
    Completable part := by
  obtain ⟨cut, rfl⟩ := hpart
  have hparse := h.parse_eq_ok (.closed .nil)
  exact ⟨cut, e, by rwa [List.append_nil] at hparse⟩

/-- **A rendering that is cut off is refused at its end.** -/
theorem Renders.read_of_cut (h : e.Renders (part ++ cut)) (hcut : cut ≠ []) :
    ∃ expected lexer, read (.ofText part) =
      (.error (.unexpectedEnd expected (Position.start.advanceAll part)), lexer) := by
  cases hread : read (.ofText part) with
  | mk answer lexer =>
  cases answer with
  | ok e' => exact absurd hread (h.not_read_of_cut hcut lexer)
  | error error =>
    cases refused_of_parse (parse_of_read_error hread) with
    | ended hopeful => exact ⟨_, lexer, rfl⟩
    | @char front behind x split _ hopeless | @trailing front behind x split _ hopeless =>
      -- The rendering goes on with the character that is said to be hopeless.
      refine absurd (h.completable_of_prefix ⟨behind ++ cut, ?_⟩) hopeless
      rw [split]
      simp only [List.append_assoc, List.cons_append, List.nil_append]

/-- **The consumed text alone decides.** If a program is read from the front of a text, then
some of the text has been consumed, and what is left is handed back.

* The same program is read if anything else comes after the consumed text.
* If the consumed text is cut off anywhere, then no program is read, neither from the front nor
  from the text as a whole. In both cases the error is that the text has ended, and its position
  is the one behind all that is there. -/
theorem consumed_text_decides (source rest : List Char) (e : Expression)
    (h : parseFront source = .ok (e, rest)) :
    ∃ consumed, consumed ≠ [] ∧ source = consumed ++ rest ∧
      (∀ rest', parseFront (consumed ++ rest') = .ok (e, rest')) ∧
      ∀ part, part <+: consumed → part ≠ consumed → ∃ expected,
        parseFront part =
          .error (.unexpectedEnd expected (Position.start.advanceAll part)) ∧
        parse part = .error (.unexpectedEnd expected (Position.start.advanceAll part)) := by
  obtain ⟨consumed, hrenders, hsource⟩ := parseFront_eq_ok_iff.mp h
  refine ⟨consumed, hrenders.ne_nil, hsource, fun rest' => ?_, fun part hprefix hproper => ?_⟩
  · exact parseFront_eq_ok_iff.mpr ⟨consumed, hrenders, rfl⟩
  · obtain ⟨cut, rfl⟩ := hprefix
    have hcut : cut ≠ [] := by
      rintro rfl
      exact hproper (List.append_nil part).symm
    obtain ⟨expected, lexer, hread⟩ := hrenders.read_of_cut hcut
    refine ⟨expected, ?_, parse_of_read_error hread⟩
    rw [parseFront, hread]

/-- The program is followed by a text that could go on with it. Without the newline of its
comment it is not there yet. -/
theorem comment_is_cut_off :
    let e : Expression := .application (.primitive (.print '#')) (.primitive .k)
    parseFront "`.# #c\n k.x".toList = .ok (e, ".x".toList) ∧
      parseFront "`.# #c\n k#".toList = .ok (e, "#".toList) ∧
      ∃ expected, parseFront "`.# #c".toList = .error (.unexpectedEnd expected ⟨6, 1, 7⟩) ∧
        parse "`.# #c".toList = .error (.unexpectedEnd expected ⟨6, 1, 7⟩) := by
  intro e
  have hfront : parseFront "`.# #c\n k.x".toList = .ok (e, ".x".toList) := by
    with_unfolding_all rfl
  obtain ⟨consumed, -, hsource, hrest, hcut⟩ := consumed_text_decides _ _ _ hfront
  obtain rfl : "`.# #c\n k".toList = consumed := List.append_cancel_right hsource
  exact ⟨hfront, hrest "#".toList, hcut "`.# #c".toList ⟨"\n k".toList, rfl⟩ (by decide)⟩

end Unlambda.Expression
