import Unlambda.Proofs.Expression.RoundTrip
import Unlambda.Proofs.Machine.Account
import Unlambda.Proofs.Machine.Settle

/-!
# Results as programs

A result is shown as source text that produces it. This text is a program: the characters that
`.x` and `?x` carry in a running program come from its source and from the input it has read, so
program characters are the only ones in it as long as the input has no others. To run the text
is to build the result again. Nothing else happens, whatever the functions are that the result
holds.

## Main definitions

* `Unlambda.Piece.carried`, `Unlambda.Tree.carried`: the characters that `.x` and `?x` carry

## Main results

* `Unlambda.Machine.State.Reaches.mem_carried`: where the carried characters come from
* `Unlambda.Value.Plain.exists_program`: the text of a result is a program
* `Unlambda.Machine.exists_evaluate_of_tree_eq`: what is written like a value evaluates to it
* `Unlambda.Machine.printed_result_reproduces_itself`: all of this for whole runs
-/

namespace Unlambda

/-! ### Carried characters -/

/-- The characters that `.x` and `?x` carry in a piece of a running program, as far as they are
not in a smaller piece of it. -/
def Piece.carried : Piece → List Char
  | .value (.primitive p) => p.carried
  | .term (.source e) => e.carried
  | _ => []

/-- The characters that `.x` and `?x` carry in a tree. -/
def Tree.carried : Tree → List Char
  | .primitive p => p.carried
  | .application f x => f.carried ++ x.carried
  | .captured _ => []

theorem Expression.carried_tree (e : Expression) : e.tree.carried = e.carried := by
  induction e with
  | primitive p => rfl
  | application f x ihf ihx => rw [tree, Tree.carried, ihf, ihx, carried]

theorem Expression.mem_parts_self (e : Expression) : e ∈ e.parts := by
  cases e <;> exact List.mem_cons_self

theorem Expression.mem_carried_of_mem_parts {e part : Expression} {x : Char}
    (hpart : part ∈ e.parts) (hx : x ∈ part.carried) : x ∈ e.carried := by
  induction e with
  | primitive p =>
    obtain rfl := List.mem_singleton.mp hpart
    exact hx
  | application f y ihf ihy =>
    rw [parts, List.mem_cons, List.mem_append] at hpart
    rcases hpart with rfl | hpart | hpart
    · exact hx
    · exact List.mem_append_left _ (ihf hpart)
    · exact List.mem_append_right _ (ihy hpart)

mutual

/-- What a text shows of a value is carried by some piece of the value. -/
theorem Value.exists_piece_of_mem_carried :
    ∀ (v : Value) {x : Char}, x ∈ v.tree.carried → ∃ piece ∈ v.pieces, x ∈ piece.carried
  | .primitive p, x, h => ⟨_, List.mem_singleton_self _, h⟩
  | .k1 y, x, h => by
    obtain ⟨piece, hpiece, hx⟩ := y.exists_piece_of_mem_carried h
    exact ⟨piece, List.mem_cons_of_mem _ hpiece, hx⟩
  | .s1 y, x, h => by
    obtain ⟨piece, hpiece, hx⟩ := y.exists_piece_of_mem_carried h
    exact ⟨piece, List.mem_cons_of_mem _ hpiece, hx⟩
  | .s2 y z, x, h => by
    rcases List.mem_append.mp h with hy | hz
    · obtain ⟨piece, hpiece, hx⟩ := y.exists_piece_of_mem_carried hy
      exact ⟨piece, List.mem_cons_of_mem _ (List.mem_append_left _ hpiece), hx⟩
    · obtain ⟨piece, hpiece, hx⟩ := z.exists_piece_of_mem_carried hz
      exact ⟨piece, List.mem_cons_of_mem _ (List.mem_append_right _ hpiece), hx⟩
  | .delayed promise body, x, h => by
    obtain ⟨piece, hpiece, hx⟩ := body.exists_piece_of_mem_carried h
    exact ⟨piece, List.mem_cons_of_mem _ hpiece, hx⟩
  | .continuation k, x, h => absurd h List.not_mem_nil

/-- What a text shows of a term is carried by some piece of the term. -/
theorem Term.exists_piece_of_mem_carried :
    ∀ (t : Term) {x : Char}, x ∈ t.tree.carried → ∃ piece ∈ t.pieces, x ∈ piece.carried
  | .source e, x, h => by
    rw [Term.tree, Expression.carried_tree] at h
    exact ⟨.term (.source e), List.mem_map.mpr ⟨e, e.mem_parts_self, rfl⟩, h⟩
  | .value v, x, h => by
    obtain ⟨piece, hpiece, hx⟩ := v.exists_piece_of_mem_carried h
    exact ⟨piece, List.mem_cons_of_mem _ hpiece, hx⟩
  | .application f y, x, h => by
    rcases List.mem_append.mp h with hf | hy
    · obtain ⟨piece, hpiece, hx⟩ := f.exists_piece_of_mem_carried hf
      exact ⟨piece, List.mem_cons_of_mem _ (List.mem_append_left _ hpiece), hx⟩
    · obtain ⟨piece, hpiece, hx⟩ := y.exists_piece_of_mem_carried hy
      exact ⟨piece, List.mem_cons_of_mem _ (List.mem_append_right _ hpiece), hx⟩

end

/-! ### Where carried characters come from -/

namespace Console

variable {input output : List Char} {reads : Nat} {x : Char}

theorem mem_consumed_of_current_after (h : (after input reads output).current = some x) :
    x ∈ (after input reads output).consumed := by
  cases reads with
  | zero => cases h
  | succ earlier =>
    have hx : input[earlier]? = some x := h
    simp [after, List.take_add_one, hx]

theorem mem_input_of_mem_consumed {console : Console} (h : x ∈ console.consumed) :
    x ∈ console.input :=
  List.mem_append_left _ (List.mem_reverse.mpr h)

end Console

namespace Machine

namespace State

variable {state : State} {piece : Piece} {x : Char} {n : Nat}

/-- A character that a step lets a new piece carry is carried before, or it is the current
one. -/
theorem mem_carried_of_builds (h : state.Builds piece) (hx : x ∈ piece.carried) :
    (∃ source ∈ state.pieces, x ∈ source.carried) ∨ state.console.current = some x := by
  cases h with
  | primitive written => exact .inl ⟨_, written, hx⟩
  | echo reprinting current =>
    obtain rfl := List.mem_singleton.mp hx
    exact .inr current
  | k1 _ | s1 _ | s2 _ | promise _ _ | captured _ | yes _ _ | no _ _ | held _ | application _ _
  | awaitOperand _ _ _ | awaitApply _ _ _ => cases hx

/-- **Where carried characters come from.** Every character that is carried anywhere in a state
is carried in the program or has been read. -/
theorem Reaches.mem_carried (e : Expression) (input : List Char)
    (hreach : (ofExpression e input 0).Reaches n state) (hpiece : piece ∈ state.pieces)
    (hx : x ∈ piece.carried) : x ∈ e.carried ∨ x ∈ state.console.consumed := by
  induction n generalizing state piece with
  | zero =>
    obtain rfl := reaches_zero.mp hreach
    rcases List.mem_append.mp hpiece with hprogram | hdone
    · obtain ⟨part, hpart, rfl⟩ := List.mem_map.mp hprogram
      exact .inl (Expression.mem_carried_of_mem_parts hpart hx)
    · obtain rfl := List.mem_singleton.mp hdone
      cases hx
  | succ n ih =>
    obtain ⟨middle, hmiddle, hstep⟩ := reaches_succ_last.mp hreach
    have hkept : middle.console.consumed ⊆ state.console.consumed := by
      rw [console_of_step hstep]
      exact middle.job.consumed_subset_effect middle.console
    rcases mem_pieces_of_step hstep hpiece with hbefore | hbuilt
    · exact (ih hmiddle hbefore hx).imp_right fun h => hkept h
    rcases mem_carried_of_builds hbuilt hx with ⟨source, hsource, hcarried⟩ | hcurrent
    · exact (ih hmiddle hsource hcarried).imp_right fun h => hkept h
    · rw [hmiddle.console_eq e input] at hcurrent hkept
      exact .inr (hkept (Console.mem_consumed_of_current_after hcurrent))

end State

/-- The characters that a result carries are carried in the program or have been read. -/
theorem mem_carried_of_evaluate {e : Expression} {input : List Char} {fuel : Nat}
    {evaluation : Evaluation} {piece : Piece} {x : Char}
    (h : e.evaluate fuel input = some (.ok evaluation))
    (hpiece : piece ∈ evaluation.result.pieces) (hx : x ∈ piece.carried) :
    x ∈ e.carried ∨ x ∈ input := by
  obtain ⟨n, -, last, result, exited, hreach, hstep, rfl⟩ :=
    State.run_eq_halted_iff.mp (State.evaluate_eq_ok_iff.mp h)
  have hlast : piece ∈ last.pieces := State.mem_pieces_of_halt hstep hpiece
  refine (hreach.mem_carried e input hlast hx).imp_right fun hread => ?_
  have hinput := Console.mem_input_of_mem_consumed hread
  rwa [hreach.console_eq e input, Console.input_after] at hinput

end Machine

/-! ### The text of a result -/

/-- **The text of a plain value is a program,** provided that every character in it that is
carried is a program character. The program is written like the value. -/
theorem Value.Plain.exists_program {v : Value} (hplain : v.Plain)
    (hcarried : ∀ piece ∈ v.pieces, ∀ x ∈ piece.carried, IsProgramChar x) :
    ∃ e : Expression, Expression.parse v.text.toList = .ok e ∧ e.tree = v.tree := by
  obtain ⟨e, he⟩ := hplain.exists_tree_eq
  have hchars : ∀ x ∈ e.carried, IsProgramChar x := by
    intro x hx
    rw [← e.carried_tree, ← he] at hx
    obtain ⟨piece, hpiece, hx⟩ := v.exists_piece_of_mem_carried hx
    exact hcarried piece hpiece x hx
  have htext : v.text.toList = e.text.toList := by
    rw [v.toList_text, ← v.spelling_tree, he, e.spelling_tree, e.toList_text]
  exact ⟨e, htext ▸ Expression.parse_text hchars, he.symm⟩

namespace Machine

/-- **What is written like a value evaluates to it,** without any effect. -/
theorem exists_evaluate_of_tree_eq {e : Expression} {v : Value} (h : e.tree = v.tree)
    (input : List Char) :
    ∃ fuel evaluation, e.evaluate fuel input = some (.ok evaluation) ∧
      evaluation.result.tree = v.tree ∧ evaluation.console = .ofInput input ∧
      evaluation.exited = false := by
  have hsettles : (Term.source e).Settles v := Term.settles_of_tree_eq v h
  obtain ⟨n, w, later, hw, hreach⟩ := hsettles .done (.ofInput input) 0
  have hend : State.step ⟨.resume .done w, .ofInput input, later⟩ = .halt w false := rfl
  have hrun := State.Reaches.run_eq_halted hreach hend (Nat.lt_succ_self (n + 1))
  exact ⟨_, _, State.evaluate_eq_ok_iff.mpr hrun, hw, rfl, rfl⟩

/-- **A printed result is source that reproduces it.** Let a text be run on program characters,
and let no captured continuation occur in the result. Then the text of the result is a program,
and on every input it comes to an end, without an exit: nothing is written, nothing is read, and
the text of its result is the same again. -/
theorem printed_result_reproduces_itself (fuel : Nat) (source input : List Char)
    (evaluation : Evaluation) (hrun : run fuel source input = some (.ok evaluation))
    (hinput : ∀ x ∈ input, IsProgramChar x) (hplain : evaluation.result.Plain)
    (input' : List Char) :
    ∃ fuel' evaluation', run fuel' evaluation.result.text.toList input' = some (.ok evaluation') ∧
      evaluation'.exited = false ∧ evaluation'.console.output = [] ∧
      evaluation'.console.current = none ∧ evaluation'.console.unread = input' ∧
      evaluation'.result.text = evaluation.result.text := by
  obtain ⟨e, hparse, hevaluate⟩ := run_eq_ok_iff.mp hrun
  have hsource : ∀ x ∈ e.carried, IsProgramChar x := by
    obtain ⟨text, trailing, -, hrenders, -⟩ := Expression.exists_renders_of_parse hparse
    exact hrenders.isProgramChar
  have hcarried : ∀ piece ∈ evaluation.result.pieces, ∀ x ∈ piece.carried, IsProgramChar x :=
    fun piece hpiece x hx =>
      (mem_carried_of_evaluate hevaluate hpiece hx).elim (hsource x) (hinput x)
  obtain ⟨program, hprogram, htree⟩ := hplain.exists_program hcarried
  obtain ⟨fuel', evaluation', hagain, hresult, hconsole, hexited⟩ :=
    exists_evaluate_of_tree_eq htree input'
  refine ⟨fuel', evaluation', run_eq_ok_iff.mpr ⟨program, hprogram, hagain⟩, hexited, ?_, ?_, ?_,
    Value.text_eq_of_tree_eq hresult⟩
  · rw [hconsole, Console.output_ofInput]
  · rw [hconsole]
    rfl
  · rw [hconsole]
    rfl

/-- The text ` ``s`d`ec`|``@sk ` reads `#` and prints it. Its result holds an exit, a capture and
a function that prints `#`, and it is written ` ``s`d`ec`k.# `. To run this text is to come to
the same result, and neither the exit nor the capture takes place. -/
theorem waiting_exit_reproduces_itself :
    ∃ evaluation, run 100 "``s`d`ec`|``@sk".toList ['#'] = some (.ok evaluation) ∧
      (∀ x ∈ ['#'], IsProgramChar x) ∧ evaluation.result.Plain ∧
      evaluation.result.text.toList = "``s`d`ec`k.#".toList ∧
      ∃ fuel' evaluation',
        run fuel' evaluation.result.text.toList ['!'] = some (.ok evaluation') ∧
        evaluation'.exited = false ∧ evaluation'.console.output = [] ∧
        evaluation'.console.current = none ∧ evaluation'.console.unread = ['!'] ∧
        evaluation'.result.text = evaluation.result.text := by
  have hrun : run 100 "``s`d`ec`|``@sk".toList ['#'] =
      some (.ok ⟨.s2 (.delayed 4 (.source (.application (.primitive .e) (.primitive .c))))
        (.k1 (.primitive (.print '#'))), ⟨['#'], [], ['#'], some '#'⟩, 57, false, 22⟩) := by
    with_unfolding_all rfl
  have hchars : ∀ x ∈ ['#'], IsProgramChar x := List.forall_mem_singleton.mpr (by decide)
  refine ⟨_, hrun, hchars, by simp, ?_, ?_⟩
  · rw [Value.toList_text]
    rfl
  · exact printed_result_reproduces_itself 100 _ _ _ hrun hchars (by simp) ['!']

end Machine

end Unlambda
