import Unlambda.Proofs.Machine.Reach

/-!
# What a running program is made of

Values, terms and continuations are nested in one another at any depth: a promise holds a
term, a term holds values, a captured continuation holds frames, and a frame holds a term or a
value. This module lists everything that occurs anywhere in a state, and says which of it a
step can have built. Whatever else is found after a step was there before.

## Main definitions

* `Unlambda.Expression.parts`: an expression and all expressions in it
* `Unlambda.Piece`, `Unlambda.Machine.State.pieces`: everything that occurs in a state
* `Unlambda.Primitive.asks`: the primitives whose application depends on the console
* `Unlambda.Machine.State.Builds`: what a step can add to that

## Main results

* `Unlambda.Machine.State.mem_pieces_of_step`: after a step, everything was there before or
  has been built by the step
* `Unlambda.Machine.State.mem_pieces_of_halt`: a result was there before the last step
-/

namespace Unlambda

/-- An expression and all expressions in it. -/
def Expression.parts : Expression → List Expression
  | .primitive p => [.primitive p]
  | .application f x => .application f x :: (f.parts ++ x.parts)

/-- Something that can occur in a running program. -/
inductive Piece
  | value (v : Value)
  | term (t : Term)
  | continuation (k : Continuation)

mutual

/-- A value and everything in it. -/
def Value.pieces : Value → List Piece
  | .primitive p => [.value (.primitive p)]
  | .k1 x => .value (.k1 x) :: x.pieces
  | .s1 x => .value (.s1 x) :: x.pieces
  | .s2 x y => .value (.s2 x y) :: (x.pieces ++ y.pieces)
  | .delayed promise body => .value (.delayed promise body) :: body.pieces
  | .continuation k => .value (.continuation k) :: k.pieces

/-- A term and everything in it, the parts of the program included. -/
def Term.pieces : Term → List Piece
  | .source e => e.parts.map fun part => .term (.source part)
  | .value v => .term (.value v) :: v.pieces
  | .application f x => .term (.application f x) :: (f.pieces ++ x.pieces)

/-- A continuation, the continuations beneath it, and everything in their frames. -/
def Continuation.pieces : Continuation → List Piece
  | .done => [.continuation .done]
  | .awaitOperand link operand next =>
    .continuation (.awaitOperand link operand next) :: (operand.pieces ++ next.pieces)
  | .awaitApply link function next =>
    .continuation (.awaitApply link function next) :: (function.pieces ++ next.pieces)

end

theorem Value.mem_pieces_self (v : Value) : .value v ∈ v.pieces := by
  cases v <;> simp [pieces]

theorem Continuation.mem_pieces_self (k : Continuation) : .continuation k ∈ k.pieces := by
  cases k <;> simp [pieces]

/-- Whether the application of a primitive depends on the console. Its argument is then applied
to what has been found there. -/
def Primitive.asks : Primitive → Bool
  | .read => true
  | .reprint => true
  | .compare _ => true
  | _ => false

namespace Machine

/-- Everything that a job is about. -/
def Job.pieces : Job → List Piece
  | .eval t k => t.pieces ++ k.pieces
  | .resume k v => k.pieces ++ v.pieces
  | .apply f x k => f.pieces ++ (x.pieces ++ k.pieces)

namespace State

/-- Everything that occurs in a state. -/
def pieces (state : State) : List Piece := state.job.pieces

theorem function_mem_pieces {state : State} {f x : Value} {k : Continuation}
    (hjob : state.job = .apply f x k) : .value f ∈ state.pieces := by
  rw [pieces, hjob]
  exact List.mem_append_left _ f.mem_pieces_self

/-- What the step from `state` can build. -/
inductive Builds (state : State) : Piece → Prop
  /-- A primitive of the program becomes a value. -/
  | primitive {p : Primitive} (written : .term (.source (.primitive p)) ∈ state.pieces) :
      Builds state (.value (.primitive p))
  | k1 {x : Value} {k : Continuation} (applying : state.job = .apply (.primitive .k) x k) :
      Builds state (.value (.k1 x))
  | s1 {x : Value} {k : Continuation} (applying : state.job = .apply (.primitive .s) x k) :
      Builds state (.value (.s1 x))
  | s2 {x y : Value} {k : Continuation} (applying : state.job = .apply (.s1 x) y k) :
      Builds state (.value (.s2 x y))
  /-- The operand of `d` is kept. -/
  | promise {link : Serial} {body : Term} {k : Continuation} (promise : Serial)
      (delaying : state.job = .resume (.awaitOperand link body k) (.primitive .d)) :
      Builds state (.value (.delayed promise body))
  /-- The present continuation becomes a value. -/
  | captured {f : Value} {k : Continuation} (capturing : state.job = .apply (.primitive .c) f k) :
      Builds state (.value (.continuation k))
  | yes {p : Primitive} {x : Value} {k : Continuation}
      (asking : state.job = .apply (.primitive p) x k) (asks : p.asks = true) :
      Builds state (.value (.primitive .i))
  | no {p : Primitive} {x : Value} {k : Continuation}
      (asking : state.job = .apply (.primitive p) x k) (asks : p.asks = true) :
      Builds state (.value (.primitive .v))
  /-- The current character becomes a function that prints it. -/
  | echo {x : Value} {k : Continuation} {y : Char}
      (reprinting : state.job = .apply (.primitive .reprint) x k)
      (current : state.console.current = some y) : Builds state (.value (.primitive (.print y)))
  | held (v : Value) : Builds state (.term (.value v))
  | application (f x : Term) : Builds state (.term (.application f x))
  | awaitOperand (link : Serial) (operand : Term) (k : Continuation) :
      Builds state (.continuation (.awaitOperand link operand k))
  /-- No frame waits to apply `d`. -/
  | awaitApply (link : Serial) {function : Value} (k : Continuation)
      (other : function ≠ .primitive .d) :
      Builds state (.continuation (.awaitApply link function k))

variable {state state' : State} {P : Piece → Prop}

theorem forall_pieces_evalStep {t : Term} {k : Continuation} (hjob : state.job = .eval t k)
    (hall : ∀ piece ∈ state.pieces, P piece) (hbuilt : ∀ piece, state.Builds piece → P piece) :
    ∀ piece ∈ (state.evalStep t k).pieces, P piece := by
  -- The one value that evaluation makes is a primitive of the program.
  have written : ∀ p, t = .source (.primitive p) → P (.value (.primitive p)) := by
    rintro p rfl
    refine hbuilt _ (.primitive ?_)
    simp [pieces, hjob, Job.pieces, Term.pieces, Expression.parts]
  rw [pieces, hjob, Job.pieces, List.forall_mem_append] at hall
  obtain ⟨ht, hk⟩ := hall
  cases t with
  | value v =>
    rw [Term.pieces, List.forall_mem_cons] at ht
    exact List.forall_mem_append.mpr ⟨hk, ht.2⟩
  | application f x =>
    simp only [Term.pieces, List.forall_mem_cons, List.forall_mem_append] at ht
    simp only [evalStep, becomeFresh, pieces, Job.pieces, Continuation.push, Continuation.pieces,
      List.forall_mem_cons, List.forall_mem_append]
    exact ⟨ht.2.1, hbuilt _ (.awaitOperand _ _ _), ht.2.2, hk⟩
  | source e =>
    cases e with
    | primitive p =>
      exact List.forall_mem_append.mpr ⟨hk, List.forall_mem_singleton.mpr (written p rfl)⟩
    | application f x =>
      simp only [Term.pieces, Expression.parts, List.map_cons, List.map_append,
        List.forall_mem_cons, List.forall_mem_append] at ht
      simp only [evalStep, becomeFresh, pieces, Job.pieces, Continuation.push, Continuation.pieces,
        List.forall_mem_cons, List.forall_mem_append]
      exact ⟨ht.2.1, hbuilt _ (.awaitOperand _ _ _), ht.2.2, hk⟩

theorem forall_pieces_resumeStep {k : Continuation} {v : Value} (hjob : state.job = .resume k v)
    (hall : ∀ piece ∈ state.pieces, P piece) (hbuilt : ∀ piece, state.Builds piece → P piece)
    (hstep : state.resumeStep k v = .next state') : ∀ piece ∈ state'.pieces, P piece := by
  rw [pieces, hjob, Job.pieces, List.forall_mem_append] at hall
  obtain ⟨hk, hv⟩ := hall
  rcases resumeStep_next_cases hstep with ⟨link, operand, next, rfl, rfl, rfl⟩ |
    ⟨link, operand, next, rfl, other, rfl⟩ | ⟨link, function, next, rfl, rfl⟩ <;>
    simp only [Continuation.pieces, List.forall_mem_cons, List.forall_mem_append] at hk
  · -- The operator is `d`, and the operand goes into a promise.
    simp only [becomeFresh, pieces, Job.pieces, Value.pieces, List.forall_mem_cons,
      List.forall_mem_append]
    exact ⟨hk.2.2, hbuilt _ (.promise _ hjob), hk.2.1⟩
  · -- Any other operator goes into a frame.
    simp only [becomeFresh, pieces, Job.pieces, Continuation.push, Continuation.pieces,
      List.forall_mem_cons, List.forall_mem_append]
    exact ⟨hk.2.1, hbuilt _ (.awaitApply _ _ other), hv, hk.2.2⟩
  · simp only [become, pieces, Job.pieces, List.forall_mem_append]
    exact ⟨hk.2.1, hv, hk.2.2⟩

/-- An application that a step makes of two values is nothing but those two values. -/
theorem forall_pieces_applyValues (hbuilt : ∀ piece, state.Builds piece → P piece) {f x : Value}
    (hf : ∀ piece ∈ f.pieces, P piece) (hx : ∀ piece ∈ x.pieces, P piece) :
    ∀ piece ∈ (Term.applyValues f x).pieces, P piece := by
  simp only [Term.applyValues, Term.pieces, List.forall_mem_cons, List.forall_mem_append]
  exact ⟨hbuilt _ (.application _ _), ⟨hbuilt _ (.held _), hf⟩, hbuilt _ (.held _), hx⟩

theorem forall_pieces_applyPrimitive {p : Primitive} {x : Value} {k : Continuation}
    (hjob : state.job = .apply (.primitive p) x k)
    (hall : ∀ piece ∈ state.pieces, P piece) (hbuilt : ∀ piece, state.Builds piece → P piece)
    (hstep : state.applyPrimitive p x k = .next state') : ∀ piece ∈ state'.pieces, P piece := by
  rw [pieces, hjob, Job.pieces, List.forall_mem_append, List.forall_mem_append] at hall
  obtain ⟨hp, hx, hk⟩ := hall
  have resume {v : Value} (hv : ∀ piece ∈ v.pieces, P piece) :
      ∀ piece ∈ (Job.resume k v).pieces, P piece := List.forall_mem_append.mpr ⟨hk, hv⟩
  -- The rules that do not return at once apply `x` to a value that they make.
  have retry {v : Value} (hv : ∀ piece ∈ v.pieces, P piece) :
      ∀ piece ∈ (Job.eval (.applyValues x v) k).pieces, P piece :=
    List.forall_mem_append.mpr ⟨forall_pieces_applyValues hbuilt hx hv, hk⟩
  have flag (asks : p.asks = true) (yes : Bool) : ∀ piece ∈ (verdict yes).pieces, P piece := by
    cases yes with
    | true => exact List.forall_mem_singleton.mpr (hbuilt _ (.yes hjob asks))
    | false => exact List.forall_mem_singleton.mpr (hbuilt _ (.no hjob asks))
  cases p with
  | d => cases hstep
  | e => cases hstep
  | i => obtain rfl := Move.next.inj hstep; exact resume hx
  | k =>
    obtain rfl := Move.next.inj hstep
    exact resume (List.forall_mem_cons.mpr ⟨hbuilt _ (.k1 hjob), hx⟩)
  | s =>
    obtain rfl := Move.next.inj hstep
    exact resume (List.forall_mem_cons.mpr ⟨hbuilt _ (.s1 hjob), hx⟩)
  | v => obtain rfl := Move.next.inj hstep; exact resume hp
  | c =>
    obtain rfl := Move.next.inj hstep
    exact retry (List.forall_mem_cons.mpr ⟨hbuilt _ (.captured hjob), hk⟩)
  | r => obtain rfl := Move.next.inj hstep; exact resume hx
  | print y => obtain rfl := Move.next.inj hstep; exact resume hx
  | read => obtain rfl := Move.next.inj hstep; exact retry (flag rfl _)
  | compare y => obtain rfl := Move.next.inj hstep; exact retry (flag rfl _)
  | reprint =>
    obtain rfl := Move.next.inj hstep
    refine retry ?_
    cases hcurrent : state.console.current with
    | some y => exact List.forall_mem_singleton.mpr (hbuilt _ (.echo hjob hcurrent))
    | none => exact List.forall_mem_singleton.mpr (hbuilt _ (.no hjob rfl))

theorem forall_pieces_applyStep {f x : Value} {k : Continuation} (hjob : state.job = .apply f x k)
    (hall : ∀ piece ∈ state.pieces, P piece) (hbuilt : ∀ piece, state.Builds piece → P piece)
    (hstep : state.applyStep f x k = .next state') : ∀ piece ∈ state'.pieces, P piece := by
  cases f with
  | primitive p => exact forall_pieces_applyPrimitive hjob hall hbuilt hstep
  | k1 y =>
    simp only [pieces, hjob, Job.pieces, Value.pieces, List.forall_mem_cons,
      List.forall_mem_append] at hall
    obtain ⟨⟨-, hy⟩, -, hk⟩ := hall
    obtain rfl := Move.next.inj hstep
    exact List.forall_mem_append.mpr ⟨hk, hy⟩
  | s1 y =>
    simp only [pieces, hjob, Job.pieces, Value.pieces, List.forall_mem_cons,
      List.forall_mem_append] at hall
    obtain ⟨⟨-, hy⟩, hx, hk⟩ := hall
    obtain rfl := Move.next.inj hstep
    simp only [become, pieces, Job.pieces, Value.pieces, List.forall_mem_cons,
      List.forall_mem_append]
    exact ⟨hk, hbuilt _ (.s2 hjob), hy, hx⟩
  | s2 y z =>
    simp only [pieces, hjob, Job.pieces, Value.pieces, List.forall_mem_cons,
      List.forall_mem_append] at hall
    obtain ⟨⟨-, hy, hz⟩, hx, hk⟩ := hall
    obtain rfl := Move.next.inj hstep
    simp only [become, pieces, Job.pieces, Term.pieces, List.forall_mem_cons,
      List.forall_mem_append]
    exact ⟨⟨hbuilt _ (.application _ _), forall_pieces_applyValues hbuilt hy hx,
      forall_pieces_applyValues hbuilt hz hx⟩, hk⟩
  | delayed promise body =>
    simp only [pieces, hjob, Job.pieces, Value.pieces, List.forall_mem_cons,
      List.forall_mem_append] at hall
    obtain ⟨⟨-, hbody⟩, hx, hk⟩ := hall
    obtain rfl := Move.next.inj hstep
    simp only [become, pieces, Job.pieces, Term.pieces, List.forall_mem_cons,
      List.forall_mem_append]
    exact ⟨⟨hbuilt _ (.application _ _), hbody, hbuilt _ (.held x), hx⟩, hk⟩
  | continuation saved =>
    -- The present continuation is lost here, but nothing is added.
    simp only [pieces, hjob, Job.pieces, Value.pieces, List.forall_mem_cons,
      List.forall_mem_append] at hall
    obtain ⟨⟨-, hsaved⟩, hx, -⟩ := hall
    obtain rfl := Move.next.inj hstep
    exact List.forall_mem_append.mpr ⟨hsaved, hx⟩

/-- What holds of everything in a state and of everything that the step builds holds of
everything in the next state. -/
theorem forall_pieces_of_step (hall : ∀ piece ∈ state.pieces, P piece)
    (hbuilt : ∀ piece, state.Builds piece → P piece) (hstep : state.step = .next state') :
    ∀ piece ∈ state'.pieces, P piece := by
  rcases step_next_cases hstep with ⟨t, k, hjob, rfl⟩ | ⟨k, v, hjob, hresume⟩ |
    ⟨f, x, k, hjob, happly⟩
  · exact forall_pieces_evalStep hjob hall hbuilt
  · exact forall_pieces_resumeStep hjob hall hbuilt hresume
  · exact forall_pieces_applyStep hjob hall hbuilt happly

/-- Everything in a state is in the state before it or has been built by the step. -/
theorem mem_pieces_of_step {piece : Piece} (hstep : state.step = .next state')
    (h : piece ∈ state'.pieces) : piece ∈ state.pieces ∨ state.Builds piece :=
  forall_pieces_of_step (P := fun piece => piece ∈ state.pieces ∨ state.Builds piece)
    (fun _ => .inl) (fun _ => .inr) hstep piece h

/-- The result of a run occurs in the last state of the run. -/
theorem mem_pieces_of_halt {piece : Piece} {result : Value} {exited : Bool}
    (hstep : state.step = .halt result exited) (h : piece ∈ result.pieces) :
    piece ∈ state.pieces := by
  rcases step_eq_halt_iff.mp hstep with ⟨hjob, -⟩ | ⟨k, hjob, -⟩
  · rw [pieces, hjob]
    exact List.mem_append_right _ h
  · rw [pieces, hjob]
    exact List.mem_append_right _ (List.mem_append_left _ h)

end State

end Machine

end Unlambda
