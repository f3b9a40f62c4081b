import Unlambda.Proofs.Machine.Account
import Unlambda.Proofs.Machine.Pieces

/-!
# Where primitives come from

A running program copies its functions, stores them in closures, promises and captured
continuations, and applies them at any time, but it does not make up new ones. Apart from the
two answers `i` and `v` and from functions that print a character it has read, every primitive
that occurs anywhere in a state is written in the program. So the text of a program tells what a
run can do to the console, and whether it can end with an exit.

The same holds of the values that are not primitives. Each of them stems from a primitive that
has been applied: a promise from `d`, and a captured continuation from `c`.

## Main definitions

* `Unlambda.Piece.stem?`, `Unlambda.StemsFrom`: the primitives that pieces are or stem from
* `Unlambda.Primitive.Origin`: where a primitive can have come from
* `Unlambda.Machine.Traced`: everything in a state can be traced to the program

## Main results

* `Unlambda.Machine.Traced.step`: every step keeps what is traced
* `Unlambda.Machine.State.Reaches.traced`, `Unlambda.Machine.traced_of_evaluate`: whole runs
* `Unlambda.Machine.primitives_are_never_invented`: the same for programs, as one statement
-/

namespace Unlambda

/-- The primitive that a piece is, or by whose application it has become what it is. -/
def Piece.stem? : Piece → Option Primitive
  | .value (.primitive p) => some p
  | .value (.k1 _) => some .k
  | .value (.s1 _) => some .s
  | .value (.s2 _ _) => some .s
  | .value (.delayed _ _) => some .d
  | .value (.continuation _) => some .c
  | .term (.source (.primitive p)) => some p
  | _ => none

/-- Whatever in `pieces` stems from a primitive stems from one with the property `P`. -/
def StemsFrom (P : Primitive → Prop) (pieces : List Piece) : Prop :=
  ∀ piece ∈ pieces, ∀ p, piece.stem? = some p → P p

section StemsFrom

variable {P : Primitive → Prop} {pieces pieces' : List Piece} {p : Primitive}

theorem StemsFrom.of_append (h : StemsFrom P (pieces ++ pieces')) :
    StemsFrom P pieces ∧ StemsFrom P pieces' :=
  List.forall_mem_append.mp h

theorem StemsFrom.tail {piece : Piece} (h : StemsFrom P (piece :: pieces)) : StemsFrom P pieces :=
  (List.forall_mem_cons.mp h).2

theorem StemsFrom.value {v : Value} (h : StemsFrom P v.pieces)
    (hstem : (Piece.value v).stem? = some p) : P p :=
  h _ v.mem_pieces_self p hstem

end StemsFrom

namespace Primitive

/-- **The origin of a primitive** in a run of `e`, when the console is `console`. -/
inductive Origin (e : Expression) (console : Console) : Primitive → Prop
  /-- It is written in the program. -/
  | written {p : Primitive} (written : .primitive p ∈ e.parts) : Origin e console p
  /-- It answers yes to a primitive of the program that asks. -/
  | yes {q : Primitive} (asks : q.asks = true) (written : .primitive q ∈ e.parts) :
      Origin e console .i
  /-- It answers no to a primitive of the program that asks. -/
  | no {q : Primitive} (asks : q.asks = true) (written : .primitive q ∈ e.parts) :
      Origin e console .v
  /-- It prints a character that has been read. -/
  | echo {x : Char} (consumed : x ∈ console.consumed) (reads : .primitive .read ∈ e.parts)
      (reprints : .primitive .reprint ∈ e.parts) : Origin e console (.print x)

variable {e : Expression} {console console' : Console} {p : Primitive} {x : Char}

theorem Origin.mono (h : p.Origin e console) (hkept : console.consumed ⊆ console'.consumed) :
    p.Origin e console' := by
  cases h with
  | written written => exact .written written
  | yes asks written => exact .yes asks written
  | no asks written => exact .no asks written
  | echo consumed reads reprints => exact .echo (hkept consumed) reads reprints

/-- A primitive that asks is neither an answer nor a printing function, so it is written. -/
theorem Origin.mem_parts_of_asks (h : p.Origin e console) (asks : p.asks = true) :
    .primitive p ∈ e.parts := by
  cases h with
  | written written => exact written
  | yes _ _ | no _ _ | echo _ _ _ => cases asks

theorem origin_print_iff :
    (print x).Origin e console ↔ .primitive (.print x) ∈ e.parts ∨
      (x ∈ console.consumed ∧ .primitive .read ∈ e.parts ∧ .primitive .reprint ∈ e.parts) := by
  constructor
  · intro h
    cases h with
    | written written => exact .inl written
    | echo consumed reads reprints => exact .inr ⟨consumed, reads, reprints⟩
  · rintro (written | ⟨consumed, reads, reprints⟩)
    · exact .written written
    · exact .echo consumed reads reprints

end Primitive

namespace Machine

/-! ### Jobs that touch the console -/

variable {job : Job} {console : Console} {x : Char}

theorem Job.exists_apply_of_reads (h : job.reads = true) :
    ∃ y k, job = .apply (.primitive .read) y k := by
  unfold reads at h
  split at h
  · exact ⟨_, _, rfl⟩
  · cases h

theorem Job.exists_apply_of_mem_writes (h : x ∈ job.writes) :
    ∃ p y k, job = .apply (.primitive p) y k ∧ (p = .r ∧ x = '\n' ∨ p = .print x) := by
  unfold writes at h
  split at h
  · exact ⟨.r, _, _, rfl, .inl ⟨rfl, List.mem_singleton.mp h⟩⟩
  · next y _ _ =>
    obtain rfl := List.mem_singleton.mp h
    exact ⟨.print x, _, _, rfl, .inr rfl⟩
  · cases h

theorem Job.input_effect (job : Job) (console : Console) :
    (job.effect console).input = console.input := by
  rcases job.effect_cases with ⟨-, -, heffect⟩ | ⟨y, -, -, heffect⟩ | ⟨-, -, heffect⟩
  · rw [heffect, Console.input_read]
  · rw [heffect, Console.input_write]
  · rw [heffect]

theorem Job.output_effect (job : Job) (console : Console) :
    (job.effect console).output = console.output ++ job.writes := by
  rcases job.effect_cases with ⟨-, hwrites, heffect⟩ | ⟨y, -, hwrites, heffect⟩ |
    ⟨-, hwrites, heffect⟩
  · rw [heffect, hwrites, Console.output_read, List.append_nil]
  · rw [heffect, hwrites, Console.output_write]
  · rw [heffect, hwrites, List.append_nil]

/-- A job that does not read leaves the input alone, and the current character as well. -/
theorem Job.effect_of_not_reads (h : job.reads = false) (console : Console) :
    (job.effect console).consumed = console.consumed ∧
      (job.effect console).unread = console.unread ∧
      (job.effect console).current = console.current := by
  rcases job.effect_cases with ⟨hreads, -, -⟩ | ⟨y, -, -, heffect⟩ | ⟨-, -, heffect⟩
  · rw [h] at hreads
    cases hreads
  · rw [heffect]
    exact ⟨rfl, rfl, rfl⟩
  · rw [heffect]
    exact ⟨rfl, rfl, rfl⟩

/-- The current character is the last one that has been read. -/
theorem Job.mem_consumed_effect (hbefore : ∀ y, console.current = some y → y ∈ console.consumed)
    (h : (job.effect console).current = some x) : x ∈ (job.effect console).consumed := by
  cases hreads : job.reads with
  | false =>
    obtain ⟨hconsumed, -, hcurrent⟩ := Job.effect_of_not_reads hreads console
    rw [hcurrent] at h
    rw [hconsumed]
    exact hbefore x h
  | true =>
    obtain ⟨y, k, rfl⟩ := Job.exists_apply_of_reads hreads
    simp only [effect] at h ⊢
    cases hunread : console.unread with
    | nil =>
      rw [Console.read_of_end hunread] at h
      cases h
    | cons z unread =>
      rw [Console.read_of_unread hunread] at h ⊢
      obtain rfl := Option.some.inj h
      exact List.mem_cons_self

/-! ### The invariant -/

/-- **Everything is traced to the program** `e`, which has been given `input`: the primitives that
occur in `pieces` or that something in them stems from, and what has happened to the console. -/
structure Traced (e : Expression) (input : List Char) (pieces : List Piece)
    (console : Console) : Prop where
  origin : StemsFrom (Primitive.Origin e console) pieces
  /-- What has been read is a part of the input. -/
  wholeInput : console.input = input
  current : ∀ x, console.current = some x → x ∈ console.consumed
  /-- What has been written comes from `r`, from `.x`, or by `|` from the input. -/
  output : ∀ x ∈ console.output,
    (x = '\n' ∧ .primitive .r ∈ e.parts) ∨ .primitive (.print x) ∈ e.parts ∨
      (x ∈ console.consumed ∧ .primitive .read ∈ e.parts ∧ .primitive .reprint ∈ e.parts)
  /-- Without `@` the input is left alone. -/
  untouched : .primitive .read ∉ e.parts →
    console.consumed = [] ∧ console.unread = input ∧ console.current = none

namespace Traced

variable {e : Expression} {input : List Char} {state state' : State} {piece : Piece}
  {p : Primitive} {n : Nat}

theorem origin_of_apply {y : Value} {k : Continuation}
    (h : Traced e input state.pieces state.console)
    (hjob : state.job = .apply (.primitive p) y k) : p.Origin e state.console :=
  h.origin _ (State.function_mem_pieces hjob) p rfl

theorem read_mem_parts (h : Traced e input state.pieces state.console)
    (hreads : state.job.reads = true) : .primitive .read ∈ e.parts := by
  obtain ⟨y, k, hjob⟩ := Job.exists_apply_of_reads hreads
  exact (h.origin_of_apply hjob).mem_parts_of_asks rfl

/-- What a step builds stems from something in the state, or it is an answer or an echo. -/
theorem origin_of_builds (h : Traced e input state.pieces state.console)
    (hbuilt : state.Builds piece) (hstem : piece.stem? = some p) : p.Origin e state.console := by
  cases hbuilt with
  | primitive written => exact h.origin _ written p hstem
  | k1 applying | s1 applying => exact h.origin _ (State.function_mem_pieces applying) p hstem
  | s2 applying => exact h.origin _ (State.function_mem_pieces applying) p hstem
  | captured capturing => exact h.origin _ (State.function_mem_pieces capturing) p hstem
  | promise _ delaying =>
    have hdelay : .value (.primitive .d) ∈ state.pieces := by
      rw [State.pieces, delaying]
      exact List.mem_append_right _ (Value.mem_pieces_self _)
    exact h.origin _ hdelay p hstem
  | yes asking asks =>
    obtain rfl := Option.some.inj hstem
    exact .yes asks ((h.origin_of_apply asking).mem_parts_of_asks asks)
  | no asking asks =>
    obtain rfl := Option.some.inj hstem
    exact .no asks ((h.origin_of_apply asking).mem_parts_of_asks asks)
  | echo reprinting hcurrent =>
    obtain rfl := Option.some.inj hstem
    have reprints := (h.origin_of_apply reprinting).mem_parts_of_asks rfl
    have reads : .primitive .read ∈ e.parts := by
      -- Otherwise nothing would have been read.
      refine Classical.byContradiction fun hread => ?_
      rw [(h.untouched hread).2.2] at hcurrent
      cases hcurrent
    exact .echo (h.current _ hcurrent) reads reprints
  | held _ | application _ _ | awaitOperand _ _ _ | awaitApply _ _ _ => cases hstem

/-- **One step keeps everything traced.** -/
theorem step (h : Traced e input state.pieces state.console) (hstep : state.step = .next state') :
    Traced e input state'.pieces state'.console := by
  have hconsole := State.console_of_step hstep
  have hkept : state.console.consumed ⊆ state'.console.consumed := by
    rw [hconsole]
    exact state.job.consumed_subset_effect state.console
  constructor
  · intro piece hpiece p hstem
    rcases State.mem_pieces_of_step hstep hpiece with hbefore | hbuilt
    · exact (h.origin piece hbefore p hstem).mono hkept
    · exact (h.origin_of_builds hbuilt hstem).mono hkept
  · rw [hconsole, Job.input_effect]
    exact h.wholeInput
  · intro x hx
    rw [hconsole] at hx ⊢
    exact Job.mem_consumed_effect h.current hx
  · intro x hx
    rw [hconsole, Job.output_effect, List.mem_append] at hx
    rcases hx with hbefore | hwritten
    · rcases h.output x hbefore with hr | hprint | ⟨hconsumed, hsource⟩
      · exact .inl hr
      · exact .inr (.inl hprint)
      · exact .inr (.inr ⟨hkept hconsumed, hsource⟩)
    · obtain ⟨p, y, k, hjob, ⟨rfl, rfl⟩ | rfl⟩ := Job.exists_apply_of_mem_writes hwritten
      · cases h.origin_of_apply hjob with
        | written written => exact .inl ⟨rfl, written⟩
      · exact .inr (Primitive.origin_print_iff.mp ((h.origin_of_apply hjob).mono hkept))
  · intro hread
    have hreads : state.job.reads = false := by
      rw [Bool.eq_false_iff]
      exact fun hreads => hread (h.read_mem_parts hreads)
    rw [hconsole]
    obtain ⟨hconsumed, hunread, hcurrent⟩ := Job.effect_of_not_reads hreads state.console
    rw [hconsumed, hunread, hcurrent]
    exact h.untouched hread

theorem start (e : Expression) (input : List Char) (fresh : Serial) :
    Traced e input (State.ofExpression e input fresh).pieces (.ofInput input) where
  origin piece hpiece p hstem := by
    rcases List.mem_append.mp hpiece with hprogram | hdone
    · obtain ⟨part, hpart, rfl⟩ := List.mem_map.mp hprogram
      cases part with
      | primitive q =>
        obtain rfl := Option.some.inj hstem
        exact .written hpart
      | application f y => cases hstem
    · obtain rfl := List.mem_singleton.mp hdone
      cases hstem
  wholeInput := rfl
  current x hx := by cases hx
  output x hx := by cases hx
  untouched _ := ⟨rfl, rfl, rfl⟩

end Traced

variable {e : Expression} {input : List Char} {state : State} {n : Nat}

/-- **A whole run keeps everything traced.** -/
theorem State.Reaches.traced {fresh : Serial}
    (hreach : (State.ofExpression e input fresh).Reaches n state) :
    Traced e input state.pieces state.console :=
  hreach.invariant (P := fun state => Traced e input state.pieces state.console) Traced.step
    (.start e input fresh)

/-- At the end of a run everything is traced, and an exit is written in the program. -/
theorem traced_of_evaluate {fuel : Nat} {evaluation : Evaluation}
    (h : e.evaluate fuel input = some (.ok evaluation)) :
    Traced e input evaluation.result.pieces evaluation.console ∧
      (evaluation.exited = true → .primitive .e ∈ e.parts) := by
  obtain ⟨n, -, last, result, exited, hreach, hstep, rfl⟩ :=
    State.run_eq_halted_iff.mp (State.evaluate_eq_ok_iff.mp h)
  have hlast := hreach.traced
  refine ⟨?_, fun hexited => ?_⟩
  · exact { hlast with
      origin := fun piece hpiece => hlast.origin piece (State.mem_pieces_of_halt hstep hpiece) }
  · rcases State.step_eq_halt_iff.mp hstep with ⟨-, rfl⟩ | ⟨k, hjob, -⟩
    · cases hexited
    · cases hlast.origin_of_apply hjob with
      | written written => exact written

/-- **Primitives are never invented.** In every state that a program reaches, and in every
result, each primitive is written in the program, or it is `i` or `v` and answers a primitive of
the program that asks, or it prints a character that has been read and the program holds `@` and
`|`. Each character of the output is a newline and the program holds `r`, or it is written in the
program behind a dot, or it has been read and the program holds `@` and `|`. Without `@` the input
is left alone, and without `e` there is no exit. -/
theorem primitives_are_never_invented (e : Expression) (input : List Char) :
    (∀ n state, (State.ofExpression e input 0).Reaches n state →
      Traced e input state.pieces state.console) ∧
    ∀ fuel evaluation, e.evaluate fuel input = some (.ok evaluation) →
      Traced e input evaluation.result.pieces evaluation.console ∧
      (evaluation.exited = true → .primitive .e ∈ e.parts) :=
  ⟨fun _ _ => State.Reaches.traced, fun _ _ => traced_of_evaluate⟩

end Machine

end Unlambda
