import Unlambda.Proofs.Machine.Applicability
import Unlambda.Proofs.Machine.Capture
import Unlambda.Proofs.Machine.Wording

/-!
# The log of a run

A log opens with the size of the program and closes with how the run has ended. In between it
traces the run: it tells of each continuation that is captured or resumed, and of an exit. An
exit is the last thing that can be traced, and a continuation that is resumed has been traced
when it was captured. A step limit cuts the trace off and leaves what comes before it as it is.

## Main definitions

* `Unlambda.Machine.State.toldBehind`: what is told behind a step
* `Unlambda.Machine.Logged`: the answer and the log of a run, with a step limit or without one
* `Unlambda.Machine.traces`: the records between the opening and the closing one
* `Unlambda.Machine.LogShape`: what the records of a log have to do with the answer

## Main results

* `Unlambda.Machine.State.entry?_eq_some_iff`: what a step can have to tell
* `Unlambda.Machine.State.exists_reaches_of_entries`: what has been told was told by a step, and
  what comes before it was told by the steps before
* `Unlambda.Machine.State.entries_prefix`: more steps only tell more
* `Unlambda.Machine.log_has_fixed_shape`: all of this for programs
-/

namespace Unlambda.Machine

namespace State

variable {state state' middle last : State} {m n : Nat} {entry : LogEntry}
  {before behind : List LogEntry} {k : Continuation} {v result : Value} {exited : Bool}
  {evaluation : Evaluation}

/-! ### What a step has to tell -/

/-- **What a step can have to tell:** that a continuation is captured, that the program exits, or
that a captured continuation is resumed. -/
theorem entry?_eq_some_iff : entry? state = some entry ↔
    (∃ f k, state.job = .apply (.primitive .c) f k ∧ entry = .capturing k) ∨
    (∃ x k, state.job = .apply (.primitive .e) x k ∧ entry = .exiting x) ∨
    ∃ saved x k, state.job = .apply (.continuation saved) x k ∧ entry = .resuming saved := by
  constructor
  · intro h
    unfold entry? at h
    split at h
    · next f k hjob => exact .inl ⟨f, k, hjob, (Option.some.inj h).symm⟩
    · next x k hjob => exact .inr (.inl ⟨x, k, hjob, (Option.some.inj h).symm⟩)
    · next saved x k hjob => exact .inr (.inr ⟨saved, x, k, hjob, (Option.some.inj h).symm⟩)
    · cases h
  · unfold entry?
    rintro (⟨f, k, hjob, rfl⟩ | ⟨x, k, hjob, rfl⟩ | ⟨saved, x, k, hjob, rfl⟩) <;> rw [hjob]

theorem level_of_entry? (h : entry? state = some entry) : entry.level = .trace := by
  rcases entry?_eq_some_iff.mp h with ⟨f, k, -, rfl⟩ | ⟨x, k, -, rfl⟩ | ⟨saved, x, k, -, rfl⟩ <;>
    rfl

/-- To tell of an exit is to end the run with it. -/
theorem entry?_eq_exiting_iff : entry? state = some (.exiting v) ↔ state.step = .halt v true := by
  rw [entry?_eq_some_iff, step_eq_halt_iff]
  simp

theorem job_of_entry?_eq_resuming (h : entry? state = some (.resuming k)) :
    ∃ x dropped, state.job = .apply (.continuation k) x dropped := by
  simpa using entry?_eq_some_iff.mp h

/-! ### What a run has to tell -/

@[simp] theorem entries_zero (state : State) : state.entries 0 = [] := rfl

theorem entriesOnto_eq (told : List LogEntry) (n : Nat) (state : State) :
    entriesOnto told n state = told.reverse ++ state.entries n := by
  induction n generalizing told state with
  | zero => exact (List.append_nil _).symm
  | succ n ih =>
    rw [entries, entriesOnto, entriesOnto]
    cases state.step with
    | next state' =>
      simp only [ih (state.entry?.toList ++ told), ih (state.entry?.toList ++ []),
        List.reverse_append, List.reverse_nil, List.nil_append, List.append_assoc]
    | halt result exited => simp
    | stuck function => simp

/-- What is told behind a step, if the run goes on after it. -/
def toldBehind (n : Nat) : Move → List LogEntry
  | .next state' => state'.entries n
  | .halt _ _ => []
  | .stuck _ => []

/-- What is told is told by the first step, and then by what comes after it. -/
theorem entries_succ (n : Nat) (state : State) :
    state.entries (n + 1) = state.entry?.toList ++ toldBehind n state.step := by
  have hone : state.entry?.toList.reverse = state.entry?.toList := by
    cases entry? state <;> rfl
  rw [entries, entriesOnto]
  cases state.step with
  | next state' => simp [toldBehind, entriesOnto_eq, hone]
  | halt result exited => simp [toldBehind, hone]
  | stuck function => simp [toldBehind, hone]

theorem entries_succ_of_step (hstep : state.step = .next state') (n : Nat) :
    state.entries (n + 1) = state.entry?.toList ++ state'.entries n := by
  rw [entries_succ, hstep, toldBehind]

theorem exists_next_of_toldBehind {move : Move}
    (h : toldBehind n move = before ++ entry :: behind) :
    ∃ next, move = .next next ∧ next.entries n = before ++ entry :: behind := by
  cases move with
  | next next => exact ⟨next, rfl, h⟩
  | halt result exited => simp [toldBehind] at h
  | stuck function => simp [toldBehind] at h

/-- What a step tells is told by every run that takes the step. -/
theorem Reaches.mem_entries (h : state.Reaches m middle) (hentry : entry? middle = some entry)
    (hmn : m < n) : entry ∈ state.entries n := by
  obtain ⟨rest, rfl⟩ := Nat.exists_eq_add_of_lt hmn
  induction m generalizing state with
  | zero =>
    obtain rfl := reaches_zero.mp h
    rw [Nat.zero_add, entries_succ, hentry]
    exact List.mem_append_left _ List.mem_cons_self
  | succ m ih =>
    obtain ⟨next, hstep, hnext⟩ := reaches_succ.mp h
    rw [show m + 1 + rest + 1 = m + rest + 1 + 1 by omega, entries_succ_of_step hstep]
    exact List.mem_append_right _ (ih hnext (by omega))

/-- An entry of a run is told by the first step, or else by what comes after it. -/
theorem entries_succ_eq_append (h : state.entries (n + 1) = before ++ entry :: behind) :
    (before = [] ∧ entry? state = some entry ∧
      ∀ result exited, state.step = .halt result exited → behind = []) ∨
    ∃ next rest, state.step = .next next ∧ before = state.entry?.toList ++ rest ∧
      next.entries n = rest ++ entry :: behind := by
  rw [entries_succ] at h
  cases hfirst : entry? state with
  | none =>
    rw [hfirst] at h
    obtain ⟨next, hstep, hrest⟩ := exists_next_of_toldBehind h
    exact .inr ⟨next, before, hstep, rfl, hrest⟩
  | some first =>
    rw [hfirst] at h
    cases before with
    | nil =>
      obtain ⟨rfl, rfl⟩ := List.cons.inj h
      exact .inl ⟨rfl, rfl, fun result exited hhalt => by rw [hhalt]; rfl⟩
    | cons entry' rest =>
      obtain ⟨rfl, hafter⟩ := List.cons.inj h
      obtain ⟨next, hstep, hrest⟩ := exists_next_of_toldBehind hafter
      exact .inr ⟨next, rest, hstep, rfl, hrest⟩

/-- **What has been told was told by a step,** and what comes before it was told by the steps
before. Nothing comes behind it if the step has ended the run. -/
theorem exists_reaches_of_entries (h : state.entries n = before ++ entry :: behind) :
    ∃ m < n, ∃ middle, state.Reaches m middle ∧ entry? middle = some entry ∧
      state.entries m = before ∧
      ∀ result exited, middle.step = .halt result exited → behind = [] := by
  induction n generalizing state before with
  | zero => simp at h
  | succ n ih =>
    -- The entry is told by the first step, or else by a state that is one step closer.
    rcases entries_succ_eq_append h with ⟨rfl, hentry, hend⟩ | ⟨next, rest, hstep, rfl, hrest⟩
    · exact ⟨0, n.succ_pos, state, .refl state, hentry, rfl, hend⟩
    · obtain ⟨m, hm, middle, hreach, hentry, rfl, hend⟩ := ih hrest
      exact ⟨m + 1, Nat.succ_lt_succ hm, middle, .head hstep hreach, hentry,
        entries_succ_of_step hstep m, hend⟩

theorem level_of_mem_entries (h : entry ∈ state.entries n) : entry.level = .trace := by
  obtain ⟨before, behind, hsplit⟩ := List.append_of_mem h
  obtain ⟨m, -, middle, -, hentry, -⟩ := exists_reaches_of_entries hsplit
  exact level_of_entry? hentry

/-- **More steps only tell more.** -/
theorem entries_prefix (hmn : m ≤ n) (state : State) : state.entries m <+: state.entries n := by
  induction m generalizing n state with
  | zero => exact List.nil_prefix
  | succ m ih =>
    cases n with
    | zero => exact absurd hmn (Nat.not_succ_le_zero m)
    | succ n =>
      rw [entries_succ, entries_succ, List.prefix_append_right_inj]
      cases state.step with
      | next next => exact ih (Nat.le_of_succ_le_succ hmn) next
      | halt result exited => exact List.nil_prefix
      | stuck function => exact List.nil_prefix

/-- A run that is over has nothing more to tell. -/
theorem entries_prefix_of_halted (h : state.run n = .halted evaluation) (m : Nat) :
    state.entries m <+: state.entries n := by
  induction n generalizing state m evaluation with
  | zero => cases h
  | succ n ih =>
    cases m with
    | zero => exact List.nil_prefix
    | succ m =>
      rw [run_succ] at h
      rw [entries_succ, entries_succ, List.prefix_append_right_inj]
      cases hstep : state.step with
      | next next =>
        -- What is left of a run that ends does not get stuck and does not pause.
        rw [hstep] at h
        cases hrun : next.run n with
        | halted evaluation => exact ih hrun m
        | stuck function => simp [hrun, Outcome.shift] at h
        | paused state' => simp [hrun, Outcome.shift] at h
      | halt result exited => exact List.nil_prefix
      | stuck function => exact List.nil_prefix

/-! ### Exits and resumptions -/

/-- An exit is told of just when it has ended the run. -/
theorem exiting_mem_entries_iff :
    .exiting v ∈ state.entries n ↔
      ∃ evaluation, state.run n = .halted evaluation ∧ evaluation.exited = true ∧
        evaluation.result = v := by
  constructor
  · intro h
    obtain ⟨before, behind, hsplit⟩ := List.append_of_mem h
    obtain ⟨m, hm, middle, hreach, hentry, -⟩ := exists_reaches_of_entries hsplit
    exact ⟨_, hreach.run_eq_halted (entry?_eq_exiting_iff.mp hentry) hm, rfl, rfl⟩
  · rintro ⟨evaluation, hrun, hexited, rfl⟩
    obtain ⟨m, hm, last, result, exited, hreach, hstep, rfl⟩ := run_eq_halted_iff.mp hrun
    obtain rfl : exited = true := hexited
    exact hreach.mem_entries (entry?_eq_exiting_iff.mpr hstep) hm

/-- Nothing is told behind an exit. -/
theorem eq_nil_of_entries_eq_exiting (h : state.entries n = before ++ .exiting v :: behind) :
    behind = [] := by
  obtain ⟨m, -, middle, -, hentry, -, hend⟩ := exists_reaches_of_entries h
  exact hend v true (entry?_eq_exiting_iff.mp hentry)

/-- **What is resumed has been captured.** Before a program tells that it resumes a continuation
it has told that it captures it. -/
theorem capturing_mem_of_resuming {e : Expression} {input : List Char} {fresh : Serial}
    (h : (ofExpression e input fresh).entries n = before ++ .resuming k :: behind) :
    .capturing k ∈ before := by
  obtain ⟨m, -, middle, hreach, hentry, rfl, -⟩ := exists_reaches_of_entries h
  obtain ⟨x, dropped, hjob⟩ := job_of_entry?_eq_resuming hentry
  -- A continuation occurs in the state that applies it, but in none that a program starts in.
  have hvalue : .value (.continuation k) ∈ middle.pieces := function_mem_pieces hjob
  obtain ⟨i, hi, earlier, f, hearlier, hcapture⟩ :=
    hreach.capturesWithin (continuation_not_mem_pieces_ofExpression e input fresh) hvalue
  exact hearlier.mem_entries (entry?_eq_some_iff.mpr (.inl ⟨f, k, hcapture, rfl⟩)) hi

end State

/-! ### Whole logs -/

/-- The answer and the log of a run of `e`, under a step limit if there is one. -/
inductive Logged (e : Expression) (input : List Char) :
    Option Nat → Except EvaluationError Evaluation → List LogEntry → Prop
  | within (limit : Nat) :
      Logged e input (some limit) (e.evaluateWithin limit input) (logWithin limit e input)
  | unlimited {fuel : Nat} {answer : Except EvaluationError Evaluation} {entries : List LogEntry}
      (answers : e.evaluate fuel input = some answer)
      (logs : log fuel e input = some entries) : Logged e input none answer entries

/-- How a run that has been given this much fuel comes to its answer. -/
inductive Answered (start : State) (limit : Option Nat) (fuel : Nat) :
    Except EvaluationError Evaluation → Prop
  | halted {evaluation : Evaluation} (run : start.run fuel = .halted evaluation) :
      Answered start limit fuel (.ok evaluation)
  | paused {state : State} (limited : limit = some fuel) (run : start.run fuel = .paused state) :
      Answered start limit fuel (.error (.stepLimitExceeded fuel state.console.outputText))

variable {e : Expression} {input : List Char} {limit : Option Nat} {fuel : Nat}
  {answer : Except EvaluationError Evaluation} {entries : List LogEntry}

/-- A log has an opening, what the steps have told, and a closing. -/
theorem Logged.exists_fuel (h : Logged e input limit answer entries) :
    ∃ fuel, (∀ n, limit = some n → n = fuel) ∧
      Answered (.ofExpression e input 0) limit fuel answer ∧
      entries = .starting e.size ::
        ((State.ofExpression e input 0).entries fuel ++ closing answer) := by
  have start := State.sparesDelay_ofExpression e input 0
  cases h with
  | within limit =>
    refine ⟨limit, fun n hn => (Option.some.inj hn).symm, ?_, rfl⟩
    rw [Expression.evaluateWithin, State.evaluateWithin]
    cases hrun : (State.ofExpression e input 0).run limit with
    | halted evaluation => exact .halted hrun
    | stuck function => exact absurd hrun (start.run_ne_stuck limit function)
    | paused state => exact .paused rfl hrun
  | @unlimited fuel answer entries answers logs =>
    refine ⟨fuel, nofun, ?_, ?_⟩
    · obtain ⟨evaluation, hrun, rfl⟩ := start.evaluate_eq_some_iff.mp answers
      exact .halted hrun
    · rw [Expression.evaluate] at answers
      rw [log, answers] at logs
      exact (Option.some.inj logs).symm

/-- The records of a log that trace its run. -/
def traces (entries : List LogEntry) : List Record :=
  (entries.map LogEntry.record).filter fun record => record.1 = .trace

/-- What the traces and the closing record of a log have to do with the answer of the run. -/
structure LogShape (limit : Option Nat) (answer : Except EvaluationError Evaluation)
    (traced : List Record) (closing : Record) : Prop where
  /-- The run has come to its end, or to the limit. -/
  answered : (∃ evaluation, answer = .ok evaluation) ∨
    ∃ steps output, limit = some steps ∧ answer = .error (.stepLimitExceeded steps output)
  finished (steps : Nat) (result : String) :
    closing = (Note.finished steps result).record ↔
      ∃ evaluation, answer = .ok evaluation ∧ evaluation.steps = steps ∧
        evaluation.result.text = result
  stopped (steps : Nat) :
    closing = (Note.stopping steps).record ↔
      ∃ output, answer = .error (.stepLimitExceeded steps output)
  /-- Nothing is traced behind an exit. -/
  exitIsLast (before behind : List Record) (result : String) :
    traced = before ++ (Note.exiting result).record :: behind → behind = []
  exited (result : String) :
    (Note.exiting result).record ∈ traced ↔
      ∃ evaluation, answer = .ok evaluation ∧ evaluation.exited = true ∧
        evaluation.result.text = result
  /-- A continuation is captured before it is resumed. -/
  captured (before behind : List Record) (depth : Nat) :
    traced = before ++ (Note.resuming depth).record :: behind →
      (Note.capturing depth).record ∈ before

theorem traces_eq {size : Nat} (hanswer : Answered (.ofExpression e input 0) limit fuel answer) :
    traces (.starting size :: ((State.ofExpression e input 0).entries fuel ++ closing answer))
      = ((State.ofExpression e input 0).entries fuel).map LogEntry.record := by
  have htraced : (((State.ofExpression e input 0).entries fuel).map LogEntry.record).filter
      (fun record => record.1 = .trace) =
        ((State.ofExpression e input 0).entries fuel).map LogEntry.record := by
    rw [List.filter_eq_self]
    intro record hrecord
    obtain ⟨entry, hentry, rfl⟩ := List.mem_map.mp hrecord
    exact decide_eq_true (State.level_of_mem_entries hentry)
  have hclosing : ((closing answer).map LogEntry.record).filter
      (fun record => record.1 = .trace) = [] := by
    cases hanswer <;> rfl
  rw [traces, List.map_cons, List.map_append, List.filter_cons, List.filter_append, htraced,
    hclosing, List.append_nil]
  rfl

/-- A run has a result just when it has ended within its fuel. -/
theorem Answered.eq_ok_iff {start : State} {evaluation : Evaluation}
    (h : Answered start limit fuel answer) :
    answer = .ok evaluation ↔ start.run fuel = .halted evaluation := by
  cases h with
  | halted run => rw [run, Except.ok.injEq, Outcome.halted.injEq]
  | paused limited run => rw [run]; simp

/-- The answer decides about the closing of a log, and the closing about the answer. -/
theorem Answered.exists_closing {start : State} (h : Answered start limit fuel answer) :
    ∃ entry, closing answer = [entry] ∧
      (∀ steps result, entry.note = .finished steps result ↔
        ∃ evaluation, answer = .ok evaluation ∧ evaluation.steps = steps ∧
          evaluation.result.text = result) ∧
      ∀ steps, entry.note = .stopping steps ↔
        ∃ output, answer = .error (.stepLimitExceeded steps output) := by
  cases h with
  | halted run => exact ⟨_, rfl, by simp [LogEntry.note], by simp [LogEntry.note]⟩
  | paused limited run => exact ⟨_, rfl, by simp [LogEntry.note], by simp [LogEntry.note]⟩

/-- An exit is traced just when it has ended the run. -/
theorem Answered.exiting_mem_iff {start : State} (h : Answered start limit fuel answer)
    (result : String) :
    (Note.exiting result).record ∈ (start.entries fuel).map LogEntry.record ↔
      ∃ evaluation, answer = .ok evaluation ∧ evaluation.exited = true ∧
        evaluation.result.text = result := by
  constructor
  · intro hmem
    obtain ⟨entry, hentry, hrecord⟩ := List.mem_map.mp hmem
    obtain ⟨v, rfl, rfl⟩ := LogEntry.note_eq_exiting_iff.mp (LogEntry.record_eq_iff.mp hrecord)
    obtain ⟨evaluation, hrun, hexited, rfl⟩ := State.exiting_mem_entries_iff.mp hentry
    exact ⟨evaluation, h.eq_ok_iff.mpr hrun, hexited, rfl⟩
  · rintro ⟨evaluation, hanswer, hexited, rfl⟩
    have hrun := h.eq_ok_iff.mp hanswer
    have hentry := State.exiting_mem_entries_iff.mpr ⟨evaluation, hrun, hexited, rfl⟩
    exact List.mem_map.mpr ⟨_, hentry, rfl⟩

theorem Answered.logShape (h : Answered (.ofExpression e input 0) limit fuel answer) :
    ∃ entry, closing answer = [entry] ∧
      LogShape limit answer (((State.ofExpression e input 0).entries fuel).map LogEntry.record)
        entry.record := by
  obtain ⟨entry, hclosing, hfinished, hstopped⟩ := h.exists_closing
  refine ⟨entry, hclosing, ?_, fun steps result => ?_, fun steps => ?_,
    fun before behind result htraced => ?_, h.exiting_mem_iff,
    fun before behind depth htraced => ?_⟩
  · cases h with
    | halted run => exact .inl ⟨_, rfl⟩
    | paused limited run => exact .inr ⟨_, _, limited, rfl⟩
  · exact LogEntry.record_eq_iff.trans (hfinished steps result)
  · exact LogEntry.record_eq_iff.trans (hstopped steps)
  · obtain ⟨front, told, back, hsplit, hnote, rfl, rfl⟩ := LogEntry.exists_entry_of_map_eq htraced
    obtain ⟨v, rfl, -⟩ := LogEntry.note_eq_exiting_iff.mp hnote
    rw [State.eq_nil_of_entries_eq_exiting hsplit]
    rfl
  · obtain ⟨front, told, back, hsplit, hnote, rfl, rfl⟩ := LogEntry.exists_entry_of_map_eq htraced
    obtain ⟨k, rfl, rfl⟩ := LogEntry.note_eq_resuming_iff.mp hnote
    exact List.mem_map.mpr ⟨_, State.capturing_mem_of_resuming hsplit, rfl⟩

/-- **The log of a run has a fixed shape.** Whenever a run has an answer, with a step limit or
without one, its records are an opening with the size of the program, then traces, and then one
closing, which tells of the answer.

* The closing tells how many steps the run has taken and what its result is, just if there is a
  result; and it tells at which step the run has been stopped, just if it has been stopped.
* An exit is traced just if the program has ended itself, with its result. Nothing is traced
  behind it.
* Each continuation that is resumed has been captured before, with the same depth.
* A run under a step limit has traced a beginning of what the same run traces under a higher
  limit, or without one, whether or not that has come to an end. -/
theorem log_has_fixed_shape (e : Expression) (input : List Char) (limit : Option Nat)
    (answer : Except EvaluationError Evaluation) (entries : List LogEntry)
    (h : Logged e input limit answer entries) :
    (∃ closing, entries.map LogEntry.record =
        (Note.starting e.size).record :: (traces entries ++ [closing]) ∧
      LogShape limit answer (traces entries) closing) ∧
    (∀ limit' answer' entries', Logged e input limit' answer' entries' →
      (∀ n, limit' = some n → ∃ m ≤ n, limit = some m) → traces entries <+: traces entries') ∧
    ∀ m n, limit = some m → m ≤ n → traces entries <+:
      ((State.ofExpression e input 0).entries n).map LogEntry.record := by
  obtain ⟨fuel, hfuel, hanswered, rfl⟩ := h.exists_fuel
  rw [traces_eq hanswered]
  refine ⟨?_, fun limit' answer' entries' h' hlimit => ?_, fun m n hm hmn => ?_⟩
  · obtain ⟨entry, hclosing, hshape⟩ := hanswered.logShape
    refine ⟨entry.record, ?_, hshape⟩
    rw [hclosing, List.map_cons, List.map_append]
    rfl
  · obtain ⟨fuel', hfuel', hanswered', rfl⟩ := h'.exists_fuel
    rw [traces_eq hanswered']
    refine List.IsPrefix.map _ ?_
    cases hanswered' with
    -- Nothing is traced behind the end of a run, whatever the limit of the other one is.
    | halted run => exact State.entries_prefix_of_halted run fuel
    | paused limited run =>
      obtain ⟨m, hm, hlimited⟩ := hlimit fuel' limited
      exact State.entries_prefix (hfuel m hlimited ▸ hm) _
  · exact List.IsPrefix.map _ (State.entries_prefix (hfuel m hm ▸ hmn) _)

/-- In ``` ``cie ``` the continuation that `c` captures is resumed with `e`, which then ends the
program. A run that is stopped after nine steps has traced the capture only. -/
theorem resumed_exit_is_traced :
    let e : Expression :=
      .application (.application (.primitive .c) (.primitive .i)) (.primitive .e)
    let k : Continuation := .awaitOperand 0 (.source (.primitive .e)) .done
    let answer : Except EvaluationError Evaluation :=
      .ok ⟨.primitive .e, .ofInput [], 21, true, 7⟩
    let entries : List LogEntry := [.starting e.size, .capturing k, .resuming k,
      .exiting (.primitive .e), .finished 21 (.primitive .e)]
    Logged e [] none answer entries ∧
      (∃ closing, entries.map LogEntry.record =
          (Note.starting e.size).record :: (traces entries ++ [closing]) ∧
        LogShape none answer (traces entries) closing) ∧
      traces (logWithin 9 e []) = [(Note.capturing 1).record] ∧
      traces (logWithin 9 e []) <+: traces entries := by
  intro e k answer entries
  have hlogged : Logged e [] none answer entries := @Logged.unlimited e [] 21 answer entries rfl rfl
  have hlimited := log_has_fixed_shape e [] (some 9) _ _ (.within 9)
  exact ⟨hlogged, (log_has_fixed_shape e [] none answer entries hlogged).1, rfl,
    hlimited.2.1 none answer entries hlogged nofun⟩

end Unlambda.Machine
