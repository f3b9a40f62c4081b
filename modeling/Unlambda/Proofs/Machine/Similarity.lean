import Unlambda.Proofs.Machine.Applicability
import Unlambda.Proofs.Machine.Settle

/-!
# Texts determine behaviour

A program may hold the same thing as a value or as an application that has still to be
evaluated, and the text does not tell which. Nor does the behaviour: if two states show the same
trees and have the same console, then one of them comes to an end just if the other one does,
and the ends show the same. The two machines do not move in step. Where one of them evaluates
what the other one holds as a value, it is behind by some steps, and what differs may be stored
meanwhile in promises and in captured continuations. All other steps are the same on both sides.

## Main definitions

* `Unlambda.Machine.State.Similar`: two states that show the same
* `Unlambda.Machine.Job.EvaluatesValue`: the states in which the two sides may get out of step
* `Unlambda.Machine.State.EndsLike`: a run comes to an end that shows a given result

## Main results

* `Unlambda.Machine.State.Similar.settle`: both sides come to the value
* `Unlambda.Machine.State.Similar.step`: elsewhere they move in step
* `Unlambda.Machine.State.Similar.endsLike`: similar states come to similar ends
* `Unlambda.Machine.text_determines_behaviour`: the same for terms with the same text
-/

namespace Unlambda

theorem Value.isPrimitive_eq_of_tree_eq {v w : Value} (h : v.tree = w.tree) (p : Primitive) :
    v.isPrimitive p = w.isPrimitive p := by
  rw [Bool.eq_iff_iff, isPrimitive_eq_true_iff, isPrimitive_eq_true_iff, ← tree_eq_primitive_iff,
    h, tree_eq_primitive_iff]

theorem Term.applyValues_tree_eq {v v' w w' : Value} (hv : v.tree = v'.tree)
    (hw : w.tree = w'.tree) : (applyValues v w).tree = (applyValues v' w').tree := by
  simp only [applyValues, tree, hv, hw]

namespace Machine

/-- Two jobs that show the same trees. -/
inductive Job.Similar : Job → Job → Prop
  | eval {t u : Term} {k l : Continuation} (rest : k.chain = l.chain) (term : t.tree = u.tree) :
      Similar (.eval t k) (.eval u l)
  | resume {v w : Value} {k l : Continuation} (rest : k.chain = l.chain)
      (value : v.tree = w.tree) : Similar (.resume k v) (.resume l w)
  | apply {f g x y : Value} {k l : Continuation} (rest : k.chain = l.chain)
      (function : f.tree = g.tree) (argument : x.tree = y.tree) :
      Similar (.apply f x k) (.apply g y l)

/-- Two states that show the same trees and have the same console. -/
structure State.Similar (state state' : State) : Prop where
  job : state.job.Similar state'.job
  console : state.console = state'.console

/-- Two moves that lead to similar states, or to ends that show the same. -/
inductive Move.Similar : Move → Move → Prop
  | next {state state' : State} (states : state.Similar state') :
      Similar (.next state) (.next state')
  | halt {result result' : Value} (exited : Bool) (results : result.tree = result'.tree) :
      Similar (.halt result exited) (.halt result' exited)
  | stuck {function function' : Value} (functions : function.tree = function'.tree) :
      Similar (.stuck function) (.stuck function')

theorem Move.Similar.exists_next {state : State} {move : Move}
    (h : (Move.next state).Similar move) :
    ∃ state', move = .next state' ∧ state.Similar state' := by
  cases h with
  | next states => exact ⟨_, rfl, states⟩

theorem Move.Similar.exists_halt {result : Value} {exited : Bool} {move : Move}
    (h : (Move.halt result exited).Similar move) :
    ∃ result', move = .halt result' exited ∧ result.tree = result'.tree := by
  cases h with
  | halt _ results => exact ⟨_, rfl, results⟩

/-- The job is to evaluate a term that is written like some value. -/
def Job.EvaluatesValue (job : Job) : Prop :=
  ∃ t k, job = .eval t k ∧ ∃ v : Value, t.tree = v.tree

namespace State

variable {state state' middle last : State} {job job' : Job} {console : Console}
  {fresh fresh' : Serial} {k l : Continuation} {m n fuel : Nat} {result : Value} {exited : Bool}

/-! ### One step -/

/-- Where the term is not written like a value, it is an application on both sides. -/
theorem step_eval_similar {t u : Term} (hrest : k.chain = l.chain) (hterm : t.tree = u.tree)
    (hvalue : ∀ v : Value, t.tree ≠ v.tree) :
    (step ⟨.eval t k, console, fresh⟩).Similar (step ⟨.eval u l, console, fresh'⟩) := by
  rcases term_cases t with ⟨v, rfl⟩ | ⟨p, rfl⟩ | ⟨f, x, happlies⟩
  · exact absurd rfl (hvalue v)
  · exact absurd rfl (hvalue (.primitive p))
  rcases Term.applies_of_tree_eq (hterm.symm.trans happlies.tree_eq) with
    ⟨w, rfl⟩ | ⟨g, y, happlies', hoperator, hoperand⟩
  · exact absurd hterm (hvalue w)
  · rw [step_eval_of_applies happlies, step_eval_of_applies happlies']
    have hframe : (Continuation.awaitOperand fresh x k).chain =
        (Continuation.awaitOperand fresh' y l).chain := by
      rw [Continuation.chain, Continuation.chain, hoperand, hrest]
    exact .next ⟨.eval hframe hoperator.symm, rfl⟩

theorem resumeStep_similar {v w : Value} (hrest : k.chain = l.chain) (hvalue : v.tree = w.tree) :
    (resumeStep ⟨job, console, fresh⟩ k v).Similar (resumeStep ⟨job', console, fresh'⟩ l w) := by
  cases k with
  | done =>
    obtain rfl := Continuation.chain_eq_done_iff.mp hrest.symm
    exact .halt false hvalue
  | awaitOperand link operand next =>
    obtain ⟨link', operand', next', rfl, hoperand, hnext⟩ :=
      Continuation.chain_eq_awaitOperand_iff.mp hrest.symm
    rw [resumeStep, resumeStep, Value.isPrimitive_eq_of_tree_eq hvalue]
    split
    · have hpromise : (Value.delayed fresh operand).tree =
          (Value.delayed fresh' operand').tree := by
        rw [Value.tree, Value.tree, hoperand]
      exact .next ⟨.resume hnext.symm hpromise, rfl⟩
    · have hframe : (Continuation.awaitApply fresh v next).chain =
          (Continuation.awaitApply fresh' w next').chain := by
        rw [Continuation.chain, Continuation.chain, hvalue, hnext]
      exact .next ⟨.eval hframe hoperand.symm, rfl⟩
  | awaitApply link function next =>
    obtain ⟨link', function', next', rfl, hfunction, hnext⟩ :=
      Continuation.chain_eq_awaitApply_iff.mp hrest.symm
    exact .next ⟨.apply hnext.symm hfunction.symm hvalue, rfl⟩

theorem applyPrimitive_similar (p : Primitive) {x y : Value} (hrest : k.chain = l.chain)
    (hargument : x.tree = y.tree) :
    (applyPrimitive ⟨job, console, fresh⟩ p x k).Similar
      (applyPrimitive ⟨job', console, fresh'⟩ p y l) := by
  -- What `@`, `|` and `?x` hand to their argument depends on the console only.
  have hcall (w : Value) : (Term.applyValues x w).tree = (Term.applyValues y w).tree :=
    Term.applyValues_tree_eq hargument rfl
  cases p with
  | i | r | print z => exact .next ⟨.resume hrest hargument, rfl⟩
  | k =>
    have hwaiting : (Value.k1 x).tree = (Value.k1 y).tree :=
      Value.tree_eq_k1_iff.mpr ⟨x, rfl, hargument⟩
    exact .next ⟨.resume hrest hwaiting, rfl⟩
  | s =>
    have hwaiting : (Value.s1 x).tree = (Value.s1 y).tree :=
      Value.tree_eq_s1_iff.mpr ⟨x, rfl, hargument⟩
    exact .next ⟨.resume hrest hwaiting, rfl⟩
  | v => exact .next ⟨.resume hrest rfl, rfl⟩
  | c =>
    have hcaptured : (Value.continuation k).tree = (Value.continuation l).tree := by
      rw [Value.tree, Value.tree, hrest]
    exact .next ⟨.eval hrest (Term.applyValues_tree_eq hargument hcaptured), rfl⟩
  | d => exact .stuck rfl
  | e => exact .halt true hargument
  | read | compare z | reprint => exact .next ⟨.eval hrest (hcall _), rfl⟩

theorem applyStep_similar {f g x y : Value} (hrest : k.chain = l.chain)
    (hfunction : f.tree = g.tree) (hargument : x.tree = y.tree) :
    (applyStep ⟨job, console, fresh⟩ f x k).Similar (applyStep ⟨job', console, fresh'⟩ g y l) := by
  cases f with
  | primitive p =>
    obtain rfl := Value.tree_eq_primitive_iff.mp hfunction.symm
    exact applyPrimitive_similar p hrest hargument
  | k1 z =>
    obtain ⟨z', rfl, hz⟩ := Value.tree_eq_k1_iff.mp hfunction.symm
    exact .next ⟨.resume hrest hz.symm, rfl⟩
  | s1 z =>
    obtain ⟨z', rfl, hz⟩ := Value.tree_eq_s1_iff.mp hfunction.symm
    have hwaiting : (Value.s2 z x).tree = (Value.s2 z' y).tree :=
      Value.tree_eq_s2_iff.mpr ⟨z, x, rfl, hz.symm, hargument⟩
    exact .next ⟨.resume hrest hwaiting, rfl⟩
  | s2 z w =>
    obtain ⟨z', w', rfl, hz, hw⟩ := Value.tree_eq_s2_iff.mp hfunction.symm
    have hbody : (Term.application (.applyValues z x) (.applyValues w x)).tree =
        (Term.application (.applyValues z' y) (.applyValues w' y)).tree := by
      rw [Term.tree, Term.tree, Term.applyValues_tree_eq hz.symm hargument,
        Term.applyValues_tree_eq hw.symm hargument]
    exact .next ⟨.eval hrest hbody, rfl⟩
  | delayed promise body =>
    obtain ⟨promise', body', rfl, hbody⟩ := Value.tree_eq_delayed_iff.mp hfunction.symm
    have hforced : (Term.application body (.value x)).tree =
        (Term.application body' (.value y)).tree := by
      simp only [Term.tree, hbody, hargument]
    exact .next ⟨.eval hrest hforced, rfl⟩
  | continuation saved =>
    obtain ⟨saved', rfl, hsaved⟩ := Value.tree_eq_captured_iff.mp hfunction.symm
    exact .next ⟨.resume hsaved.symm hargument, rfl⟩

/-- **Similar states move in step,** unless they evaluate something that is written like a
value. -/
theorem Similar.step (h : state.Similar state') (hvalue : ¬ state.job.EvaluatesValue) :
    state.step.Similar state'.step := by
  obtain ⟨job, console, fresh⟩ := state
  obtain ⟨job', console', fresh'⟩ := state'
  obtain ⟨hjob, rfl⟩ := h
  cases hjob with
  | eval hrest hterm =>
    exact step_eval_similar hrest hterm fun v hv => hvalue ⟨_, _, rfl, v, hv⟩
  | resume hrest hv => exact resumeStep_similar hrest hv
  | apply hrest hfunction hargument => exact applyStep_similar hrest hfunction hargument

/-- **Both sides come to the value** that the term is written like. -/
theorem Similar.settle (h : state.Similar state') (hvalue : state.job.EvaluatesValue) :
    ∃ m n middle middle', state.Reaches (m + 1) middle ∧ state'.Reaches n middle' ∧
      middle.Similar middle' := by
  obtain ⟨job, console, fresh⟩ := state
  obtain ⟨job', console', fresh'⟩ := state'
  obtain ⟨hjob, rfl⟩ := h
  obtain ⟨t, k, rfl, v, hv⟩ := hvalue
  cases hjob with
  | @eval t u k l hrest hterm =>
    obtain ⟨m, w, later, hw, hreach⟩ := Term.settles_of_tree_eq v hv k console fresh
    obtain ⟨n, w', later', hw', hreach'⟩ :=
      Term.settles_of_tree_eq v (hterm.symm.trans hv) l console fresh'
    exact ⟨m, n + 1, _, _, hreach, hreach', .resume hrest (hw.trans hw'.symm), rfl⟩

/-! ### Whole runs -/

/-- The run from `state` comes to an end that shows the given one. -/
def EndsLike (state : State) (result : Value) (exited : Bool) (console : Console) : Prop :=
  ∃ n last result', state.Reaches n last ∧ last.step = .halt result' exited ∧
    result.tree = result'.tree ∧ last.console = console

theorem EndsLike.of_reaches (hreach : state.Reaches m middle)
    (h : middle.EndsLike result exited console) : state.EndsLike result exited console := by
  obtain ⟨n, last, result', hrest, hend⟩ := h
  exact ⟨m + n, last, result', hreach.trans hrest, hend⟩

/-- **Similar states come to similar ends.** -/
theorem Similar.endsLike (h : state.Similar state') (hreach : state.Reaches n last)
    (hlast : last.step = .halt result exited) : state'.EndsLike result exited last.console := by
  -- One side may take several steps where the other takes one, so the induction is on all the
  -- steps that are left on the side whose end is known.
  induction n using Nat.strongRecOn generalizing state state' with
  | _ n ih =>
  by_cases hvalue : state.job.EvaluatesValue
  · obtain ⟨m, m', middle, middle', hmiddle, hmiddle', hsimilar⟩ := h.settle hvalue
    obtain ⟨rest, rfl, hrest⟩ := hreach.of_reaches hlast hmiddle
    exact .of_reaches hmiddle' (ih rest (by omega) hsimilar hrest)
  have hmoves := h.step hvalue
  by_cases hnext : ∃ middle, state.step = .next middle
  · obtain ⟨middle, hstep⟩ := hnext
    rw [hstep] at hmoves
    obtain ⟨middle', hstep', hsimilar⟩ := hmoves.exists_next
    obtain ⟨rest, rfl, hrest⟩ := hreach.of_next hlast hstep
    exact .of_reaches (reaches_one.mpr hstep') (ih rest rest.lt_succ_self hsimilar hrest)
  · obtain ⟨-, rfl⟩ := hreach.eq_of_ended (not_exists.mp hnext)
    rw [hlast] at hmoves
    obtain ⟨result', hlast', hresult⟩ := hmoves.exists_halt
    exact ⟨0, state', result', .refl state', hlast', hresult, h.console.symm⟩

/-- **Runs of similar states.** If one of them is over, then so is the other one, perhaps after
more steps. -/
theorem Similar.exists_run_eq_halted {evaluation : Evaluation} (h : state.Similar state')
    (hrun : state.run fuel = .halted evaluation) :
    ∃ fuel' evaluation', state'.run fuel' = .halted evaluation' ∧
      evaluation.result.tree = evaluation'.result.tree ∧
      evaluation.console = evaluation'.console ∧ evaluation.exited = evaluation'.exited := by
  obtain ⟨n, -, last, result, exited, hreach, hlast, rfl⟩ := run_eq_halted_iff.mp hrun
  obtain ⟨n', last', result', hreach', hlast', hresult, hconsole⟩ := h.endsLike hreach hlast
  have hrun' := hreach'.run_eq_halted hlast' n'.lt_succ_self
  exact ⟨n' + 1, _, hrun', hresult, hconsole.symm, rfl⟩

/-- The serial with which a program starts makes no difference. -/
theorem similar_ofExpression (e : Expression) (input : List Char) (fresh fresh' : Serial) :
    (ofExpression e input fresh).Similar (ofExpression e input fresh') :=
  ⟨.eval rfl rfl, rfl⟩

theorem sparesDelay_of_plain {t : Term} (h : t.Plain) (console : Console) (fresh : Serial) :
    SparesDelay ⟨.eval t .done, console, fresh⟩ where
  job x k hjob := by cases hjob
  pieces piece hpiece := by
    rintro ⟨link, next, rfl⟩
    rcases List.mem_append.mp hpiece with hterm | hdone
    · exact h.continuation_not_mem _ hterm
    · cases List.mem_singleton.mp hdone

/-- One of two similar states comes to an answer if the other one does. -/
theorem Similar.exists_answer (h : state.Similar state') (hspares : state.SparesDelay)
    (hspares' : state'.SparesDelay) (hanswer : ∃ fuel answer, state.evaluate fuel = some answer) :
    ∃ fuel answer, state'.evaluate fuel = some answer := by
  obtain ⟨fuel, answer, hanswer⟩ := hanswer
  obtain ⟨evaluation, hrun, -⟩ := hspares.evaluate_eq_some_iff.mp hanswer
  obtain ⟨fuel', evaluation', hrun', -⟩ := h.exists_run_eq_halted hrun
  exact ⟨fuel', _, hspares'.evaluate_eq_some_iff.mpr ⟨evaluation', hrun', rfl⟩⟩

end State

/-- **Texts determine behaviour.** Let two terms have the same text, and let no captured
continuation occur in them. Each of them may hold as values what the other one holds as
applications, or as parts of a program. On the same console either both evaluations come to an
end or none does, and then neither of them has failed: the results have the same text, the
consoles are the same, and either both have been exits or none has. -/
theorem text_determines_behaviour (t u : Term) (ht : t.Plain) (hu : u.Plain)
    (htext : t.text = u.text) (console : Console) (fresh fresh' : Serial) :
    let state : State := ⟨.eval t .done, console, fresh⟩
    let state' : State := ⟨.eval u .done, console, fresh'⟩
    ((∃ fuel answer, state.evaluate fuel = some answer) ↔
      ∃ fuel answer, state'.evaluate fuel = some answer) ∧
    ∀ fuel fuel' answer answer',
      state.evaluate fuel = some answer → state'.evaluate fuel' = some answer' →
      ∃ evaluation evaluation', answer = .ok evaluation ∧ answer' = .ok evaluation' ∧
        evaluation.result.text = evaluation'.result.text ∧
        evaluation.console = evaluation'.console ∧
        evaluation.exited = evaluation'.exited := by
  intro state state'
  have htree : t.tree = u.tree := Term.tree_eq_of_text_eq ht hu htext
  have hsimilar : state.Similar state' := ⟨.eval rfl htree, rfl⟩
  have hsimilar' : state'.Similar state := ⟨.eval rfl htree.symm, rfl⟩
  have hspares : state.SparesDelay := State.sparesDelay_of_plain ht console fresh
  have hspares' : state'.SparesDelay := State.sparesDelay_of_plain hu console fresh'
  refine ⟨⟨hsimilar.exists_answer hspares hspares', hsimilar'.exists_answer hspares' hspares⟩, ?_⟩
  intro fuel fuel' answer answer' hanswer hanswer'
  obtain ⟨evaluation, hrun, rfl⟩ := hspares.evaluate_eq_some_iff.mp hanswer
  obtain ⟨evaluation', hrun', rfl⟩ := hspares'.evaluate_eq_some_iff.mp hanswer'
  -- The end that the first run prescribes is the end of the second one.
  obtain ⟨_, reached, hreached, hresult, hconsole, hexited⟩ := hsimilar.exists_run_eq_halted hrun
  obtain rfl := State.eq_of_run_eq_halted hreached hrun'
  exact ⟨evaluation, reached, rfl, rfl, Value.text_eq_of_tree_eq hresult, hconsole, hexited⟩

/-- An `s` with two arguments behaves as it is written. Where ` ``s.a.b ` is a value, its
application to `i` writes `ab` and returns `i`; so this is also what becomes of the text
` ```s.a.bi `. -/
theorem waiting_s_behaves_as_written :
    let function : Value := .s2 (.primitive (.print 'a')) (.primitive (.print 'b'))
    let held : Term := .application (.value function) (.value (.primitive .i))
    let written : Term := .source
      (.application (.application (.application (.primitive .s) (.primitive (.print 'a')))
        (.primitive (.print 'b'))) (.primitive .i))
    let start : State := ⟨.eval written .done, .ofInput [], 0⟩
    held.Plain ∧ written.Plain ∧ held.text = written.text ∧
      (∃ fuel answer, start.evaluate fuel = some answer) ∧
      ∀ fuel answer, start.evaluate fuel = some answer →
        ∃ evaluation, answer = .ok evaluation ∧ evaluation.result.text = "i" ∧
          evaluation.console = ⟨[], [], ['b', 'a'], none⟩ ∧ evaluation.exited = false := by
  intro function held written start
  have hheld : held.Plain := by simp [held, function]
  have hwritten : written.Plain := Term.plain_source _
  have htext : held.text = written.text := by
    rw [← String.toList_inj, Term.toList_text, Term.toList_text]
    rfl
  obtain ⟨hends, hagree⟩ :=
    text_determines_behaviour held written hheld hwritten htext (.ofInput []) 0 0
  refine ⟨hheld, hwritten, htext, hends.mp ⟨40, _, rfl⟩, fun fuel answer hanswer => ?_⟩
  obtain ⟨evaluation, evaluation', hevaluation, rfl, hresult, hconsole, hexited⟩ :=
    hagree 40 fuel _ answer rfl hanswer
  obtain rfl := Except.ok.inj hevaluation
  refine ⟨evaluation', rfl, hresult.symm.trans ?_, hconsole.symm, hexited.symm⟩
  rw [← String.toList_inj, Value.toList_text]
  rfl

end Machine

end Unlambda
