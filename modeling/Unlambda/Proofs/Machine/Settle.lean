import Unlambda.Proofs.Machine.Steps
import Unlambda.Proofs.Value.Tree

/-!
# Terms that are written like values

A value is written as an application of `k`, `s` or `d`. Where a program holds the application
and not the value, it has to be evaluated first. This takes several steps, but the steps have no
effect and lead to a value that is written in the same way. It makes no difference which parts
of the application are values already, and what they would do if they were applied.

## Main definitions

* `Unlambda.Term.Settles`: a term becomes a value without any effect

## Main results

* `Unlambda.Term.settles_of_tree_eq`: a term that is written like a value becomes that value
-/

namespace Unlambda.Term

open Machine

variable {t f x : Term} {g v w y : Value}

/-- `t` becomes a value that is written like `v`. This holds in front of every continuation, and
nothing happens to the console. -/
def Settles (t : Term) (v : Value) : Prop :=
  ∀ k console fresh, ∃ n w later, w.tree = v.tree ∧
    State.Reaches ⟨.eval t k, console, fresh⟩ (n + 1) ⟨.resume k w, console, later⟩

theorem settles_value (h : w.tree = v.tree) : (value w).Settles v :=
  fun _ _ fresh => ⟨0, w, fresh, h, State.reaches_one.mpr rfl⟩

theorem settles_primitive {p : Primitive} (h : t.tree = .primitive p) :
    t.Settles (.primitive p) := by
  intro k console fresh
  rcases eq_of_tree_eq_primitive h with rfl | rfl
  · exact settles_value rfl k console fresh
  · exact ⟨0, .primitive p, fresh, rfl, State.reaches_one.mpr rfl⟩

/-- The operand of `d` is kept as it is. -/
theorem settles_delayed {promise : Serial} {body : Term} (hterm : t.Applies f x)
    (hf : f.Settles (.primitive .d)) (hx : x.tree = body.tree) :
    t.Settles (.delayed promise body) := by
  intro k console fresh
  obtain ⟨n, d, later, hd, hreach⟩ := hf (.awaitOperand fresh x k) console (fresh + 1)
  obtain rfl := Value.tree_eq_primitive_iff.mp hd
  have hkept : (Value.delayed later x).tree = (Value.delayed promise body).tree :=
    Value.tree_eq_delayed_iff.mpr ⟨later, x, rfl, hx⟩
  have hpromise : State.Reaches ⟨.resume (.awaitOperand fresh x k) (.primitive .d), console, later⟩
      1 ⟨.resume k (.delayed later x), console, later + 1⟩ := State.reaches_one.mpr rfl
  exact ⟨_, _, _, hkept, .head (step_eval_of_applies hterm) (hreach.trans hpromise)⟩

/-- An application settles if both of its parts do, and if the call of the one with the other is
without effect. -/
theorem settles_call (hterm : t.Applies f x) (hf : f.Settles g) (hg : g ≠ .primitive .d)
    (hx : x.Settles y)
    (hcall : ∀ g' y', g'.tree = g.tree → y'.tree = y.tree → ∃ w, w.tree = v.tree ∧
      ∀ k console fresh, State.step ⟨.apply g' y' k, console, fresh⟩ =
        .next ⟨.resume k w, console, fresh⟩) :
    t.Settles v := by
  intro k console fresh
  obtain ⟨m, g', later, hg', hoperator⟩ := hf (.awaitOperand fresh x k) console (fresh + 1)
  have hother : g' ≠ .primitive .d := by
    rintro rfl
    exact hg (Value.tree_eq_primitive_iff.mp hg'.symm)
  obtain ⟨n, y', last, hy', hoperand⟩ := hx (.awaitApply later g' k) console (later + 1)
  obtain ⟨w, hw, hstep⟩ := hcall g' y' hg' hy'
  have hreturn : State.Reaches ⟨.resume (.awaitApply later g' k) y', console, last⟩ 2
      ⟨.resume k w, console, last⟩ := .head rfl (State.reaches_one.mpr (hstep k console last))
  have hafter : State.Reaches ⟨.resume (.awaitOperand fresh x k) g', console, later⟩
      (n + 1 + 2 + 1) ⟨.resume k w, console, last⟩ :=
    .head (step_resume_of_ne hother) (hoperand.trans hreturn)
  exact ⟨_, w, last, hw, .head (step_eval_of_applies hterm) (hoperator.trans hafter)⟩

theorem settles_s1 {x : Value} (hx : ∀ {a : Term}, a.tree = x.tree → a.Settles x)
    (h : t.tree = (Value.s1 x).tree) : t.Settles (.s1 x) := by
  rcases applies_of_tree_eq h with ⟨w, rfl⟩ | ⟨f, a, hterm, hf, ha⟩
  · exact settles_value h
  · refine settles_call hterm (settles_primitive hf) (by simp) (hx ha) fun g y hg hy => ?_
    obtain rfl := Value.tree_eq_primitive_iff.mp hg
    exact ⟨.s1 y, Value.tree_eq_s1_iff.mpr ⟨y, rfl, hy⟩, fun _ _ _ => rfl⟩

/-- **A term that is written like a value becomes that value,** and has no effect. -/
theorem settles_of_tree_eq : ∀ (v : Value) {t : Term}, t.tree = v.tree → t.Settles v
  | .primitive p, t, h => settles_primitive h
  | .k1 x, t, h => by
    rcases applies_of_tree_eq h with ⟨w, rfl⟩ | ⟨f, a, hterm, hf, ha⟩
    · exact settles_value h
    · have hx := settles_of_tree_eq x ha
      refine settles_call hterm (settles_primitive hf) (by simp) hx fun g y hg hy => ?_
      obtain rfl := Value.tree_eq_primitive_iff.mp hg
      exact ⟨.k1 y, Value.tree_eq_k1_iff.mpr ⟨y, rfl, hy⟩, fun _ _ _ => rfl⟩
  | .s1 x, t, h => settles_s1 (settles_of_tree_eq x) h
  | .s2 x y, t, h => by
    rcases applies_of_tree_eq h with ⟨w, rfl⟩ | ⟨f, a, hterm, hf, ha⟩
    · exact settles_value h
    · -- The operator is written like `s` with its first argument.
      have hoperator : f.Settles (.s1 x) := settles_s1 (settles_of_tree_eq x) hf
      have hy := settles_of_tree_eq y ha
      refine settles_call hterm hoperator (by simp) hy fun g y' hg hy => ?_
      obtain ⟨x', rfl, hx⟩ := Value.tree_eq_s1_iff.mp hg
      exact ⟨.s2 x' y', Value.tree_eq_s2_iff.mpr ⟨x', y', rfl, hx, hy⟩, fun _ _ _ => rfl⟩
  | .delayed promise body, t, h => by
    rcases applies_of_tree_eq h with ⟨w, rfl⟩ | ⟨f, a, hterm, hf, ha⟩
    · exact settles_value h
    · exact settles_delayed hterm (settles_primitive hf) ha
  | .continuation k, t, h => by
    obtain ⟨w, rfl⟩ := eq_of_tree_eq_captured h
    exact settles_value h

end Unlambda.Term
