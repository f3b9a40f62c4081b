import Unlambda.Value.Basic

/-!
# Values without their serials

Serials tell two promises apart, but they have no part in what a promise does. Values are
alike if they differ in nothing but serials.

## Main definitions

* `Unlambda.Value.anonymous`, `Unlambda.Term.anonymous`, `Unlambda.Continuation.anonymous`:
  all serials are zero
* `Unlambda.Value.Alike`, `Unlambda.Term.Alike`: the same up to serials

## Main results

* `Unlambda.Value.alike_k1_iff` and its companions: what is alike to a given value is built
  like it, from parts that are alike
-/

namespace Unlambda

mutual

/-- A value whose serials are all zero. -/
def Value.anonymous : Value → Value
  | .primitive p => .primitive p
  | .k1 x => .k1 x.anonymous
  | .s1 x => .s1 x.anonymous
  | .s2 x y => .s2 x.anonymous y.anonymous
  | .delayed _ body => .delayed 0 body.anonymous
  | .continuation k => .continuation k.anonymous

/-- A term whose serials are all zero. -/
def Term.anonymous : Term → Term
  | .source e => .source e
  | .value v => .value v.anonymous
  | .application f x => .application f.anonymous x.anonymous

/-- A continuation whose serials are all zero. -/
def Continuation.anonymous : Continuation → Continuation
  | .done => .done
  | .awaitOperand _ operand next => .awaitOperand 0 operand.anonymous next.anonymous
  | .awaitApply _ function next => .awaitApply 0 function.anonymous next.anonymous

end

attribute [local simp] Value.anonymous Term.anonymous Continuation.anonymous

namespace Value

variable {v w x y : Value}

/-- Two values that differ at most in their serials. -/
def Alike (v w : Value) : Prop := v.anonymous = w.anonymous

theorem Alike.refl (v : Value) : v.Alike v := rfl

theorem Alike.symm (h : v.Alike w) : w.Alike v := Eq.symm h

theorem Alike.trans (h : v.Alike w) (h' : w.Alike x) : v.Alike x := Eq.trans h h'

@[simp] theorem alike_primitive_iff {p : Primitive} :
    v.Alike (.primitive p) ↔ v = .primitive p := by
  cases v <;> simp [Alike]

theorem alike_k1_iff : v.Alike (.k1 x) ↔ ∃ x', v = .k1 x' ∧ x'.Alike x := by
  cases v <;> simp [Alike]

theorem alike_s1_iff : v.Alike (.s1 x) ↔ ∃ x', v = .s1 x' ∧ x'.Alike x := by
  cases v <;> simp [Alike]

theorem alike_s2_iff :
    v.Alike (.s2 x y) ↔ ∃ x' y', v = .s2 x' y' ∧ x'.Alike x ∧ y'.Alike y := by
  cases v <;> simp [Alike, and_assoc]

/-- A chain of `k` over a primitive holds no serial. -/
theorem alike_kChain_iff {p : Primitive} {count : Nat} :
    v.Alike ((primitive p).kChain count) ↔ v = (primitive p).kChain count := by
  induction count generalizing v with
  | zero => exact alike_primitive_iff
  | succ count ih => simp [kChain_succ, alike_k1_iff, ih]

end Value

namespace Term

variable {t u f x : Term}

/-- Two terms that differ at most in their serials. -/
def Alike (t u : Term) : Prop := t.anonymous = u.anonymous

theorem Alike.refl (t : Term) : t.Alike t := rfl

@[simp] theorem alike_source_iff {e : Expression} : t.Alike (.source e) ↔ t = .source e := by
  cases t <;> simp [Alike]

theorem alike_value_iff {v : Value} :
    t.Alike (.value v) ↔ ∃ v', t = .value v' ∧ v'.Alike v := by
  cases t <;> simp [Alike, Value.Alike]

theorem alike_application_iff :
    t.Alike (.application f x) ↔ ∃ f' x', t = .application f' x' ∧ f'.Alike f ∧ x'.Alike x := by
  cases t <;> simp [Alike, and_assoc]

theorem Alike.application {f' x' : Term} (hf : f'.Alike f) (hx : x'.Alike x) :
    (Term.application f' x').Alike (.application f x) :=
  alike_application_iff.mpr ⟨f', x', rfl, hf, hx⟩

theorem Alike.applyValues {v v' w w' : Value} (hv : v'.Alike v) (hw : w'.Alike w) :
    (applyValues v' w').Alike (applyValues v w) :=
  .application (alike_value_iff.mpr ⟨v', rfl, hv⟩) (alike_value_iff.mpr ⟨w', rfl, hw⟩)

end Term

theorem Value.alike_delayed_iff {v : Value} {promise : Serial} {body : Term} :
    v.Alike (.delayed promise body) ↔
      ∃ promise' body', v = .delayed promise' body' ∧ body'.Alike body := by
  cases v <;> simp [Alike, Term.Alike, and_assoc]

end Unlambda
