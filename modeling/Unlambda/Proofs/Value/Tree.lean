import Unlambda.Proofs.Expression.PrefixCode
import Unlambda.Proofs.Machine.Pieces
import Unlambda.Proofs.Natural.Rules

/-!
# What a text shows

The text of a term shows applications and primitives. It does not show which parts have been
evaluated: `k` with its first argument is written as the application of `k` to it, and a promise
as the application of `d` to its body. The tree of a term is what is left if such differences are
forgotten, together with the serials. A captured continuation stays what it is, but the terms in
its frames become trees as well.

## Main definitions

* `Unlambda.Tree`, `Unlambda.Chain`: terms and continuations as far as texts show them
* `Unlambda.Value.tree`, `Unlambda.Term.tree`, `Unlambda.Continuation.chain`: what is shown
* `Unlambda.Value.Plain`, `Unlambda.Term.Plain`: no captured continuation occurs

## Main results

* `Unlambda.Value.tree_eq_k1_iff` and its companions: values with the same tree are built in the
  same way
* `Unlambda.Term.applies_of_tree_eq`: a term that is written as an application is one, or a value
* `Unlambda.Value.text_eq_of_tree_eq`: the tree determines the text
* `Unlambda.Term.tree_eq_of_text_eq`: the text of a plain term determines its tree
-/

namespace Unlambda

mutual

/-- A term without the difference between what has been evaluated and what has not. -/
inductive Tree
  | primitive (p : Primitive)
  /-- `operator` applied to `operand`. -/
  | application (operator operand : Tree)
  /-- A captured continuation. -/
  | captured (k : Chain)

/-- A continuation whose frames hold trees. -/
inductive Chain
  | done
  | awaitOperand (operand : Tree) (next : Chain)
  | awaitApply (function : Tree) (next : Chain)

end

/-- An expression as a tree. -/
def Expression.tree : Expression → Tree
  | .primitive p => .primitive p
  | .application f x => .application f.tree x.tree

mutual

/-- A value as a tree: the application that produces it. -/
def Value.tree : Value → Tree
  | .primitive p => .primitive p
  | .k1 x => .application (.primitive .k) x.tree
  | .s1 x => .application (.primitive .s) x.tree
  | .s2 x y => .application (.application (.primitive .s) x.tree) y.tree
  | .delayed _ body => .application (.primitive .d) body.tree
  | .continuation k => .captured k.chain

/-- A term as a tree. -/
def Term.tree : Term → Tree
  | .source e => e.tree
  | .value v => v.tree
  | .application f x => .application f.tree x.tree

/-- A continuation with trees in its frames. -/
def Continuation.chain : Continuation → Chain
  | .done => .done
  | .awaitOperand _ operand next => .awaitOperand operand.tree next.chain
  | .awaitApply _ function next => .awaitApply function.tree next.chain

end

attribute [local simp] Value.tree Term.tree Continuation.chain

/-! ### Values, terms and continuations with a given tree -/

namespace Value

variable {v x y : Value}

@[simp] theorem tree_eq_primitive_iff {p : Primitive} :
    v.tree = .primitive p ↔ v = .primitive p := by
  cases v <;> simp

theorem tree_eq_k1_iff : v.tree = (k1 x).tree ↔ ∃ x', v = k1 x' ∧ x'.tree = x.tree := by
  cases v <;> simp

theorem tree_eq_s1_iff : v.tree = (s1 x).tree ↔ ∃ x', v = s1 x' ∧ x'.tree = x.tree := by
  cases v <;> simp

theorem tree_eq_s2_iff :
    v.tree = (s2 x y).tree ↔ ∃ x' y', v = s2 x' y' ∧ x'.tree = x.tree ∧ y'.tree = y.tree := by
  cases v <;> simp [and_assoc]

theorem tree_eq_delayed_iff {promise : Serial} {body : Term} :
    v.tree = (delayed promise body).tree ↔
      ∃ promise' body', v = delayed promise' body' ∧ body'.tree = body.tree := by
  cases v <;> simp [and_assoc]

theorem tree_eq_captured_iff {c : Chain} :
    v.tree = .captured c ↔ ∃ k, v = continuation k ∧ k.chain = c := by
  cases v <;> simp

end Value

namespace Term

variable {t f x : Term}

theorem Applies.tree_eq (h : t.Applies f x) : t.tree = .application f.tree x.tree := by
  cases h <;> rfl

theorem eq_of_tree_eq_primitive {p : Primitive} (h : t.tree = .primitive p) :
    t = value (.primitive p) ∨ t = source (.primitive p) := by
  cases t with
  | value v => exact .inl (congrArg value (Value.tree_eq_primitive_iff.mp h))
  | application f x => cases h
  | source e =>
    cases e with
    | primitive q => exact .inr (congrArg (source ∘ .primitive) (Tree.primitive.inj h))
    | application f x => cases h

theorem eq_of_tree_eq_captured {c : Chain} (h : t.tree = .captured c) :
    ∃ v, t = value v := by
  cases t with
  | value v => exact ⟨v, rfl⟩
  | application f x => cases h
  | source e => cases e <;> cases h

/-- A term that is written as an application either is one or has been evaluated. -/
theorem applies_of_tree_eq {operator operand : Tree} (h : t.tree = .application operator operand) :
    (∃ v, t = value v) ∨ ∃ f x, t.Applies f x ∧ f.tree = operator ∧ x.tree = operand := by
  cases t with
  | value v => exact .inl ⟨v, rfl⟩
  | application f x =>
    obtain ⟨hf, hx⟩ := Tree.application.inj h
    exact .inr ⟨f, x, .made f x, hf, hx⟩
  | source e =>
    cases e with
    | primitive p => cases h
    | application f x =>
      obtain ⟨hf, hx⟩ := Tree.application.inj h
      exact .inr ⟨_, _, .written f x, hf, hx⟩

end Term

namespace Continuation

variable {k next : Continuation} {link : Serial}

@[simp] theorem chain_eq_done_iff : k.chain = .done ↔ k = done := by
  cases k <;> simp

theorem chain_eq_awaitOperand_iff {operand : Term} :
    k.chain = (awaitOperand link operand next).chain ↔
      ∃ link' operand' next', k = awaitOperand link' operand' next' ∧
        operand'.tree = operand.tree ∧ next'.chain = next.chain := by
  cases k <;> simp [and_assoc]

theorem chain_eq_awaitApply_iff {function : Value} :
    k.chain = (awaitApply link function next).chain ↔
      ∃ link' function' next', k = awaitApply link' function' next' ∧
        function'.tree = function.tree ∧ next'.chain = next.chain := by
  cases k <;> simp [and_assoc]

end Continuation

/-! ### Trees and texts -/

/-- The text of a tree. -/
def Tree.spelling : Tree → List Char
  | .primitive p => p.spelling
  | .application f x => '\x60' :: (f.spelling ++ x.spelling)
  | .captured _ => ['<', 'c', 'o', 'n', 't', '>']

theorem Expression.spelling_tree (e : Expression) : e.tree.spelling = e.spelling := by
  induction e with
  | primitive p => rfl
  | application f x ihf ihx => rw [tree, Tree.spelling, ihf, ihx, spelling]

mutual

theorem Value.spelling_tree : ∀ v : Value, v.tree.spelling = v.spelling
  | .primitive p => rfl
  | .k1 x => by
    rw [Value.tree, Tree.spelling, x.spelling_tree]
    rfl
  | .s1 x => by
    rw [Value.tree, Tree.spelling, x.spelling_tree]
    rfl
  | .s2 x y => by
    rw [Value.tree, Tree.spelling, Tree.spelling, x.spelling_tree, y.spelling_tree]
    rfl
  | .delayed _ body => by
    rw [Value.tree, Tree.spelling, body.spelling_tree]
    rfl
  | .continuation k => by rw [Value.tree, Tree.spelling, Value.spelling]

theorem Term.spelling_tree : ∀ t : Term, t.tree.spelling = t.spelling
  | .source e => e.spelling_tree
  | .value v => v.spelling_tree
  | .application f x => by
    rw [Term.tree, Tree.spelling, f.spelling_tree, x.spelling_tree, Term.spelling]

end

/-- **The tree determines the text.** -/
theorem Value.text_eq_of_tree_eq {v w : Value} (h : v.tree = w.tree) : v.text = w.text := by
  rw [← String.toList_inj, toList_text, toList_text, ← spelling_tree, h, spelling_tree]

/-! ### Terms without captured continuations -/

/-- No captured continuation occurs in the value, at any depth. -/
def Value.Plain (v : Value) : Prop := ∀ k, .value (.continuation k) ∉ v.pieces

/-- No captured continuation occurs in the term, at any depth. -/
def Term.Plain (t : Term) : Prop := ∀ k, .value (.continuation k) ∉ t.pieces

namespace Value

variable {x y : Value}

@[simp] theorem plain_primitive (p : Primitive) : (primitive p).Plain := by
  simp [Plain, pieces]

@[simp] theorem plain_k1_iff : (k1 x).Plain ↔ x.Plain := by simp [Plain, pieces]

@[simp] theorem plain_s1_iff : (s1 x).Plain ↔ x.Plain := by simp [Plain, pieces]

@[simp] theorem plain_s2_iff : (s2 x y).Plain ↔ x.Plain ∧ y.Plain := by
  simp [Plain, pieces, forall_and]

@[simp] theorem plain_delayed_iff {promise : Serial} {body : Term} :
    (delayed promise body).Plain ↔ body.Plain := by
  simp [Plain, Term.Plain, pieces]

theorem not_plain_continuation (k : Continuation) : ¬ (continuation k).Plain :=
  fun h => h k (mem_pieces_self _)

end Value

namespace Term

@[simp] theorem plain_source (e : Expression) : (source e).Plain := by
  simp [Plain, pieces]

@[simp] theorem plain_value_iff {v : Value} : (value v).Plain ↔ v.Plain := by
  simp [Plain, Value.Plain, pieces]

@[simp] theorem plain_application_iff {f x : Term} :
    (application f x).Plain ↔ f.Plain ∧ x.Plain := by
  simp [Plain, pieces, forall_and]

end Term

mutual

/-- Frames occur in a value only beneath a captured continuation. -/
theorem Value.Plain.continuation_not_mem : ∀ {v : Value}, v.Plain → ∀ k, .continuation k ∉ v.pieces
  | .primitive p, _, k => by simp [Value.pieces]
  | .k1 x, h, k => by
    have hx := (Value.plain_k1_iff.mp h).continuation_not_mem k
    simpa [Value.pieces] using hx
  | .s1 x, h, k => by
    have hx := (Value.plain_s1_iff.mp h).continuation_not_mem k
    simpa [Value.pieces] using hx
  | .s2 x y, h, k => by
    obtain ⟨hx, hy⟩ := Value.plain_s2_iff.mp h
    simpa [Value.pieces] using ⟨hx.continuation_not_mem k, hy.continuation_not_mem k⟩
  | .delayed promise body, h, k => by
    have hbody := (Value.plain_delayed_iff.mp h).continuation_not_mem k
    simpa [Value.pieces] using hbody
  | .continuation saved, h, _ => absurd h (Value.not_plain_continuation saved)

/-- Frames occur in a term only beneath a captured continuation. -/
theorem Term.Plain.continuation_not_mem : ∀ {t : Term}, t.Plain → ∀ k, .continuation k ∉ t.pieces
  | .source e, _, k => by simp [Term.pieces]
  | .value v, h, k => by
    have hv := (Term.plain_value_iff.mp h).continuation_not_mem k
    simpa [Term.pieces] using hv
  | .application f x, h, k => by
    obtain ⟨hf, hx⟩ := Term.plain_application_iff.mp h
    simpa [Term.pieces] using ⟨hf.continuation_not_mem k, hx.continuation_not_mem k⟩

end

mutual

/-- A plain value is written like the expression that produces it. -/
theorem Value.Plain.exists_tree_eq : ∀ {v : Value}, v.Plain → ∃ e : Expression, v.tree = e.tree
  | .primitive p, _ => ⟨.primitive p, rfl⟩
  | .k1 x, h => by
    obtain ⟨e, he⟩ := (Value.plain_k1_iff.mp h).exists_tree_eq
    exact ⟨.application (.primitive .k) e, by rw [Value.tree, he]; rfl⟩
  | .s1 x, h => by
    obtain ⟨e, he⟩ := (Value.plain_s1_iff.mp h).exists_tree_eq
    exact ⟨.application (.primitive .s) e, by rw [Value.tree, he]; rfl⟩
  | .s2 x y, h => by
    obtain ⟨hx, hy⟩ := Value.plain_s2_iff.mp h
    obtain ⟨e, he⟩ := hx.exists_tree_eq
    obtain ⟨e', he'⟩ := hy.exists_tree_eq
    exact ⟨.application (.application (.primitive .s) e) e', by rw [Value.tree, he, he']; rfl⟩
  | .delayed promise body, h => by
    obtain ⟨e, he⟩ := (Value.plain_delayed_iff.mp h).exists_tree_eq
    exact ⟨.application (.primitive .d) e, by rw [Value.tree, he]; rfl⟩
  | .continuation k, h => absurd h (Value.not_plain_continuation k)

/-- A plain term is written like an expression. -/
theorem Term.Plain.exists_tree_eq : ∀ {t : Term}, t.Plain → ∃ e : Expression, t.tree = e.tree
  | .source e, _ => ⟨e, rfl⟩
  | .value v, h => (Term.plain_value_iff.mp h).exists_tree_eq
  | .application f x, h => by
    obtain ⟨hf, hx⟩ := Term.plain_application_iff.mp h
    obtain ⟨e, he⟩ := hf.exists_tree_eq
    obtain ⟨e', he'⟩ := hx.exists_tree_eq
    exact ⟨.application e e', by rw [Term.tree, he, he']; rfl⟩

end

/-- **The text of a plain term determines its tree.** -/
theorem Term.tree_eq_of_text_eq {t u : Term} (ht : t.Plain) (hu : u.Plain)
    (h : t.text = u.text) : t.tree = u.tree := by
  obtain ⟨e, he⟩ := ht.exists_tree_eq
  obtain ⟨e', he'⟩ := hu.exists_tree_eq
  -- Both are written like expressions, and these have the same text.
  have hspelling : e.spelling = e'.spelling := by
    calc e.spelling
      _ = t.spelling := by rw [← e.spelling_tree, ← he, t.spelling_tree]
      _ = u.spelling := by rw [← t.toList_text, h, u.toList_text]
      _ = e'.spelling := by rw [← e'.spelling_tree, ← he', u.spelling_tree]
  rw [he, he', Expression.spelling_inj hspelling]

end Unlambda
