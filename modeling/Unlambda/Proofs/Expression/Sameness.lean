import Unlambda.Proofs.Expression.PrefixCode

/-!
# Sameness of expressions

Two expressions are compared by a loop over pairs of parts. In memory the operators and operands
of applications stand in nodes, one of which can be a part of several applications, and the loop
passes over a pair whose members stand in the same node. That saves work and makes no difference
to the answer, which is whether both expressions are the same tree. Their texts could be compared
just as well, since no text of an expression continues the one of another.

## Main definitions

* `Unlambda.Expression.Stored`: an expression as it stands in memory
* `Unlambda.Expression.Stored.StandsIn`: its nodes hold what the memory holds there
* `Unlambda.Expression.Stored.sameAll`: the loop, which recognises nodes

## Main results

* `Unlambda.Expression.sameAll_eq_true_iff`, `Unlambda.Expression.Stored.sameAll_eq_true_iff`:
  what the loop passes over makes no difference
* `Unlambda.Expression.text_inj`: expressions with the same text are the same
* `Unlambda.Expression.sameness_is_sameness_of_texts`: all of this for any two expressions
-/

namespace Unlambda

namespace Expression

/-! ### Trees -/

variable {shared : Expression → Expression → Bool}

/-- **The loop compares trees,** whatever is known to be shared. -/
theorem sameAll_eq_true_iff (sound : ∀ f g, shared f g = true → f = g)
    (pending : List (Expression × Expression)) :
    sameAll shared pending = true ↔ ∀ pair ∈ pending, pair.1 = pair.2 := by
  fun_induction sameAll shared pending with
  | case1 => simp
  | case2 p q pending ih => simp [ih]
  | case3 f x g y pending ih =>
    rw [ih, forall_mem_compareUnless_iff Eq (sound f g),
      forall_mem_compareUnless_iff Eq (sound x y)]
    simp [and_assoc]
  | case4 pair pending notPrimitives notApplications =>
    refine iff_of_false Bool.false_ne_true fun h => ?_
    obtain ⟨a, b⟩ := pair
    obtain rfl : a = b := h _ List.mem_cons_self
    cases a with
    | primitive p => exact notPrimitives p p rfl
    | application f x => exact notApplications f x f x rfl

end Expression

/-! ### Trees in memory -/

/-- What tells the nodes of a memory apart. -/
abbrev Node := Nat

namespace Expression

/-- An expression as it stands in memory. Operators and operands have nodes of their own, which
other applications can share. -/
inductive Stored
  | primitive (p : Primitive)
  /-- The operator stands in the node `m`, and the operand in `n`. -/
  | application (m : Node) (operator : Stored) (n : Node) (operand : Stored)

namespace Stored

/-- The expression that is stored. -/
def expression : Stored → Expression
  | primitive p => .primitive p
  | application _ f _ x => .application f.expression x.expression

/-- Each node of the stored expression holds what the memory holds there. So one node has one
contents, in one expression and in all that stand in the same memory. -/
def StandsIn (memory : Node → Expression) : Stored → Prop
  | primitive _ => True
  | application m f n x =>
    (memory m = f.expression ∧ f.StandsIn memory) ∧ memory n = x.expression ∧ x.StandsIn memory

/-- Whether the members of each pending pair are the same tree. Parts that stand in the same node
are not visited. -/
def sameAll : List (Stored × Stored) → Bool
  | [] => true
  | (primitive p, primitive q) :: pending => p == q && sameAll pending
  | (application m f n x, application m' g n' y) :: pending =>
    sameAll (compareUnless (m == m') f g (compareUnless (n == n') x y pending))
  | _ :: _ => false
termination_by pending => pendingSum (fun pair => pair.1.expression.nodes) pending
decreasing_by
  · simp [expression, nodes]
  · have operands := pendingSum_compareUnless_le (fun a => a.expression.nodes) (n == n') x y pending
    have operators := pendingSum_compareUnless_le (fun a => a.expression.nodes) (m == m') f g
      (compareUnless (n == n') x y pending)
    simp only [pendingSum_cons, expression, nodes]
    omega

variable {memory : Node → Expression}

/-- **The loop compares trees,** whichever nodes they share. -/
theorem sameAll_eq_true_iff {pending : List (Stored × Stored)}
    (stands : ∀ pair ∈ pending, pair.1.StandsIn memory ∧ pair.2.StandsIn memory) :
    sameAll pending = true ↔ ∀ pair ∈ pending, pair.1.expression = pair.2.expression := by
  fun_induction sameAll pending with
  | case1 => simp
  | case2 p q pending ih =>
    obtain ⟨-, hpending⟩ := List.forall_mem_cons.mp stands
    simp [ih hpending, expression]
  | case3 m f n x m' g n' y pending ih =>
    obtain ⟨⟨⟨⟨hm, hf⟩, hn, hx⟩, ⟨hm', hg⟩, hn', hy⟩, hpending⟩ := List.forall_mem_cons.mp stands
    have operators : (m == m') = true → f.expression = g.expression := fun hnode =>
      hm.symm.trans (beq_iff_eq.mp hnode ▸ hm')
    have operands : (n == n') = true → x.expression = y.expression := fun hnode =>
      hn.symm.trans (beq_iff_eq.mp hnode ▸ hn')
    -- What is pending stands in the memory, whether or not a pair is passed over.
    have hlater : ∀ pair ∈ compareUnless (m == m') f g (compareUnless (n == n') x y pending),
        pair.1.StandsIn memory ∧ pair.2.StandsIn memory :=
      forall_mem_compareUnless ⟨hf, hg⟩ (forall_mem_compareUnless ⟨hx, hy⟩ hpending)
    have later := @forall_mem_compareUnless_iff Stored fun a b => a.expression = b.expression
    rw [ih hlater, later operators, later operands]
    simp [expression, and_assoc]
  | case4 pair pending notPrimitives notApplications =>
    refine iff_of_false Bool.false_ne_true fun h => ?_
    obtain ⟨a, b⟩ := pair
    have hsame : a.expression = b.expression := h _ List.mem_cons_self
    cases a <;> cases b
    · exact notPrimitives _ _ rfl
    · cases hsame
    · cases hsame
    · exact notApplications _ _ _ _ _ _ _ _ rfl

end Stored

/-! ### Texts -/

theorem text_inj {a b : Expression} : a.text = b.text ↔ a = b := by
  refine ⟨fun h => spelling_inj ?_, congrArg text⟩
  rw [← toList_text, h, toList_text]

/-- No text of an expression goes on behind the text of another one. -/
theorem eq_of_text_isPrefix {a b : Expression} (h : a.text.toList <+: b.text.toList) : a = b := by
  rw [toList_text, toList_text] at h
  obtain ⟨rest, hrest⟩ := h
  exact (spelling_append_inj (hrest.trans (List.append_nil _).symm)).1

/-- **Expressions are the same if their texts are.** The characters that `.x` and `?x` carry may
be any.

* The loop tells whether two expressions are the same tree.
* It tells the same whatever parts are known to be shared,
* and whichever nodes the expressions share in a memory.
* Expressions are the same tree if and only if they have the same text.
* No text of an expression is a proper beginning of another one. -/
theorem sameness_is_sameness_of_texts (a b : Expression) :
    (a.same b = true ↔ a = b) ∧
    (∀ shared : Expression → Expression → Bool, (∀ f g, shared f g = true → f = g) →
      sameAll shared [(a, b)] = a.same b) ∧
    (∀ (memory : Node → Expression) (m n : Stored), m.StandsIn memory → n.StandsIn memory →
      m.expression = a → n.expression = b → Stored.sameAll [(m, n)] = a.same b) ∧
    (a = b ↔ a.text = b.text) ∧
    (a.text.toList <+: b.text.toList → a.text = b.text) := by
  have hloop {shared : Expression → Expression → Bool}
      (sound : ∀ f g, shared f g = true → f = g) : sameAll shared [(a, b)] = true ↔ a = b :=
    (sameAll_eq_true_iff sound _).trans List.forall_mem_singleton
  have hsame : a.same b = true ↔ a = b := hloop fun _ _ h => absurd h Bool.false_ne_true
  refine ⟨hsame, fun shared sound => ?_, ?_, text_inj.symm,
    fun h => congrArg text (eq_of_text_isPrefix h)⟩
  · rw [Bool.eq_iff_iff, hloop sound, hsame]
  · rintro memory m n hm hn rfl rfl
    have hstands : ∀ pair ∈ [(m, n)], pair.1.StandsIn memory ∧ pair.2.StandsIn memory :=
      List.forall_mem_singleton.mpr ⟨hm, hn⟩
    rw [Bool.eq_iff_iff, Stored.sameAll_eq_true_iff hstands, hsame, List.forall_mem_singleton]

/-- Two applications share the node of the operator, but not the one of the operand. Both nodes
hold the sign that prints a backquote. -/
theorem shared_operator_is_passed_over :
    let sign : Stored := .primitive (.print '\x60')
    let memory : Node → Expression := fun _ => sign.expression
    let m : Stored := .application 0 sign 1 sign
    let n : Stored := .application 0 sign 2 sign
    (∀ f g : Expression, f.same g = true → f = g) ∧ m.StandsIn memory ∧ n.StandsIn memory ∧
      m.expression.text.toList <+: n.expression.text.toList ∧
      sameAll same [(m.expression, n.expression)] = m.expression.same n.expression ∧
      Stored.sameAll [(m, n)] = m.expression.same n.expression ∧
      m.expression.text = n.expression.text := by
  intro sign memory m n
  have sound (f g : Expression) := (sameness_is_sameness_of_texts f g).1.mp
  have hm : m.StandsIn memory := ⟨⟨rfl, trivial⟩, rfl, trivial⟩
  have hn : n.StandsIn memory := ⟨⟨rfl, trivial⟩, rfl, trivial⟩
  obtain ⟨-, hshared, hstored, -, htext⟩ :=
    sameness_is_sameness_of_texts m.expression n.expression
  exact ⟨sound, hm, hn, List.prefix_rfl, hshared same sound, hstored memory m n hm hn rfl rfl,
    htext List.prefix_rfl⟩

end Expression

end Unlambda
