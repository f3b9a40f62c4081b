import Mathlib.Logic.Relation
import Unlambda.Value.Sameness
import Unlambda.Proofs.Expression.Sameness
import Unlambda.Proofs.Value.Tree

/-!
# What sameness of values means

Values are compared by a loop over pairs of parts. In memory the argument of a waiting `k` or
`s` stands in a node, which can be a part of many values, and the loop passes over two arguments
that stand in the same node. Promises and links stand in nodes as well. These are not opened: two
promises are the same if they are one promise, whatever it holds.

So sameness is defined by recursion on how values are built. It asks for less than equality, but
only between values that cannot stand in one memory. There a promise has one body, a link lies on
one chain, and values that are the same have the same text. Where nothing but arguments is held,
the text decides.

## Main definitions

* `Unlambda.Value.Same`: sameness, by recursion
* `Unlambda.Value.Explicit`: neither a promise nor a captured continuation occurs
* `Unlambda.Value.Memory`, `Unlambda.Value.Stored`: a memory, and a value as it stands in one
* `Unlambda.Value.Stored.sameAll`: the loop, which recognises nodes

## Main results

* `Unlambda.Value.sameAll_eq_true_iff`, `Unlambda.Value.Stored.sameAll_eq_true_iff`: the loop
  tells sameness, and what it passes over makes no difference
* `Unlambda.Value.Same.equivalence`: sameness is an equivalence relation
* `Unlambda.Value.Stored.value_eq_of_same`: in one memory, what is the same is equal
* `Unlambda.Value.Explicit.text_inj`: the text determines an explicit value
* `Unlambda.Value.comparison_in_memory`: all of this for the values of a memory
-/

namespace Unlambda

@[simp] theorem Continuation.link?_eq_none_iff {k : Continuation} : k.link? = none ↔ k = done := by
  cases k <;> simp [link?]

namespace Value

/-! ### Sameness -/

/-- Values that are built in the same way. A promise is the same only as itself, and a captured
continuation only as one that is the same chain. -/
inductive Same : Value → Value → Prop
  | primitive (p : Primitive) : Same (primitive p) (primitive p)
  | k1 {x y : Value} (h : Same x y) : Same (k1 x) (k1 y)
  | s1 {x y : Value} (h : Same x y) : Same (s1 x) (s1 y)
  | s2 {x y x' y' : Value} (h : Same x y) (h' : Same x' y') : Same (s2 x x') (s2 y y')
  | delayed (promise : Serial) (body body' : Term) :
    Same (delayed promise body) (delayed promise body')
  | done : Same (continuation .done) (continuation .done)
  | chain {k l : Continuation} {link : Serial} (hk : k.link? = some link)
    (hl : l.link? = some link) : Same (continuation k) (continuation l)

variable {x y x' y' : Value}

@[simp] theorem same_primitive_iff {p q : Primitive} :
    (primitive p).Same (primitive q) ↔ p = q := by
  refine ⟨fun h => ?_, fun h => h ▸ .primitive p⟩
  cases h
  rfl

@[simp] theorem same_k1_iff : (k1 x).Same (k1 y) ↔ x.Same y := by
  refine ⟨fun h => ?_, .k1⟩
  cases h
  assumption

@[simp] theorem same_s1_iff : (s1 x).Same (s1 y) ↔ x.Same y := by
  refine ⟨fun h => ?_, .s1⟩
  cases h
  assumption

@[simp] theorem same_s2_iff : (s2 x x').Same (s2 y y') ↔ x.Same y ∧ x'.Same y' := by
  refine ⟨fun h => ?_, fun h => .s2 h.1 h.2⟩
  cases h
  constructor <;> assumption

@[simp] theorem same_delayed_iff {promise promise' : Serial} {body body' : Term} :
    (delayed promise body).Same (delayed promise' body') ↔ promise = promise' := by
  refine ⟨fun h => ?_, fun h => h ▸ .delayed promise body body'⟩
  cases h
  rfl

theorem same_continuation_iff {k l : Continuation} :
    (continuation k).Same (continuation l) ↔ k.sameChain l = true := by
  simp only [Continuation.sameChain, beq_iff_eq]
  constructor
  · intro h
    cases h with
    | done => rfl
    | chain hk hl => exact hk.trans hl.symm
  · intro h
    cases hl : l.link? with
    | some link => exact .chain (h.trans hl) hl
    | none =>
      -- Only the chain without a frame has no innermost link.
      obtain rfl := Continuation.link?_eq_none_iff.mp hl
      obtain rfl := Continuation.link?_eq_none_iff.mp h
      exact .done

theorem Same.refl (v : Value) : v.Same v := by
  cases v with
  | primitive p => exact .primitive p
  | k1 x => exact .k1 (refl x)
  | s1 x => exact .s1 (refl x)
  | s2 x y => exact .s2 (refl x) (refl y)
  | delayed promise body => exact .delayed promise body body
  | continuation k => exact same_continuation_iff.mpr BEq.rfl

theorem Same.symm {v w : Value} (h : v.Same w) : w.Same v := by
  induction h with
  | primitive p => exact .primitive p
  | k1 _ ih => exact .k1 ih
  | s1 _ ih => exact .s1 ih
  | s2 _ _ ih ih' => exact .s2 ih ih'
  | delayed promise body body' => exact .delayed promise body' body
  | done => exact .done
  | chain hk hl => exact .chain hl hk

theorem Same.trans {u v w : Value} (h : u.Same v) (h' : v.Same w) : u.Same w := by
  induction h generalizing w with
  | primitive p => exact h'
  | k1 _ ih =>
    cases h' with
    | k1 h' => exact .k1 (ih h')
  | s1 _ ih =>
    cases h' with
    | s1 h' => exact .s1 (ih h')
  | s2 _ _ ih₁ ih₂ =>
    cases h' with
    | s2 h₁ h₂ => exact .s2 (ih₁ h₁) (ih₂ h₂)
  | delayed promise body =>
    cases h' with
    | delayed _ _ body' => exact .delayed promise body body'
  | done => exact h'
  | chain hk hl =>
    -- The chain in the middle has a link, and this is its only one.
    cases h' with
    | done => cases hl
    | chain hl' hm => exact .chain hk (hm.trans (hl'.symm.trans hl))

/-- **Sameness is an equivalence relation.** -/
theorem Same.equivalence : Equivalence Same := ⟨refl, symm, trans⟩

/-- **The loop tells sameness,** whatever is known to be shared. -/
theorem sameAll_eq_true_iff {shared : Value → Value → Bool}
    (sound : ∀ x y, shared x y = true → x = y) (pending : List (Value × Value)) :
    sameAll shared pending = true ↔ ∀ pair ∈ pending, pair.1.Same pair.2 := by
  have hshared (x y : Value) (h : shared x y = true) : x.Same y := sound x y h ▸ .refl x
  fun_induction sameAll shared pending with
  | case1 => simp
  | case2 p q pending ih => simp [ih]
  | case3 x y pending ih =>
    refine ih.trans ?_
    rw [forall_mem_compareUnless_iff Same (hshared x y)]
    simp
  | case4 x y pending ih =>
    refine ih.trans ?_
    rw [forall_mem_compareUnless_iff Same (hshared x y)]
    simp
  | case5 x x' y y' pending ih => simp [ih, and_assoc]
  | case6 promise _ promise' _ pending ih => simp [ih]
  | case7 k l pending ih => simp [ih, same_continuation_iff]
  | case8 pair pending notPrimitives notK1 notS1 notS2 notPromises notContinuations =>
    refine iff_of_false Bool.false_ne_true fun h => ?_
    obtain ⟨a, b⟩ := pair
    have hsame : a.Same b := h _ List.mem_cons_self
    cases hsame with
    | primitive p => exact notPrimitives _ _ rfl
    | k1 => exact notK1 _ _ rfl
    | s1 => exact notS1 _ _ rfl
    | s2 => exact notS2 _ _ _ _ rfl
    | delayed => exact notPromises _ _ _ _ rfl
    | done => exact notContinuations _ _ rfl
    | chain => exact notContinuations _ _ rfl

/-! ### Values whose text determines them -/

/-- Neither a promise nor a captured continuation occurs in the value, at any depth. -/
def Explicit (v : Value) : Prop :=
  v.Plain ∧ ∀ promise body, .value (.delayed promise body) ∉ v.pieces

@[simp] theorem explicit_primitive (p : Primitive) : (primitive p).Explicit := by
  simp [Explicit, pieces]

@[simp] theorem explicit_k1_iff : (k1 x).Explicit ↔ x.Explicit := by simp [Explicit, pieces]

@[simp] theorem explicit_s1_iff : (s1 x).Explicit ↔ x.Explicit := by simp [Explicit, pieces]

@[simp] theorem explicit_s2_iff : (s2 x y).Explicit ↔ x.Explicit ∧ y.Explicit := by
  simp [Explicit, pieces, forall_and, and_and_and_comm]

theorem not_explicit_delayed (promise : Serial) (body : Term) :
    ¬ (delayed promise body).Explicit :=
  fun h => h.2 promise body (mem_pieces_self _)

/-- An explicit value is the only one with its tree. -/
theorem Explicit.eq_of_tree_eq : ∀ {v w : Value}, v.Explicit → w.tree = v.tree → w = v
  | .primitive _, _, _, h => tree_eq_primitive_iff.mp h
  | .k1 x, _, hv, h => by
    obtain ⟨x', rfl, hx⟩ := tree_eq_k1_iff.mp h
    rw [eq_of_tree_eq (explicit_k1_iff.mp hv) hx]
  | .s1 x, _, hv, h => by
    obtain ⟨x', rfl, hx⟩ := tree_eq_s1_iff.mp h
    rw [eq_of_tree_eq (explicit_s1_iff.mp hv) hx]
  | .s2 x y, _, hv, h => by
    obtain ⟨x', y', rfl, hx, hy⟩ := tree_eq_s2_iff.mp h
    obtain ⟨hvx, hvy⟩ := explicit_s2_iff.mp hv
    rw [eq_of_tree_eq hvx hx, eq_of_tree_eq hvy hy]
  | .delayed promise body, _, hv, _ => absurd hv (not_explicit_delayed promise body)
  | .continuation k, _, hv, _ => absurd hv.1 (not_plain_continuation k)

/-- **The text determines an explicit value.** -/
theorem Explicit.text_inj {v w : Value} (hv : v.Explicit) (hw : w.Explicit) :
    v.text = w.text ↔ v = w := by
  refine ⟨fun h => ?_, congrArg text⟩
  -- Both are plain, so that they have the same tree, and an explicit value has a tree of its own.
  have htree : (Term.value v).tree = (Term.value w).tree := by
    refine Term.tree_eq_of_text_eq (Term.plain_value_iff.mpr hv.1) (Term.plain_value_iff.mpr hw.1) ?_
    rw [← String.toList_inj, Term.toList_text, Term.toList_text, Term.spelling, Term.spelling,
      ← toList_text, ← toList_text, h]
  exact hw.eq_of_tree_eq htree

/-! ### Values in memory -/

/-- What the nodes of a memory hold. Arguments, promises and links are told apart by numbers of
their own kind. -/
structure Memory where
  /-- What stands in the node of an argument. -/
  argument : Node → Value
  /-- What a promise holds. -/
  body : Serial → Term
  /-- The chain whose innermost link this is. -/
  chain : Serial → Continuation

/-- The value with what the memory holds in its promises and on its chains. -/
def Memory.restore (memory : Memory) : Value → Value
  | .primitive p => .primitive p
  | .k1 x => .k1 (memory.restore x)
  | .s1 x => .s1 (memory.restore x)
  | .s2 x y => .s2 (memory.restore x) (memory.restore y)
  | .delayed promise _ => .delayed promise (memory.body promise)
  | .continuation k => .continuation ((k.link?.map memory.chain).getD .done)

/-- Values that are the same can only differ in what memory has to say. -/
theorem Same.restore_eq (memory : Memory) {v w : Value} (h : v.Same w) :
    memory.restore v = memory.restore w := by
  induction h with
  | primitive p => rfl
  | k1 _ ih => rw [Memory.restore, ih, Memory.restore]
  | s1 _ ih => rw [Memory.restore, ih, Memory.restore]
  | s2 _ _ ih ih' => rw [Memory.restore, ih, ih', Memory.restore]
  | delayed promise body body' => rfl
  | done => rfl
  | chain hk hl => rw [Memory.restore, Memory.restore, hk, hl]

/-- A value as it stands in memory. The arguments of `s2` stand in nodes as well, but these are
not asked for. -/
inductive Stored
  | primitive (p : Primitive)
  /-- `k` with an argument in the node `n`. -/
  | k1 (n : Node) (x : Stored)
  /-- `s` with an argument in the node `n`. -/
  | s1 (n : Node) (x : Stored)
  | s2 (x y : Stored)
  | delayed (promise : Serial) (body : Term)
  | continuation (k : Continuation)

namespace Stored

/-- The value that is stored. -/
def value : Stored → Value
  | primitive p => .primitive p
  | k1 _ x => .k1 x.value
  | s1 _ x => .s1 x.value
  | s2 x y => .s2 x.value y.value
  | delayed promise body => .delayed promise body
  | continuation k => .continuation k

/-- Each node of the stored value holds what the memory holds there. So one node has one
contents, in one value and in all that stand in the same memory. -/
def StandsIn (memory : Memory) : Stored → Prop
  | primitive _ => True
  | k1 n x => memory.argument n = x.value ∧ x.StandsIn memory
  | s1 n x => memory.argument n = x.value ∧ x.StandsIn memory
  | s2 x y => x.StandsIn memory ∧ y.StandsIn memory
  | delayed promise body => memory.body promise = body
  | continuation k => ∀ link, k.link? = some link → memory.chain link = k

/-- Whether the members of each pending pair are the same. Arguments that stand in the same node
are not visited. -/
def sameAll : List (Stored × Stored) → Bool
  | [] => true
  | (primitive p, primitive q) :: pending => p == q && sameAll pending
  | (k1 m x, k1 n y) :: pending => sameAll (compareUnless (m == n) x y pending)
  | (s1 m x, s1 n y) :: pending => sameAll (compareUnless (m == n) x y pending)
  | (s2 x x', s2 y y') :: pending => sameAll ((x, y) :: (x', y') :: pending)
  | (delayed promise _, delayed promise' _) :: pending => promise == promise' && sameAll pending
  | (continuation k, continuation l) :: pending => k.sameChain l && sameAll pending
  | _ :: _ => false
termination_by pending => pendingSum (fun pair => pair.1.value.nodes) pending
decreasing_by
  · simp [value, nodes]
  · exact pendingSum_compareUnless_lt (fun a : Stored => a.value.nodes) (by simp [value, nodes])
  · exact pendingSum_compareUnless_lt (fun a : Stored => a.value.nodes) (by simp [value, nodes])
  · simp only [pendingSum_cons, value, nodes]
    omega
  · simp [value, nodes]
  · simp [value, nodes]

variable {memory : Memory}

/-- Arguments that stand in the same node are the same. -/
theorem same_of_node_eq {m n : Node} {x y : Stored} (hx : memory.argument m = x.value)
    (hy : memory.argument n = y.value) (hnode : (m == n) = true) : x.value.Same y.value := by
  rw [← hx, ← hy, beq_iff_eq.mp hnode]
  exact .refl _

/-- **The loop tells sameness,** whichever nodes the values share. -/
theorem sameAll_eq_true_iff {pending : List (Stored × Stored)}
    (stands : ∀ pair ∈ pending, pair.1.StandsIn memory ∧ pair.2.StandsIn memory) :
    sameAll pending = true ↔ ∀ pair ∈ pending, pair.1.value.Same pair.2.value := by
  have later := @forall_mem_compareUnless_iff Stored fun a b => a.value.Same b.value
  fun_induction sameAll pending with
  | case1 => simp
  | case2 p q pending ih =>
    obtain ⟨-, hpending⟩ := List.forall_mem_cons.mp stands
    simp [ih hpending, value]
  | case3 m x n y pending ih =>
    obtain ⟨⟨⟨hm, hx⟩, hn, hy⟩, hpending⟩ := List.forall_mem_cons.mp stands
    refine (ih (forall_mem_compareUnless ⟨hx, hy⟩ hpending)).trans ?_
    rw [later (same_of_node_eq hm hn)]
    simp [value]
  | case4 m x n y pending ih =>
    obtain ⟨⟨⟨hm, hx⟩, hn, hy⟩, hpending⟩ := List.forall_mem_cons.mp stands
    refine (ih (forall_mem_compareUnless ⟨hx, hy⟩ hpending)).trans ?_
    rw [later (same_of_node_eq hm hn)]
    simp [value]
  | case5 x x' y y' pending ih =>
    obtain ⟨⟨⟨hx, hx'⟩, hy, hy'⟩, hpending⟩ := List.forall_mem_cons.mp stands
    have hparts : ∀ pair ∈ (x, y) :: (x', y') :: pending,
        pair.1.StandsIn memory ∧ pair.2.StandsIn memory :=
      List.forall_mem_cons.mpr ⟨⟨hx, hy⟩, List.forall_mem_cons.mpr ⟨⟨hx', hy'⟩, hpending⟩⟩
    simp [ih hparts, value, and_assoc]
  | case6 promise _ promise' _ pending ih =>
    obtain ⟨-, hpending⟩ := List.forall_mem_cons.mp stands
    simp [ih hpending, value]
  | case7 k l pending ih =>
    obtain ⟨-, hpending⟩ := List.forall_mem_cons.mp stands
    simp [ih hpending, value, same_continuation_iff]
  | case8 pair pending notPrimitives notK1 notS1 notS2 notPromises notContinuations =>
    refine iff_of_false Bool.false_ne_true fun h => ?_
    obtain ⟨a, b⟩ := pair
    have hsame : a.value.Same b.value := h _ List.mem_cons_self
    -- Values that are the same are built in the same way, which an earlier case has ruled out.
    cases a <;> cases b <;> first
      | exact notPrimitives _ _ rfl
      | exact notK1 _ _ _ _ rfl
      | exact notS1 _ _ _ _ rfl
      | exact notS2 _ _ _ _ rfl
      | exact notPromises _ _ _ _ rfl
      | exact notContinuations _ _ rfl
      | cases hsame

/-- What stands in a memory already has what the memory holds. -/
theorem StandsIn.restore_value {a : Stored} (ha : a.StandsIn memory) :
    memory.restore a.value = a.value := by
  induction a with
  | primitive p => rfl
  | k1 n x ih => rw [value, Memory.restore, ih ha.2]
  | s1 n x ih => rw [value, Memory.restore, ih ha.2]
  | s2 x y ihx ihy => rw [value, Memory.restore, ihx ha.1, ihy ha.2]
  | delayed promise body => rw [value, Memory.restore, ha]
  | continuation k =>
    rw [value, Memory.restore]
    cases hk : k.link? with
    | none => rw [Continuation.link?_eq_none_iff.mp hk]; rfl
    | some link => rw [Option.map_some, Option.getD_some, ha link hk]

/-- **In one memory, what is the same is equal:** a promise has one body, and a link lies on one
chain. -/
theorem value_eq_of_same {a b : Stored} (ha : a.StandsIn memory) (hb : b.StandsIn memory)
    (h : a.value.Same b.value) : a.value = b.value := by
  -- Both have been restored already, and what is restored does not depend on what may differ.
  rw [← ha.restore_value, h.restore_eq memory, hb.restore_value]

/-- One pair that is compared in a memory. -/
theorem sameAll_singleton_iff {a b : Stored} (ha : a.StandsIn memory) (hb : b.StandsIn memory) :
    sameAll [(a, b)] = true ↔ a.value.Same b.value :=
  (sameAll_eq_true_iff (List.forall_mem_singleton.mpr ⟨ha, hb⟩)).trans List.forall_mem_singleton

end Stored

/-- **Comparing the values of a memory.** The loop tells sameness as it is defined by recursion,
and this is reflexive, symmetric and transitive.

* The answer is the one without any node that is recognised, and the one with any parts that are
  known to be shared.
* Values that are the same have the same text.
* Where neither a promise nor a captured continuation occurs, values are the same if and only if
  they have the same text. -/
theorem comparison_in_memory (memory : Memory) :
    Equivalence (fun a b : {a : Stored // a.StandsIn memory} =>
      Stored.sameAll [(a.1, b.1)] = true) ∧
    ∀ a b : Stored, a.StandsIn memory → b.StandsIn memory →
      (Stored.sameAll [(a, b)] = true ↔ a.value.Same b.value) ∧
      Stored.sameAll [(a, b)] = a.value.same b.value ∧
      (∀ shared : Value → Value → Bool, (∀ x y, shared x y = true → x = y) →
        sameAll shared [(a.value, b.value)] = a.value.same b.value) ∧
      (Stored.sameAll [(a, b)] = true → a.value.text = b.value.text) ∧
      (a.value.Explicit → b.value.Explicit →
        (Stored.sameAll [(a, b)] = true ↔ a.value.text = b.value.text)) := by
  have hloop {a b : Stored} := @Stored.sameAll_singleton_iff memory a b
  have hshared {shared : Value → Value → Bool} (sound : ∀ x y, shared x y = true → x = y)
      (v w : Value) : sameAll shared [(v, w)] = true ↔ v.Same w :=
    (sameAll_eq_true_iff sound _).trans List.forall_mem_singleton
  have hsame : ∀ v w : Value, v.same w = true ↔ v.Same w :=
    hshared fun _ _ h => absurd h Bool.false_ne_true
  refine ⟨?_, fun a b ha hb => ?_⟩
  · have hrelation : (fun a b : {a : Stored // a.StandsIn memory} =>
        Stored.sameAll [(a.1, b.1)] = true) = fun a b => a.1.value.Same b.1.value := by
      funext a b
      exact propext (hloop a.2 b.2)
    rw [hrelation]
    exact Same.equivalence.comap fun a : {a : Stored // a.StandsIn memory} => a.1.value
  have htext (h : Stored.sameAll [(a, b)] = true) : a.value.text = b.value.text :=
    congrArg text (Stored.value_eq_of_same ha hb ((hloop ha hb).mp h))
  refine ⟨hloop ha hb, ?_, fun shared sound => ?_, htext, fun hea heb => ⟨htext, fun h => ?_⟩⟩
  · rw [Bool.eq_iff_iff, hloop ha hb, hsame]
  · rw [Bool.eq_iff_iff, hshared sound, hsame]
  · have hvalue : a.value = b.value := (hea.text_inj heb).mp h
    exact (hloop ha hb).mpr (hvalue ▸ .refl _)

/-- Two functions share the node of one argument, but not the one of the other. Each node holds
the sign that prints a backquote, and all these signs are known to be shared. -/
theorem shared_argument_is_passed_over :
    let p : Primitive := .print '\x60'
    let sign : Stored := .primitive p
    let memory : Memory := ⟨fun _ => sign.value, fun _ => default, fun _ => .done⟩
    let shared : Value → Value → Bool := fun v w => v.isPrimitive p && w.isPrimitive p
    let a : Stored := .s2 (.k1 0 sign) (.s1 1 sign)
    let b : Stored := .s2 (.k1 0 sign) (.s1 2 sign)
    (∀ v w, shared v w = true → v = w) ∧ a.StandsIn memory ∧ b.StandsIn memory ∧
      a.value.Explicit ∧ b.value.Explicit ∧ Stored.sameAll [(a, b)] = true ∧
      sameAll shared [(a.value, b.value)] = a.value.same b.value ∧
      a.value.text = b.value.text := by
  intro p sign memory shared a b
  have sound : ∀ v w, shared v w = true → v = w := by
    intro v w h
    obtain ⟨hv, hw⟩ := Bool.and_eq_true_iff.mp h
    exact (isPrimitive_eq_true_iff.mp hv).trans (isPrimitive_eq_true_iff.mp hw).symm
  have ha : a.StandsIn memory := ⟨⟨rfl, trivial⟩, rfl, trivial⟩
  have hb : b.StandsIn memory := ⟨⟨rfl, trivial⟩, rfl, trivial⟩
  have hexplicit : a.value.Explicit := by simp [a, sign, Stored.value]
  obtain ⟨-, -, hshared, htext, hexact⟩ := (comparison_in_memory memory).2 a b ha hb
  have hsame : Stored.sameAll [(a, b)] = true := (hexact hexplicit hexplicit).mpr rfl
  exact ⟨sound, ha, hb, hexplicit, hexplicit, hsame, hshared shared sound, htext hsame⟩

end Value

end Unlambda
