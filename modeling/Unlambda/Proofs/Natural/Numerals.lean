import Unlambda.Proofs.Expression.RoundTrip
import Unlambda.Proofs.Natural.Machine

/-!
# Church numerals

The number `n` can be written as a function that takes another function and returns one that does
the same `n` times over. Zero is ` `ki `, and there are texts for the successor of a number and
for the product of two numbers. Functions are called by value here, so a numeral is more than an
equation: when it is applied to a function, it builds another function at once and without any
effect, and the effects come later, when that one is applied, in their order.

What a function does is a matter of the natural semantics. It may read and write, as long as it
returns. Only `d` cannot be repeated: it is no function like the others as an operator.

## Main definitions

* `Unlambda.Numeral`: numbers, as they are built
* `Unlambda.Numeral.number`, `Unlambda.Numeral.source`: the number and the text of a numeral
* `Unlambda.Natural.Iterated`: a function applied so many times over
* `Unlambda.Natural.Repeats`: a function that does what another one does so many times over
* `Unlambda.Natural.Counts`: a value that behaves like a number

## Main results

* `Unlambda.Natural.counts_zero`, `Unlambda.Natural.Counts.succ`, `Unlambda.Natural.Counts.times`:
  how numbers are built
* `Unlambda.Numeral.counts_value`: numerals behave like numbers
* `Unlambda.Machine.numerals_count`: numerals that print, and numerals that build a value
-/

namespace Unlambda

namespace Natural

/-! ### Functions that are repeated -/

/-- `Iterated f n x io y io'`: when `f` is applied to `x`, then to the value of that, and so on,
`n` times over, the last value is `y`. Meanwhile the console changes from `io` to `io'`. -/
inductive Iterated (f : Value) : Nat → Value → Console → Value → Console → Prop
  | none (x : Value) (io : Console) : Iterated f 0 x io x io
  | more {n : Nat} {x y z : Value} {io io₁ io' : Console} (before : Iterated f n x io y io₁)
      (last : Yields (.apply f y) io₁ (.value z) io') : Iterated f (n + 1) x io z io'

/-- To apply `g` is to apply `f` so many times over. -/
structure Repeats (n : Nat) (f g : Value) : Prop where
  ne_d : g ≠ .primitive .d
  apply : ∀ {x y io io'}, Iterated f n x io y io' → Yields (.apply g x) io (.value y) io'

/-- **A value behaves like the number `n`** if it turns each function into one that repeats it `n`
times over, and has no other effect. -/
structure Counts (n : Nat) (v : Value) : Prop where
  ne_d : v ≠ .primitive .d
  repeats : ∀ {f}, f ≠ .primitive .d →
    ∃ g, Repeats n f g ∧ ∀ io, Yields (.apply v f) io (.value g) io

variable {f g v w x y z : Value} {io io₁ io₂ io' : Console} {r : Result} {m n : Nat}

theorem Iterated.split (h : Iterated f (m + n) x io z io') :
    ∃ y io₁, Iterated f m x io y io₁ ∧ Iterated f n y io₁ z io' := by
  -- Induction on the second part, which the last application belongs to.
  induction n generalizing z io' with
  | zero => exact ⟨z, io', h, .none z io'⟩
  | succ n ih =>
    cases h with
    | more before last =>
      obtain ⟨y, io₁, hfirst, hsecond⟩ := ih before
      exact ⟨y, io₁, hfirst, .more hsecond last⟩

/-- What is done `m * n` times over is `m` times what is done `n` times over. -/
theorem Iterated.of_repeats (h : Iterated f (m * n) x io y io') (hg : Repeats n f g) :
    Iterated g m x io y io' := by
  induction m generalizing y io' with
  | zero =>
    rw [Nat.zero_mul] at h
    cases h
    exact .none x io
  | succ m ih =>
    rw [Nat.succ_mul] at h
    obtain ⟨middle, io₁, hfirst, hlast⟩ := h.split
    exact .more (ih hfirst) (hg.apply hlast)

/-! ### Calls -/

theorem Yields.applyValues (hf : f ≠ .primitive .d) (h : Yields (.apply f x) io r io') :
    Yields (.evaluate (.applyValues f x)) io r io' :=
  .application (.made _ _) (.value f io) hf (.value x io) h

/-- An `s` with two arguments hands the third one to both of them, and applies what the first one
returns to what the second one returns. -/
theorem Yields.distribute (hv : v ≠ .primitive .d) (hw : w ≠ .primitive .d)
    (first : Yields (.apply v x) io (.value g) io₁) (hg : g ≠ .primitive .d)
    (second : Yields (.apply w x) io₁ (.value y) io₂) (call : Yields (.apply g y) io₂ r io') :
    Yields (.apply (.s2 v w) x) io r io' :=
  .s2 (.application (.made _ _) (.applyValues hv first) hg (.applyValues hw second) call)

/-- A written application: the operator and the operand are evaluated in this order. -/
theorem Yields.written {a b : Expression} (hf : f ≠ .primitive .d)
    (operator : Yields (.evaluate (.source a)) io (.value f) io₁)
    (operand : Yields (.evaluate (.source b)) io₁ (.value x) io₂)
    (call : Yields (.apply f x) io₂ r io') :
    Yields (.evaluate (.source (.application a b))) io r io' :=
  .application (.written a b) operator hf operand call

theorem Yields.written_k {a : Expression} (h : Yields (.evaluate (.source a)) io (.value x) io') :
    Yields (.evaluate (.source (.application (.primitive .k) a))) io (.value (.k1 x)) io' :=
  .written (by simp) (.primitive .k io) h (.k x io')

theorem Yields.written_s {a b : Expression}
    (first : Yields (.evaluate (.source a)) io (.value x) io₁)
    (second : Yields (.evaluate (.source b)) io₁ (.value y) io') :
    Yields (.evaluate (.source (.application (.application (.primitive .s) a) b))) io
      (.value (.s2 x y)) io' :=
  .written (by simp) (.written (by simp) (.primitive .s io) first (.s x io₁)) second
    (.s1 x y io')

/-! ### Primitives that are repeated -/

theorem iterated_print (c : Char) (n : Nat) (x : Value) (io : Console) :
    Iterated (.primitive (.print c)) n x io x (io.writeAll (List.replicate n c)) := by
  induction n with
  | zero => exact .none x io
  | succ n ih =>
    rw [List.replicate_succ', Console.writeAll_concat]
    exact .more ih (.print c x _)

theorem iterated_k (n : Nat) (x : Value) (io : Console) :
    Iterated (.primitive .k) n x io (x.kChain n) io := by
  induction n with
  | zero => exact .none x io
  | succ n ih =>
    rw [Value.kChain_succ]
    exact .more ih (.k _ io)

/-! ### How numbers are built -/

/-- The value of ` ``s`kfg `, which composes two functions. -/
theorem Yields.compose (hf : f ≠ .primitive .d) (hg : g ≠ .primitive .d)
    (inner : Yields (.apply g x) io (.value y) io₁) (outer : Yields (.apply f y) io₁ r io') :
    Yields (.apply (.s2 (.k1 f) g) x) io r io' :=
  .distribute (by simp) hg (.k1 f x io) hf inner outer

/-- The value of ` `ki ` behaves like zero. -/
theorem counts_zero : Counts 0 (.k1 (.primitive .i)) where
  ne_d := by simp
  repeats {f} hf := by
    refine ⟨.primitive .i, ⟨by simp, fun h => ?_⟩, fun io => .k1 _ f io⟩
    cases h
    exact .i _ _

/-- The value of ` ``s`ksk `, which takes a function and composes what it is applied to with
it. -/
def composer : Value := .s2 (.k1 (.primitive .s)) (.primitive .k)

theorem composer_yields (f : Value) (io : Console) :
    Yields (.apply composer f) io (.value (.s1 (.k1 f))) io :=
  .compose (by simp) (by simp) (.k f io) (.s (.k1 f) io)

/-- **The successor** of a number repeats a function once more. -/
theorem Counts.succ (h : Counts n v) : Counts (n + 1) (.s2 composer v) where
  ne_d := by simp
  repeats {f} hf := by
    obtain ⟨g, hg, hcount⟩ := h.repeats hf
    refine ⟨.s2 (.k1 f) g, ⟨by simp, fun hiterated => ?_⟩, fun io => ?_⟩
    · -- `g` does what comes before the last time, and `f` is left for that.
      cases hiterated with
      | more before last => exact .compose hf hg.ne_d (hg.apply before) last
    · exact .distribute (by simp [composer]) h.ne_d (composer_yields f io) (by simp) (hcount io)
        (.s1 (.k1 f) g io)

/-- **The product** of two numbers repeats the repetition. -/
theorem Counts.times (hv : Counts m v) (hw : Counts n w) : Counts (m * n) (.s2 (.k1 v) w) where
  ne_d := by simp
  repeats {f} hf := by
    -- The second number makes a function of `f`, and the first one repeats this function.
    obtain ⟨h, hh, hinner⟩ := hw.repeats hf
    obtain ⟨g, hg, houter⟩ := hv.repeats hh.ne_d
    exact ⟨g, ⟨hg.ne_d, fun hiterated => hg.apply (hiterated.of_repeats hh)⟩,
      fun io => .compose hv.ne_d hw.ne_d (hinner io) (houter io)⟩

end Natural

/-! ### Numerals -/

/-- A number, as it is built. -/
inductive Numeral
  | zero
  | succ (a : Numeral)
  | times (a b : Numeral)

namespace Numeral

open Natural

/-- The number that a numeral stands for. -/
def number : Numeral → Nat
  | zero => 0
  | succ a => a.number + 1
  | times a b => a.number * b.number

/-- The text of a numeral. -/
def source : Numeral → List Char
  | zero => "`ki".toList
  | succ a => "`".toList ++ "`s``s`ksk".toList ++ a.source
  | times a b => "``s`k".toList ++ a.source ++ b.source

/-- A numeral as a program. -/
def expression : Numeral → Expression
  | zero => .application (.primitive .k) (.primitive .i)
  | succ a =>
    .application
      (.application (.primitive .s)
        (.application
          (.application (.primitive .s) (.application (.primitive .k) (.primitive .s)))
          (.primitive .k)))
      a.expression
  | times a b =>
    .application (.application (.primitive .s) (.application (.primitive .k) a.expression))
      b.expression

/-- The value of a numeral. -/
def value : Numeral → Value
  | zero => .k1 (.primitive .i)
  | succ a => .s2 composer a.value
  | times a b => .s2 (.k1 a.value) b.value

theorem spelling_expression (a : Numeral) : a.expression.spelling = a.source := by
  induction a with
  | zero => rfl
  | succ a ih =>
    calc (succ a).expression.spelling
      _ = "``s``s`ksk".toList ++ a.expression.spelling := by
          simp [expression, Expression.spelling, Primitive.spelling]
      _ = (succ a).source := by rw [ih]; rfl
  | times a b iha ihb =>
    calc (times a b).expression.spelling
      _ = "``s`k".toList ++ a.expression.spelling ++ b.expression.spelling := by
          simp [expression, Expression.spelling, Primitive.spelling]
      _ = (times a b).source := by rw [iha, ihb]; rfl

theorem carried_expression (a : Numeral) : a.expression.carried = [] := by
  induction a with
  | zero => rfl
  | succ a ih => simp [expression, Expression.carried, Primitive.carried, ih]
  | times a b iha ihb => simp [expression, Expression.carried, Primitive.carried, iha, ihb]

/-- **Numerals behave like numbers.** -/
theorem counts_value (a : Numeral) : Counts a.number a.value := by
  induction a with
  | zero => exact counts_zero
  | succ a ih => exact ih.succ
  | times a b iha ihb => exact iha.times ihb

/-- The evaluation of a numeral has no effect. -/
theorem yields_expression (a : Numeral) (io : Console) :
    Yields (.evaluate (.source a.expression)) io (.value a.value) io := by
  induction a with
  | zero => exact .written_k (.primitive .i io)
  | succ a ih =>
    have hcomposer := Yields.written_s (.written_k (.primitive .s io)) (.primitive .k io)
    exact .written_s hcomposer ih
  | times a b iha ihb => exact .written_s (.written_k iha) ihb

/-- A program that applies a numeral to a primitive, and what this returns to another one, applies
the first to the second so many times over. -/
theorem yields_applied (a : Numeral) {p q : Primitive} {y : Value} {io io' : Console}
    (hp : p ≠ .d) (h : Iterated (.primitive p) a.number (.primitive q) io y io') :
    Yields (.evaluate (.source
      (.application (.application a.expression (.primitive p)) (.primitive q)))) io
      (.value y) io' := by
  obtain ⟨g, hg, hcount⟩ := a.counts_value.repeats (f := .primitive p) (by simpa using hp)
  have hoperator : Yields (.evaluate (.source (.application a.expression (.primitive p)))) io
      (.value g) io :=
    .written a.counts_value.ne_d (a.yields_expression io) (.primitive p io) (hcount io)
  exact .written hg.ne_d hoperator (.primitive q io) (hg.apply h)

end Numeral

/-! ### Programs -/

namespace Machine

open Natural

/-- The text of such a program is run to what the first primitive makes of `i`. -/
theorem run_of_iterated (a : Numeral) {p : Primitive} {y : Value} {input : List Char}
    {console : Console} (hp : p ≠ .d) (hchars : ∀ x ∈ p.carried, IsProgramChar x)
    (h : Iterated (.primitive p) a.number (.primitive .i) (.ofInput input) y console) :
    ∃ fuel evaluation,
      run fuel ("``".toList ++ a.source ++ p.spelling ++ "i".toList) input =
        some (.ok evaluation) ∧
      evaluation.result.Alike y ∧ evaluation.console = console ∧ evaluation.exited = false := by
  let e : Expression := .application (.application a.expression (.primitive p)) (.primitive .i)
  have hyields : Yields (.evaluate (.source e)) (.ofInput input) (.ofEnd false y) console :=
    a.yields_applied hp h
  obtain ⟨fuel, evaluation, hevaluate, hexited, halike, hconsole⟩ := evaluate_of_yields hyields
  have hsource : e.spelling = "``".toList ++ a.source ++ p.spelling ++ "i".toList := by
    simp [e, Expression.spelling, a.spelling_expression, Primitive.spelling]
  have hcarried : ∀ x ∈ e.carried, IsProgramChar x := by
    simpa [e, Expression.carried, a.carried_expression, Primitive.carried] using hchars
  refine ⟨fuel, evaluation, run_eq_ok_iff.mpr ⟨e, ?_, hevaluate⟩, halike, hconsole, hexited⟩
  rw [← hsource, Expression.parse_spelling hcarried]

/-- **Numerals count.** Applied to a printing function and to `i`, a numeral prints so many
characters, leaves the input alone and comes to `i`. Applied to `k` and to `i`, it writes nothing
and builds a value in which `i` stands under so many times `k`. -/
theorem numerals_count (a : Numeral) (x : Char) (hx : IsProgramChar x) (input : List Char) :
    (∃ fuel evaluation,
      run fuel ("``".toList ++ a.source ++ ['.', x] ++ "i".toList) input =
        some (.ok evaluation) ∧
      evaluation.console.output = List.replicate a.number x ∧
      evaluation.result = .primitive .i ∧ evaluation.console.unread = input ∧
      evaluation.exited = false) ∧
    ∃ fuel evaluation,
      run fuel ("``".toList ++ a.source ++ "ki".toList) input = some (.ok evaluation) ∧
      evaluation.console.output = [] ∧
      evaluation.result.text.toList =
        (List.replicate a.number "`k".toList).flatten ++ "i".toList ∧
      evaluation.console.unread = input ∧ evaluation.exited = false := by
  constructor
  · obtain ⟨fuel, evaluation, hrun, halike, hconsole, hexited⟩ :=
      run_of_iterated a (p := .print x) (by simp)
        (by simpa [Primitive.carried] using hx) (iterated_print x a.number _ (.ofInput input))
    refine ⟨fuel, evaluation, hrun, ?_, Value.alike_primitive_iff.mp halike, ?_, hexited⟩
    · rw [hconsole, Console.output_writeAll, Console.output_ofInput, List.nil_append]
    · rw [hconsole, Console.unread_writeAll]
      rfl
  · obtain ⟨fuel, evaluation, hrun, halike, hconsole, hexited⟩ :=
      run_of_iterated a (p := .k) (by simp) (by simp [Primitive.carried])
        (iterated_k a.number _ (.ofInput input))
    rw [List.append_assoc] at hrun
    refine ⟨fuel, evaluation, hrun, ?_, ?_, ?_, hexited⟩
    · rw [hconsole, Console.output_ofInput]
    · rw [Value.alike_kChain_iff.mp halike, Value.toList_text, Value.spelling_kChain]
      rfl
    · rw [hconsole]
      rfl

/-- Twice three is six, and the character that is printed looks like the start of a comment. -/
theorem six_signs_are_printed :
    IsProgramChar '#' ∧ ∃ fuel evaluation,
      run fuel
        "````s`k``s``s`ksk``s``s`ksk`ki``s``s`ksk``s``s`ksk``s``s`ksk`ki.#i".toList "in".toList =
        some (.ok evaluation) ∧
      evaluation.console.output = "######".toList := by
  have hchar : IsProgramChar '#' := by decide
  obtain ⟨⟨fuel, evaluation, hrun, houtput, -⟩, -⟩ :=
    numerals_count (.times (.succ (.succ .zero)) (.succ (.succ (.succ .zero)))) '#' hchar
      "in".toList
  exact ⟨hchar, fuel, evaluation, hrun, houtput⟩

end Machine

end Unlambda
