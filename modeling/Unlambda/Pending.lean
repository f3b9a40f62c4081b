/-!
# Pending items

Expressions, values and terms nest without a bound. What is to be done for all parts of one is
done by a loop over a list of items that are still to be visited. Such a loop ends because the
items are measured, and each pass puts smaller ones in the place of the first one. Loops that
compare two trees keep pairs of items, and need not visit a pair that is known to be alike.

## Main definitions

* `Unlambda.pendingSum`: the sum of a measure over the pending items
* `Unlambda.compareUnless`: adds a pair to the pending ones unless nothing is to be compared

## Main results

* `Unlambda.pendingSum_compareUnless_le`, `Unlambda.pendingSum_compareUnless_lt`: how much such a
  pair can add
* `Unlambda.forall_mem_compareUnless_iff`: what holds of all pending pairs does not depend on
  the pairs that are left out
-/

namespace Unlambda

variable {α : Type} {measure : α → Nat} {known : Bool} {a b : α} {pending : List (α × α)}

/-- The sum of a measure over the pending items. -/
def pendingSum (measure : α → Nat) (pending : List α) : Nat :=
  pending.foldr (fun item total => measure item + total) 0

@[simp] theorem pendingSum_nil : pendingSum measure [] = 0 := rfl

@[simp] theorem pendingSum_cons (item : α) (pending : List α) :
    pendingSum measure (item :: pending) = measure item + pendingSum measure pending := rfl

@[simp] theorem pendingSum_append (pending pending' : List α) :
    pendingSum measure (pending ++ pending') =
      pendingSum measure pending + pendingSum measure pending' := by
  induction pending with
  | nil => simp
  | cons item pending ih => simp [ih, Nat.add_assoc]

/-- Adds a pair to the pending ones unless its members are known to be alike. -/
def compareUnless (known : Bool) (a b : α) (pending : List (α × α)) : List (α × α) :=
  if known then pending else (a, b) :: pending

theorem pendingSum_compareUnless_le (measure : α → Nat) (known : Bool) (a b : α)
    (pending : List (α × α)) :
    pendingSum (fun pair => measure pair.1) (compareUnless known a b pending) ≤
      measure a + pendingSum (fun pair => measure pair.1) pending := by
  cases known <;> simp [compareUnless]

/-- A pair that takes the place of a larger one, if it is added at all, leaves less to do. -/
theorem pendingSum_compareUnless_lt (measure : α → Nat) {pair : α × α}
    (h : measure a < measure pair.1) :
    pendingSum (fun pair => measure pair.1) (compareUnless known a b pending) <
      pendingSum (fun pair => measure pair.1) (pair :: pending) := by
  rw [pendingSum_cons]
  exact Nat.lt_of_le_of_lt (pendingSum_compareUnless_le measure known a b pending)
    (Nat.add_lt_add_right h _)

theorem forall_mem_compareUnless {P : α × α → Prop} (hpair : P (a, b))
    (hpending : ∀ pair ∈ pending, P pair) : ∀ pair ∈ compareUnless known a b pending, P pair := by
  cases known with
  | true => exact hpending
  | false => exact List.forall_mem_cons.mpr ⟨hpair, hpending⟩

/-- It makes no difference that a pair is left out if it is related anyway. -/
theorem forall_mem_compareUnless_iff (R : α → α → Prop) {known : Bool} {a b : α}
    {pending : List (α × α)} (hknown : known = true → R a b) :
    (∀ pair ∈ compareUnless known a b pending, R pair.1 pair.2) ↔
      R a b ∧ ∀ pair ∈ pending, R pair.1 pair.2 := by
  cases known with
  | true => exact (and_iff_right (hknown rfl)).symm
  | false => exact List.forall_mem_cons

end Unlambda
