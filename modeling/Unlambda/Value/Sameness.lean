import Unlambda.Value.Spelling

/-!
# Sameness of values

Two values are the same if they are built in the same way from the same primitives, except
that a promise is the same only as itself and a captured continuation only as the same chain.
Both are recognised by their serials.

## Main definitions

* `Unlambda.Value.sameAll`: whether the members of each pending pair are the same, by a loop
  that runs in constant stack space
* `Unlambda.Value.same`: whether two values are the same
-/

namespace Unlambda.Value

/-- Whether the members of each pending pair are the same. The argument of a waiting `k` or
`s` is not visited if `shared` answers yes for it. -/
def sameAll (shared : Value → Value → Bool) : List (Value × Value) → Bool
  | [] => true
  | (primitive p, primitive q) :: pending => p == q && sameAll shared pending
  | (k1 a, k1 b) :: pending => sameAll shared (compareUnless (shared a b) a b pending)
  | (s1 a, s1 b) :: pending => sameAll shared (compareUnless (shared a b) a b pending)
  | (s2 a a', s2 b b') :: pending => sameAll shared ((a, b) :: (a', b') :: pending)
  | (delayed a _, delayed b _) :: pending => a == b && sameAll shared pending
  | (continuation k, continuation l) :: pending => k.sameChain l && sameAll shared pending
  | _ :: _ => false
termination_by pending => pendingSum (fun pair => pair.1.nodes) pending
decreasing_by
  · simp [nodes]
  · exact pendingSum_compareUnless_lt nodes (by simp [nodes])
  · exact pendingSum_compareUnless_lt nodes (by simp [nodes])
  · simp only [pendingSum_cons, nodes]
    omega
  · simp [nodes]
  · simp [nodes]

/-- Whether two values are the same. -/
def same (a b : Value) : Bool := sameAll (fun _ _ => false) [(a, b)]

end Unlambda.Value
