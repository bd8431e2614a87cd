/-!
# Sets of characters

A `CharSet` is a table of disjoint code point ranges in increasing order.
-/

namespace ScriptBridge

/-- Code point ranges, both ends included. -/
abbrev CharSet := Array (Nat × Nat)

/-- Whether some range of the table holds the character. -/
def CharSet.contains (s : CharSet) (c : Char) : Bool :=
  s.any fun (lo, hi) => lo ≤ c.toNat && c.toNat ≤ hi

end ScriptBridge
