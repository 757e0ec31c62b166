/-!
# Sets of code points

A property of characters is a list of closed ranges of code points, in increasing order and
without overlap.  Membership is a search of the list, so a statement about a property is a
statement about its ranges: two lists with no common range have no common character.
-/

namespace CMinusMinus.Text

/-- A set of code points as closed ranges `(first, last)`. -/
abbrev Ranges := List (Nat × Nat)

namespace Ranges

/-- A code point belongs to the set when one of the ranges encloses it. -/
def contains (rs : Ranges) (n : Nat) : Bool :=
  rs.any fun r => decide (r.1 ≤ n) && decide (n ≤ r.2)

theorem contains_nil (n : Nat) : contains [] n = false := rfl

theorem contains_cons (r : Nat × Nat) (rs : Ranges) (n : Nat) :
    contains (r :: rs) n = ((decide (r.1 ≤ n) && decide (n ≤ r.2)) || contains rs n) := rfl

theorem contains_iff {rs : Ranges} {n : Nat} :
    contains rs n = true ↔ ∃ r ∈ rs, r.1 ≤ n ∧ n ≤ r.2 := by
  simp [contains, List.any_eq_true]

end Ranges

end CMinusMinus.Text
