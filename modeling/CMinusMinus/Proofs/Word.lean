/-!
# Words

A word has 32 bits.  Programs compute with words and print words and texts; what they print and
the words of the input that they take are the events of a run.  Addresses are words as well;
`toNat_add_ofInt` says what an address at a distance from another is, as long as it does not wrap
around.
-/

namespace CMinusMinus

/-- A word of the machine. -/
abbrev Word := BitVec 32

/-- What an expression is worth and what a program prints. -/
inductive Value where
  | word (w : Word)
  /-- A text with its escapes as they were written. -/
  | text (s : String)
  deriving DecidableEq, Repr

/-- What can be seen of a run. -/
inductive Event where
  | printed (v : Value)
  /-- A word of the input was read. -/
  | taken (w : Word)
  deriving DecidableEq, Repr

namespace Word

/-- The truth value of a condition. -/
def ofBool (b : Bool) : Word := if b then 1 else 0

/-- The condition that a word is the truth value of, if it is one. -/
def truth? (w : Word) : Option Bool :=
  if w = 0 then some false else if w = 1 then some true else none

theorem toNat_add_ofInt {w : Word} {z : Int} (hlow : 0 ≤ w.toNat + z)
    (hhigh : w.toNat + z < 4294967296) : (w + BitVec.ofInt 32 z).toNat = (w.toNat + z).toNat := by
  rw [BitVec.toNat_add, BitVec.toNat_ofInt]
  omega

theorem toNat_sub_ofInt {w : Word} {n : Nat} (h : n ≤ w.toNat) :
    (w - BitVec.ofInt 32 n).toNat = w.toNat - n := by
  have hw := w.isLt
  rw [BitVec.toNat_sub, BitVec.toNat_ofInt]
  omega

end Word

end CMinusMinus
