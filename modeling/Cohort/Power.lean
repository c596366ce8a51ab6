/-!
# Powers of two and of ten

Powers of two bound the numbers of so many bits, and powers of ten move the decimal
point.

## Main definitions

* `twoTo`, `tenTo` — the powers
* `isUnsigned`, `isSigned64` — the numbers that fit into so many bits
-/

namespace Cohort

/-- A power of two. -/
def twoTo (n : Nat) : Nat := Nat.pow 2 n

/-- A power of ten. -/
def tenTo (n : Nat) : Nat := Nat.pow 10 n

/-- The number fits into so many bits. -/
def isUnsigned (bits n : Nat) : Bool := decide (n < twoTo bits)

/-- The integer fits into 64 bits, one of which is the sign. -/
def isSigned64 (i : Int) : Bool :=
  decide (-(twoTo 63 : Int) ≤ i) && decide (i < (twoTo 63 : Int))

end Cohort
