import Mathlib

/-!
# Whole numbers in a `float64`

The sum of two whole numbers that are not negative, as `float64` computes it: the exact
sum is rounded to the nearest number with a significand of 53 bits, a tie to the even
one (`roundWhole`).  Sums beyond the largest `float64` are out of scope.

`toNat_increments`: a number that is only ever incremented counts up to 2⁵³ and stays
there.
-/

namespace SharkSocket.Lib

/-- The largest number up to which every whole number is a `float64`. -/
def wholeLimit : Nat := 9007199254740992

def roundWhole (n : Nat) : Nat :=
  if n < wholeLimit then n
  else
    let unit := 2 ^ (n.log2 - 52)
    let below := n / unit
    let up := unit < 2 * (n % unit) ∨ (unit = 2 * (n % unit) ∧ below % 2 = 1)
    (if up then below + 1 else below) * unit

@[ext] structure WholeFloat where
  toNat : Nat
  deriving DecidableEq, Repr

namespace WholeFloat

instance : Zero WholeFloat := ⟨⟨0⟩⟩
instance : One WholeFloat := ⟨⟨1⟩⟩
instance : Add WholeFloat := ⟨fun a b => ⟨roundWhole (a.toNat + b.toNat)⟩⟩

theorem roundWhole_of_le {n : Nat} (h : n ≤ wholeLimit) : roundWhole n = n := by
  rcases Nat.lt_or_eq_of_le h with hlt | rfl
  · rw [roundWhole, if_pos hlt]
  · decide

/-- The sum is half way between two numbers, and the even one is the old value. -/
theorem roundWhole_wholeLimit_succ : roundWhole (wholeLimit + 1) = wholeLimit := by
  decide

theorem toNat_add_one (v : WholeFloat) (h : v.toNat ≤ wholeLimit) :
    (v + 1).toNat = min (v.toNat + 1) wholeLimit := by
  show roundWhole (v.toNat + 1) = _
  rcases Nat.lt_or_eq_of_le h with hlt | heq
  · rw [roundWhole_of_le hlt, Nat.min_eq_left hlt]
  · rw [heq, roundWhole_wholeLimit_succ, Nat.min_eq_right (Nat.le_succ _)]

theorem toNat_increments (n : Nat) : ((· + 1)^[n] (0 : WholeFloat)).toNat = min n wholeLimit := by
  induction n with
  | zero => rfl
  | succ n ih =>
    have hle : ((· + 1)^[n] (0 : WholeFloat)).toNat ≤ wholeLimit := by
      rw [ih]
      exact Nat.min_le_right _ _
    rw [Function.iterate_succ_apply', toNat_add_one _ hle]
    omega

end WholeFloat

end SharkSocket.Lib
