import Mathlib

/-!
# Buckets with ascending bounds

A ladder of bounds divides a linear order into buckets; a value belongs to the first bucket
whose bound it does not exceed.  `place` counts one more value in its bucket, over any type
of counters, and `tally` is what the counters hold after a list of values.

* `place_tally`: the counters of a list of values, one value later;
* `partialSums_tally`: the counters up to a bound add up to the number of values that do not
  exceed it, if the bounds ascend;
* `countP_le_countP`: these numbers ascend with the bounds.
-/

namespace SharkSocket.Lib

variable {V C : Type*} [LinearOrder V]

/-- The first bucket with a bound that `v` does not exceed is changed by `add`. -/
def place (add : C → C) : List V → List C → V → List C
  | bound :: bounds, n :: counts, v =>
    if v ≤ bound then add n :: counts else n :: place add bounds counts v
  | _, counts, _ => counts

/-- The number of values of each bucket, as a counter. -/
def tally (of : ℕ → C) : List V → List V → List C
  | [], _ => []
  | bound :: bounds, values =>
    of (values.countP (· ≤ bound)) :: tally of bounds (values.filter (¬ · ≤ bound))

def partialSums [Add C] : C → List C → List C
  | _, [] => []
  | sum, n :: counts => (sum + n) :: partialSums (sum + n) counts

variable {of : ℕ → C}

theorem tally_nil (bounds : List V) : tally of bounds [] = List.replicate bounds.length (of 0) := by
  induction bounds with
  | nil => rfl
  | cons bound bounds ih =>
    rw [tally, List.filter_nil, ih, List.countP_nil, List.length_cons, List.replicate_succ]

theorem place_tally {add : C → C} (hadd : ∀ n, add (of n) = of (n + 1)) (bounds values : List V)
    (v : V) : place add bounds (tally of bounds values) v = tally of bounds (values ++ [v]) := by
  induction bounds generalizing values with
  | nil => rfl
  | cons bound bounds ih =>
    rw [tally, place, tally, List.countP_append, List.filter_append]
    split
    · rename_i hle
      rw [List.countP_singleton, List.filter_cons_of_neg (by simpa using hle), List.filter_nil,
        List.append_nil, if_pos (by simpa using hle), hadd]
    rename_i hgt
    rw [List.countP_singleton, List.filter_cons_of_pos (by simpa using hgt), List.filter_nil,
      ih, if_neg (by simpa using hgt), Nat.add_zero]

/-- The values up to a bound and those between it and a larger one. -/
theorem countP_add_countP_filter {bound bound' : V} (h : bound ≤ bound') (values : List V) :
    values.countP (· ≤ bound) + (values.filter (¬ · ≤ bound)).countP (· ≤ bound') =
      values.countP (· ≤ bound') := by
  induction values with
  | nil => rfl
  | cons v values ih =>
    by_cases hle : v ≤ bound
    · have hle' : v ≤ bound' := hle.trans h
      rw [List.countP_cons_of_pos (by simpa using hle),
        List.filter_cons_of_neg (by simpa using hle),
        List.countP_cons_of_pos (by simpa using hle')]
      omega
    rw [List.countP_cons_of_neg (by simpa using hle),
      List.filter_cons_of_pos (by simpa using hle), List.countP_cons, List.countP_cons]
    omega

theorem partialSums_tally [Add C] (hadd : ∀ m n, of m + of n = of (m + n)) {bounds : List V}
    (hbounds : bounds.Pairwise (· ≤ ·)) (k : ℕ) (values : List V) :
    partialSums (of k) (tally of bounds values) =
      bounds.map fun bound => of (k + values.countP (· ≤ bound)) := by
  induction bounds generalizing k values with
  | nil => rfl
  | cons bound bounds ih =>
    rw [List.pairwise_cons] at hbounds
    rw [tally, partialSums, hadd, ih hbounds.2]
    refine congrArg _ (List.map_congr_left fun bound' hb => ?_)
    rw [Nat.add_assoc, countP_add_countP_filter (hbounds.1 bound' hb)]

theorem countP_le_countP {bound bound' : V} (h : bound ≤ bound') (values : List V) :
    values.countP (· ≤ bound) ≤ values.countP (· ≤ bound') := by
  have hsum := countP_add_countP_filter h values
  omega

end SharkSocket.Lib
