import Mathlib

/-!
# A sliding window over a history

A limiter that passes at most `n` events in any window of length `w` only has to
remember the recent ones.  It keeps a list of stamps, cut at its front whenever it
is looked at, and the cuts may be made at different times and by different parts
of a program.

`Windowed n w clock passed stamps` relates the stamps to the full history of what
was passed: they are the part of it since some moment that is at least `w` ago.
Its rules are

* `Windowed.later`, `Windowed.prune`: time goes by, and old stamps are dropped;
* `Windowed.length_dropWhile`: what is left after dropping is the window;
* `Windowed.pass`: another event is passed when the window holds fewer than `n`.
-/

namespace SharkSocket.Lib

section

variable {α : Type*} [LinearOrder α]

/-- In a sorted list the entries below a bound come first. -/
theorem dropWhile_lt_eq_filter {l : List α} (h : l.Pairwise (· ≤ ·)) (c : α) :
    l.dropWhile (· < c) = l.filter (c ≤ ·) := by
  induction l with
  | nil => rfl
  | cons a l ih =>
    rw [List.pairwise_cons] at h
    by_cases ha : a < c
    · rw [List.dropWhile_cons_of_pos (by simpa using ha), ih h.2,
        List.filter_cons_of_neg (by simpa using ha)]
    have hall : ∀ b ∈ a :: l, c ≤ b := by
      intro b hb
      rcases List.mem_cons.mp hb with rfl | hb
      · exact not_lt.mp ha
      · exact (not_lt.mp ha).trans (h.1 b hb)
    rw [List.dropWhile_cons_of_neg (by simpa using ha),
      List.filter_eq_self.mpr (by simpa using hall)]

/-- How many of the moments lie in the closed interval. -/
def countIn (a b : α) (l : List α) : Nat := l.countP fun t => a ≤ t ∧ t ≤ b

theorem countIn_concat (a b : α) (l : List α) (t : α) :
    countIn a b (l ++ [t]) = countIn a b l + if a ≤ t ∧ t ≤ b then 1 else 0 := by
  simp [countIn]

/-- A smaller interval holds no more. -/
theorem countIn_le {a b a' b' : α} (l : List α) (h : ∀ t ∈ l, a ≤ t → t ≤ b → a' ≤ t ∧ t ≤ b') :
    countIn a b l ≤ countIn a' b' l := by
  refine List.countP_mono_left fun t ht hin => ?_
  simp only [decide_eq_true_eq] at hin ⊢
  exact h t ht hin.1 hin.2

/-- No moment of the list lies after the last one allowed. -/
theorem countIn_of_past {l : List α} {last s t : α} (h : ∀ x ∈ l, x ≤ last) (ht : last ≤ t) :
    countIn s t l = countIn s last l := by
  apply le_antisymm
  · exact countIn_le l fun x hx hsx _ => ⟨hsx, h x hx⟩
  · exact countIn_le l fun x _ hsx hxl => ⟨hsx, hxl.trans ht⟩

theorem countIn_eq_zero {l : List α} {last s t : α} (h : ∀ x ∈ l, x ≤ last) (hs : last < s) :
    countIn s t l = 0 := by
  rw [countIn, List.countP_eq_zero]
  intro x hx hin
  simp only [decide_eq_true_eq] at hin
  exact absurd (hin.1.trans (h x hx)) (not_le.mpr hs)

end

variable {α : Type*} [AddCommGroup α] [LinearOrder α]

structure Windowed (n : Nat) (w clock : α) (passed stamps : List α) : Prop where
  sorted : passed.Pairwise (· ≤ ·)
  past : ∀ t ∈ passed, t ≤ clock
  kept : ∃ c ≤ clock - w, stamps = passed.filter (c ≤ ·)
  spaced : ∀ a, countIn a (a + w) passed ≤ n
  small : stamps.length ≤ n

namespace Windowed

variable {n : Nat} {w clock : α} {passed stamps : List α}

theorem start (n : Nat) (w clock : α) : Windowed n w clock [] [] where
  sorted := .nil
  past := by simp
  kept := ⟨clock - w, le_rfl, rfl⟩
  spaced := fun _ => Nat.zero_le n
  small := Nat.zero_le n

/-- A later cut absorbs an earlier one. -/
theorem dropWhile_eq (h : Windowed n w clock passed stamps) :
    stamps.dropWhile (· < clock - w) = passed.filter (clock - w ≤ ·) := by
  obtain ⟨c, hc, rfl⟩ := h.kept
  rw [dropWhile_lt_eq_filter (h.sorted.filter _), List.filter_filter]
  refine List.filter_congr fun t _ => ?_
  by_cases ht : clock - w ≤ t
  · simp [ht, hc.trans ht]
  · simp [ht]

theorem prune (h : Windowed n w clock passed stamps) :
    Windowed n w clock passed (stamps.dropWhile (· < clock - w)) where
  sorted := h.sorted
  past := h.past
  kept := ⟨clock - w, le_rfl, h.dropWhile_eq⟩
  spaced := h.spaced
  small := (List.dropWhile_sublist _).length_le.trans h.small

/-- **What is left is the window.** -/
theorem length_dropWhile (h : Windowed n w clock passed stamps) :
    (stamps.dropWhile (· < clock - w)).length = countIn (clock - w) clock passed := by
  rw [h.dropWhile_eq, ← List.countP_eq_length_filter]
  refine List.countP_congr fun t ht => ?_
  simp [h.past t ht]

variable [IsOrderedAddMonoid α]

theorem later (h : Windowed n w clock passed stamps) {now : α} (hnow : clock ≤ now) :
    Windowed n w now passed stamps where
  sorted := h.sorted
  past := fun t ht => (h.past t ht).trans hnow
  kept := by
    obtain ⟨c, hc, heq⟩ := h.kept
    exact ⟨c, hc.trans (sub_le_sub_right hnow w), heq⟩
  spaced := h.spaced
  small := h.small

theorem pass (h : Windowed n w clock passed stamps) (hw : 0 ≤ w)
    (hroom : (stamps.dropWhile (· < clock - w)).length < n) :
    Windowed n w clock (passed ++ [clock]) (stamps.dropWhile (· < clock - w) ++ [clock]) where
  sorted := by
    rw [List.pairwise_append]
    refine ⟨h.sorted, List.pairwise_singleton _ _, fun t ht u hu => ?_⟩
    rw [List.mem_singleton.mp hu]
    exact h.past t ht
  past := by
    intro t ht
    rcases List.mem_append.mp ht with ht | ht
    · exact h.past t ht
    · exact (List.mem_singleton.mp ht).le
  kept := by
    refine ⟨clock - w, le_rfl, ?_⟩
    rw [h.dropWhile_eq, List.filter_append, List.filter_cons_of_pos (by simpa using hw),
      List.filter_nil]
  spaced := by
    intro a
    rw [countIn_concat]
    split
    · -- the window that ends now holds what the interval held before
      rename_i hin
      have hle : countIn a (a + w) passed ≤ countIn (clock - w) clock passed :=
        countIn_le passed fun t ht hat _ =>
          ⟨(sub_le_iff_le_add.mpr hin.2).trans hat, h.past t ht⟩
      rw [h.length_dropWhile] at hroom
      exact Nat.succ_le_of_lt (hle.trans_lt hroom)
    · exact h.spaced a
  small := by
    rw [List.length_append]
    exact hroom

end Windowed

end SharkSocket.Lib
