import SharkSocket.Lib.SlidingWindow

/-!
# A token bucket

A bucket holds up to `cap` tokens and gains `rate` of them per unit of time.  An
event takes one.  The level is not kept up to date: whoever looks at it first adds
what has come in since the last look.

`Metered rate cap level last taken` relates the level to the history: what was taken
since any earlier moment and is still there was paid for by a full bucket and by what
came in since then.  Its rules are

* `Metered.refill`: the level is brought up to date;
* `Metered.take`: an event takes a token;
* `Metered.bounded`: how many events an interval can hold.
-/

namespace SharkSocket.Lib

variable {K : Type*} [Field K] [LinearOrder K] [IsStrictOrderedRing K]

structure Metered (rate cap level last : K) (taken : List K) : Prop where
  past : ∀ x ∈ taken, x ≤ last
  nonneg : 0 ≤ level
  le_cap : level ≤ cap
  funded : ∀ s ≤ last, countIn s last taken + level ≤ cap + rate * (last - s)
  bounded : ∀ s t, s ≤ t → (countIn s t taken : K) ≤ cap + rate * (t - s)

namespace Metered

variable {rate cap level last : K} {taken : List K}

theorem start (hrate : 0 ≤ rate) (h0 : 0 ≤ level) (hcap : level ≤ cap) (last : K) :
    Metered rate cap level last [] where
  past := by simp
  nonneg := h0
  le_cap := hcap
  funded := by
    intro s hs
    have hin : 0 ≤ rate * (last - s) := mul_nonneg hrate (sub_nonneg.mpr hs)
    simp only [countIn, List.countP_nil, Nat.cast_zero]
    linarith
  bounded := by
    intro s t hst
    have hin : 0 ≤ rate * (t - s) := mul_nonneg hrate (sub_nonneg.mpr hst)
    simp only [countIn, List.countP_nil, Nat.cast_zero]
    linarith

variable (h : Metered rate cap level last taken)
include h

theorem refill (hrate : 0 ≤ rate) {now : K} (hnow : last ≤ now) :
    Metered rate cap (min cap (level + rate * (now - last))) now taken where
  past := fun x hx => (h.past x hx).trans hnow
  nonneg := by
    have hin : 0 ≤ rate * (now - last) := mul_nonneg hrate (sub_nonneg.mpr hnow)
    exact le_min (h.nonneg.trans h.le_cap) (add_nonneg h.nonneg hin)
  le_cap := min_le_left _ _
  funded := by
    intro s hs
    by_cases hold : s ≤ last
    · have hcount := h.funded s hold
      have hlevel : min cap (level + rate * (now - last)) ≤ level + rate * (now - last) :=
        min_le_right _ _
      rw [countIn_of_past h.past hnow]
      linarith
    -- nothing was taken so recently, and the bucket holds no more than `cap`
    have hlevel : min cap (level + rate * (now - last)) ≤ cap := min_le_left _ _
    have hin : 0 ≤ rate * (now - s) := mul_nonneg hrate (sub_nonneg.mpr hs)
    rw [countIn_eq_zero h.past (not_le.mp hold), Nat.cast_zero]
    linarith
  bounded := h.bounded

theorem take (hrate : 0 ≤ rate) (hone : 1 ≤ level) :
    Metered rate cap (level - 1) last (taken ++ [last]) := by
  have hpast : ∀ x ∈ taken ++ [last], x ≤ last := by
    intro x hx
    rcases List.mem_append.mp hx with hx | hx
    · exact h.past x hx
    · exact (List.mem_singleton.mp hx).le
  have hfunded : ∀ s ≤ last,
      countIn s last (taken ++ [last]) + (level - 1) ≤ cap + rate * (last - s) := by
    intro s hs
    have hcount := h.funded s hs
    rw [countIn_concat, if_pos ⟨hs, le_rfl⟩]
    push_cast
    linarith
  refine ⟨hpast, by linarith, by linarith [h.le_cap], hfunded, ?_⟩
  intro s t hst
  by_cases hin : s ≤ last ∧ last ≤ t
  · have hcount := hfunded s hin.1
    have hrest : rate * (last - s) ≤ rate * (t - s) :=
      mul_le_mul_of_nonneg_left (by linarith [hin.2]) hrate
    rw [countIn_of_past hpast hin.2]
    linarith
  rw [countIn_concat, if_neg hin]
  exact h.bounded s t hst

/-- After the time in which one token comes in there is one to take. -/
theorem one_le (hcap : 1 ≤ cap) (hrate : 0 < rate) {now : K}
    (hnow : 1 / rate ≤ now - last) : 1 ≤ min cap (level + rate * (now - last)) := by
  have hin : 1 ≤ rate * (now - last) := by rwa [div_le_iff₀' hrate] at hnow
  exact le_min hcap (by linarith [h.nonneg])

end Metered

end SharkSocket.Lib
