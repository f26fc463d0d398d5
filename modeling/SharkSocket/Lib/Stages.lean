import Mathlib

/-!
# Calls made in stages

Two things that recur when something is brought up and torn down.  `runUntil` makes a
call for each element of a list until one fails, and tells how far it got, so that what
was done can be undone.  `Ranked f n l` says that the calls in `l` are all different and
come in the order of their ranks, which are below `n`; a list of calls is built up rank
by rank with `Ranked.append`.
-/

namespace SharkSocket.Lib

variable {α β ε : Type*}

/-- The elements for which the call succeeded, and the one for which it failed. -/
def runUntil (f : α → Option ε) : List α → List α × Option (α × ε)
  | [] => ([], none)
  | a :: l =>
    match f a with
    | some e => ([], some (a, e))
    | none => (a :: (runUntil f l).1, (runUntil f l).2)

theorem runUntil_cases (f : α → Option ε) (l : List α) :
    (∃ pre a e post, l = pre ++ a :: post ∧ (∀ b ∈ pre, f b = none) ∧ f a = some e ∧
      runUntil f l = (pre, some (a, e))) ∨ ((∀ b ∈ l, f b = none) ∧ runUntil f l = (l, none)) := by
  induction l with
  | nil => exact .inr ⟨by simp, rfl⟩
  | cons a l ih =>
    rw [runUntil]
    cases ha : f a with
    | some e => exact .inl ⟨[], a, e, l, rfl, by simp, ha, rfl⟩
    | none =>
      have hcons : ∀ {m : List α}, (∀ b ∈ m, f b = none) → ∀ b ∈ a :: m, f b = none := by
        intro m hm b hb
        rcases List.mem_cons.mp hb with rfl | hb
        · exact ha
        · exact hm b hb
      rcases ih with ⟨pre, b, e, post, rfl, hpre, hb, hrun⟩ | ⟨hall, hrun⟩
      · exact .inl ⟨a :: pre, b, e, post, rfl, hcons hpre, hb, by simp [hrun]⟩
      · exact .inr ⟨hcons hall, by simp [hrun]⟩

structure Ranked (f : α → Nat) (n : Nat) (l : List α) : Prop where
  nodup : l.Nodup
  sorted : l.Pairwise fun a b => f a ≤ f b
  below : ∀ a ∈ l, f a < n

namespace Ranked

variable {f : α → Nat} {n : Nat} {l m : List α}

theorem nil (f : α → Nat) (n : Nat) : Ranked f n [] := ⟨.nil, .nil, by simp⟩

/-- The calls of the next rank. -/
theorem append (h : Ranked f n l) (hm : m.Nodup) (hrank : ∀ a ∈ m, f a = n) :
    Ranked f (n + 1) (l ++ m) := by
  refine ⟨h.nodup.append hm ?_, List.pairwise_append.mpr ⟨h.sorted, ?_, ?_⟩, ?_⟩
  · intro a hl hm'
    have hlt := h.below a hl
    have heq := hrank a hm'
    omega
  · exact hm.imp_of_mem fun ha hb _ => ((hrank _ ha).trans (hrank _ hb).symm).le
  · intro a ha b hb
    have hlt := h.below a ha
    have heq := hrank b hb
    omega
  · intro a ha
    rcases List.mem_append.mp ha with ha | ha
    · have := h.below a ha
      omega
    rw [hrank a ha]
    exact Nat.lt_succ_self n

/-- The same for one call for each element of a list, told apart by `key`. -/
theorem append_map (h : Ranked f n l) {κ : Type*} (key : α → κ) {g : β → α} {bs : List β}
    (hbs : (bs.map fun b => key (g b)).Nodup) (hrank : ∀ b, f (g b) = n) :
    Ranked f (n + 1) (l ++ bs.map g) := by
  refine h.append (List.Nodup.of_map key ?_) fun a ha => ?_
  · rw [List.map_map]
    exact hbs
  · obtain ⟨b, -, rfl⟩ := List.mem_map.mp ha
    exact hrank b

/-- A rank without calls. -/
theorem skip (h : Ranked f n l) : Ranked f (n + 1) l :=
  ⟨h.nodup, h.sorted, fun a ha => (h.below a ha).trans (Nat.lt_succ_self n)⟩

end Ranked

end SharkSocket.Lib
