import Mathlib

/-!
# Fallible programs over a state

A program that may fail and works on a state of type `σ`: it gives a result or an
error, and the state it leaves behind in either case.  `exec` runs it.  The rules
below run a sequence step by step: a step that succeeds hands its result on, and
one that fails ends the sequence.
-/

namespace SharkSocket.Lib

abbrev Fallible (ε σ : Type) := ExceptT ε (StateM σ)

variable {ε σ α β : Type} {m : Fallible ε σ α} {f : α → Fallible ε σ β} {s t : σ}

def exec (m : Fallible ε σ α) (s : σ) : Except ε α × σ := m.run.run s

theorem exec_pure (a : α) (s : σ) : exec (pure a : Fallible ε σ α) s = (.ok a, s) := rfl

variable {a : α} {e : ε} {g : ε → ε}

theorem exec_bind_ok (h : exec m s = (.ok a, t)) : exec (m >>= f) s = exec (f a) t := by
  unfold exec at *
  rw [ExceptT.run_bind, StateT.run_bind, h]
  rfl

theorem exec_bind_error (h : exec m s = (.error e, t)) : exec (m >>= f) s = (.error e, t) := by
  unfold exec at *
  rw [ExceptT.run_bind, StateT.run_bind, h]
  rfl

/-- **What a sequence did**: its first half failed, or handed a result on. -/
theorem exec_bind_cases {r : Except ε β} (h : exec (m >>= f) s = (r, t)) :
    (∃ e, exec m s = (.error e, t) ∧ r = .error e) ∨
      ∃ a u, exec m s = (.ok a, u) ∧ exec (f a) u = (r, t) := by
  rcases hm : exec m s with ⟨r', u⟩
  cases r' with
  | error e =>
    rw [exec_bind_error hm] at h
    cases h
    exact .inl ⟨e, rfl, rfl⟩
  | ok a =>
    rw [exec_bind_ok hm] at h
    exact .inr ⟨a, u, rfl, h⟩

/-- Another error in the place of the one that was returned. -/
def adaptError (g : ε → ε) (m : Fallible ε σ α) : Fallible ε σ α := ExceptT.adapt g m

theorem exec_adaptError (g : ε → ε) (m : Fallible ε σ α) (s : σ) :
    exec (adaptError g m) s = ((exec m s).1.mapError g, (exec m s).2) := by
  rcases hm : exec m s with ⟨r, u⟩
  unfold exec at *
  rw [adaptError, ExceptT.run_adapt, StateT.run_map, hm]
  rfl

theorem exec_of_adaptError_ok (h : exec (adaptError g m) s = (.ok a, t)) :
    exec m s = (.ok a, t) := by
  rw [exec_adaptError] at h
  rcases hm : exec m s with ⟨r, u⟩
  rw [hm] at h
  cases r with
  | error e => cases h
  | ok b =>
    cases h
    rfl

theorem exec_of_adaptError_error (h : exec (adaptError g m) s = (.error e, t)) :
    ∃ e', exec m s = (.error e', t) := by
  rw [exec_adaptError] at h
  rcases hm : exec m s with ⟨r, u⟩
  rw [hm] at h
  cases r with
  | error e' =>
    cases h
    exact ⟨e', rfl⟩
  | ok b => cases h

theorem exec_adaptError_ok (h : exec m s = (.ok a, t)) : exec (adaptError g m) s = (.ok a, t) := by
  rw [exec_adaptError, h]
  rfl

/-! ### Without a state -/

theorem bind_eq_ok {x : Except ε α} {g : α → Except ε β} {b : β} :
    x >>= g = .ok b ↔ ∃ a, x = .ok a ∧ g a = .ok b := by
  cases x with
  | error e | ok a => simp [bind, Except.bind]

/-- A check that fails with an error, and what is done if it passes. -/
theorem guard_eq_ok {c : Prop} [Decidable c] {g : PUnit → Except ε α} :
    (if c then throw e >>= g else g ⟨⟩) = .ok a ↔ ¬ c ∧ g ⟨⟩ = .ok a := by
  by_cases h : c
  · simp [h, throw, throwThe, MonadExceptOf.throw, bind, Except.bind]
  · simp [h]

theorem mapError_eq_ok {ε' : Type} {x : Except ε α} {g : ε → ε'} :
    x.mapError g = .ok a ↔ x = .ok a := by
  cases x with
  | error e | ok b => simp [Except.mapError]

end SharkSocket.Lib
