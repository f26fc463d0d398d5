import Mathlib

/-!
# Machines and their runs

A machine is a partial step function: `step s a` is the state after the action
`a`, and `none` when `a` is not enabled in `s`.  Everything a scheduler or an
environment may choose sits in the action, so a run is a list of actions and
`run` computes where it ends.

`Path ok s as t` says that `as` leads from `s` to `t` and that every step of it
meets `ok`, a condition on the state before the step and the action taken.
With `ok` always true it is `run` again (`path_true_iff_run`).  The two rules
used to prove something of every state a run reaches are

* `Path.inv`: what holds at the start and passes over a step that meets `ok`
  holds at the end;
* `Path.mono`: a run that meets a stronger condition meets a weaker one.

A concrete run is checked by computation: `runIf` runs a list of actions under
a decidable condition, and `path_of_runIf` turns its answer into a `Path`.  What
is computed of its last state then holds of a state that is reached
(`exists_reaches`).
-/

namespace SharkSocket.Lib

/-- Where an element of a history with one more entry can be. -/
theorem split_concat {α : Type*} {l m log : List α} {a e : α} (h : log ++ [e] = l ++ a :: m) :
    (l = log ∧ a = e ∧ m = []) ∨ ∃ m', m = m' ++ [e] ∧ log = l ++ a :: m' := by
  rcases List.eq_nil_or_concat m with rfl | ⟨m', b, rfl⟩
  · obtain ⟨rfl, h1⟩ := List.append_inj' h rfl
    cases h1
    exact Or.inl ⟨rfl, rfl, rfl⟩
  rw [List.concat_eq_append] at h ⊢
  have hassoc : l ++ a :: (m' ++ [b]) = (l ++ a :: m') ++ [b] := by simp
  obtain ⟨rfl, h1⟩ := List.append_inj' (h.trans hassoc) rfl
  cases h1
  exact Or.inr ⟨m', rfl, rfl⟩

variable {β : Type*}

theorem getElem?_of_length_le {α : Type*} {l : List α} {m : List β} {n : Nat} {a : α}
    (h : l.length ≤ m.length) (ha : l[n]? = some a) : ∃ b, m[n]? = some b :=
  ⟨_, List.getElem?_eq_getElem ((List.getElem?_eq_some_iff.mp ha).1.trans_le h)⟩

structure Machine (σ α : Type*) where
  init : σ → Prop
  step : σ → α → Option σ

namespace Machine

variable {σ α : Type*} (M : Machine σ α)

def run : σ → List α → Option σ
  | s, [] => some s
  | s, a :: as => (M.step s a).bind fun t => run t as

theorem run_cons (s : σ) (a : α) (as : List α) :
    M.run s (a :: as) = (M.step s a).bind fun t => M.run t as := rfl

inductive Path (ok : σ → α → Prop) : σ → List α → σ → Prop
  | nil (s : σ) : Path ok s [] s
  | cons {s t u : σ} {a : α} {as : List α} :
      ok s a → M.step s a = some t → Path ok t as u → Path ok s (a :: as) u

def Reaches (ok : σ → α → Prop) (t : σ) : Prop :=
  ∃ s as, M.init s ∧ M.Path ok s as t

def Reachable (t : σ) : Prop := M.Reaches (fun _ _ => True) t

variable {M} {ok : σ → α → Prop} {as : List α} {s t : σ}

variable {I : σ → Prop}

theorem Path.inv (hstep : ∀ s a t, I s → ok s a → M.step s a = some t → I t) (h : M.Path ok s as t)
    (hs : I s) : I t := by
  induction h with
  | nil => exact hs
  | cons hok hst _ ih => exact ih (hstep _ _ _ hs hok hst)

theorem Path.mono {ok ok' : σ → α → Prop} (hok : ∀ s a, ok s a → ok' s a) (h : M.Path ok s as t) :
    M.Path ok' s as t := by
  induction h with
  | nil => exact .nil _
  | cons h1 h2 _ ih => exact .cons (hok _ _ h1) h2 ih

theorem Path.append {s t u : σ} {as bs : List α} (h : M.Path ok s as t) (g : M.Path ok t bs u) :
    M.Path ok s (as ++ bs) u := by
  induction h with
  | nil => exact g
  | cons h1 h2 _ ih => exact .cons h1 h2 (ih g)

/-- What passes back over every step holds at the start of a run when it does at the end. -/
theorem run_back (hback : ∀ s a t, M.step s a = some t → I t → I s) (h : M.run s as = some t)
    (ht : I t) : I s := by
  induction as generalizing s with
  | nil =>
    cases h
    exact ht
  | cons a as ih =>
    rw [run_cons, Option.bind_eq_some_iff] at h
    obtain ⟨u, hst, hrun⟩ := h
    exact hback s a u hst (ih hrun)

/-- The same for what is said of one process of a pool that only grows. -/
theorem run_back_at {p : σ → List β} {P : β → Prop} {n : Nat}
    (hlen : ∀ s a t, M.step s a = some t → (p s).length ≤ (p t).length)
    (hback : ∀ s a t b b', M.step s a = some t → (p s)[n]? = some b → (p t)[n]? = some b' →
      P b' → P b) {b b' : β} (h : M.run s as = some t) (hb : (p s)[n]? = some b)
    (hb' : (p t)[n]? = some b') (hP : P b') : P b := by
  refine run_back (I := fun s => ∀ b, (p s)[n]? = some b → P b) ?_ h ?_ b hb
  · intro s a t hst ht b hb
    obtain ⟨b', hb'⟩ := getElem?_of_length_le (hlen s a t hst) hb
    exact hback s a t b b' hst hb hb' (ht b' hb')
  · intro b hb
    rw [hb'] at hb
    cases hb
    exact hP

theorem path_true_iff_run : M.Path (fun _ _ => True) s as t ↔ M.run s as = some t := by
  constructor
  · intro h
    induction h with
    | nil => rfl
    | cons _ h2 _ ih => rw [run_cons, h2]; exact ih
  · intro h
    induction as generalizing s with
    | nil => cases h; exact .nil _
    | cons a as ih =>
      rw [run_cons, Option.bind_eq_some_iff] at h
      obtain ⟨u, h1, h2⟩ := h
      exact .cons trivial h1 (ih h2)

theorem run_append {s u : σ} {as bs : List α} (h : M.run s (as ++ bs) = some u) :
    ∃ t, M.run s as = some t ∧ M.run t bs = some u := by
  induction as generalizing s with
  | nil => exact ⟨s, rfl, h⟩
  | cons a as ih =>
    rw [List.cons_append, run_cons, Option.bind_eq_some_iff] at h
    obtain ⟨v, hst, hrun⟩ := h
    obtain ⟨t, hfront, hback⟩ := ih hrun
    exact ⟨t, by rw [run_cons, hst]; exact hfront, hback⟩

/-- A run whose actions all meet `P`. -/
theorem path_of_run_forall {P : α → Prop} (h : M.run s as = some t) (hP : ∀ a ∈ as, P a) :
    M.Path (fun _ a => P a) s as t := by
  induction as generalizing s with
  | nil => cases h; exact .nil _
  | cons a as ih =>
    rw [run_cons, Option.bind_eq_some_iff] at h
    obtain ⟨u, hst, hrun⟩ := h
    rw [List.forall_mem_cons] at hP
    exact .cons hP.1 hst (ih hrun hP.2)

/-- **The invariant rule.**  What holds initially and passes over every step
that meets `ok` holds in every state such a run reaches. -/
theorem Reaches.inv (h0 : ∀ s, M.init s → I s)
    (hstep : ∀ s a t, I s → ok s a → M.step s a = some t → I t) {t : σ} (h : M.Reaches ok t) :
    I t := by
  obtain ⟨s, as, hs, hp⟩ := h
  exact hp.inv hstep (h0 s hs)

theorem Reaches.path (h : M.Reaches ok s) (g : M.Path ok s as t) : M.Reaches ok t := by
  obtain ⟨r, bs, hr, hp⟩ := h
  exact ⟨r, bs ++ as, hr, hp.append g⟩

theorem Reaches.reachable {s : σ} (h : M.Reaches ok s) : M.Reachable s := by
  obtain ⟨r, as, hr, hp⟩ := h
  exact ⟨r, as, hr, hp.mono fun _ _ _ => trivial⟩

theorem reachable_of_run (as : List α) (hs : M.init s) (h : M.run s as = some t) :
    M.Reachable t := ⟨s, as, hs, path_true_iff_run.mpr h⟩

def runIf (M : Machine σ α) (ok : σ → α → Prop) [∀ s a, Decidable (ok s a)] :
    σ → List α → Option σ
  | s, [] => some s
  | s, a :: as => if ok s a then (M.step s a).bind fun t => runIf M ok t as else none

theorem path_of_runIf [∀ s a, Decidable (ok s a)] (h : M.runIf ok s as = some t) :
    M.Path ok s as t := by
  induction as generalizing s with
  | nil => cases h; exact .nil _
  | cons a as ih =>
    rw [runIf] at h
    split at h
    · rename_i hok
      rw [Option.bind_eq_some_iff] at h
      obtain ⟨u, h1, h2⟩ := h
      exact .cons hok h1 (ih h2)
    · cases h

theorem reaches_of_runIf [∀ s a, Decidable (ok s a)] (as : List α) (hs : M.init s)
    (h : M.runIf ok s as = some t) : M.Reaches ok t :=
  ⟨s, as, hs, path_of_runIf h⟩

/-- A concrete run that ends where `f` is `b`. -/
theorem exists_reachable {f : σ → β} {b : β} {s : σ} (h : (M.run s as).map f = some b)
    (hs : M.init s) : ∃ t, M.Reachable t ∧ f t = b := by
  obtain ⟨t, ht, hf⟩ := Option.map_eq_some_iff.mp h
  exact ⟨t, reachable_of_run as hs ht, hf⟩

theorem exists_reaches {f : σ → β} {b : β} [∀ s a, Decidable (ok s a)] {s : σ}
    (h : (M.runIf ok s as).map f = some b) (hs : M.init s) : ∃ t, M.Reaches ok t ∧ f t = b := by
  obtain ⟨t, ht, hf⟩ := Option.map_eq_some_iff.mp h
  exact ⟨t, reaches_of_runIf as hs ht, hf⟩

theorem Reaches.runIf [∀ s a, Decidable (ok s a)] (h : M.Reaches ok s) (as : List α)
    (hrun : M.runIf ok s as = some t) : M.Reaches ok t :=
  h.path (path_of_runIf hrun)

end Machine

end SharkSocket.Lib
