import Mathlib

/-!
# A pool of processes

Processes that run side by side are a list, and a step of process `n` replaces
the entry at `n`.  What the steps of the others see is the rest of the pool, in
any order: `exists_perm_set` splits a pool into the process that moves and that
rest, before and after its step.  What the processes hold, taken together, then
changes by what the one that moves gains or gives away
(`holdings_set`, `sum_map_set`).
-/

namespace SharkSocket.Lib

variable {α β : Type*}

variable {l : List α} {n : Nat} {a : α}

/-- A new process goes to the end of the pool. -/
theorem getElem?_concat_eq_some {a b : α} :
    (l ++ [a])[n]? = some b ↔ l[n]? = some b ∨ (n = l.length ∧ a = b) := by
  rcases lt_trichotomy n l.length with hn | hn | hn
  · simp [List.getElem?_append_left hn, hn.ne]
  · subst hn
    simp
  have hnone : (l ++ [a])[n]? = none := by
    rw [List.getElem?_eq_none_iff, List.length_append, List.length_singleton]
    omega
  simp [hnone, List.getElem?_eq_none_iff.mpr hn.le, hn.ne']

/-- A step of process `n` leaves the others where they are. -/
theorem getElem?_set_eq_some {n m : Nat} {x b : α} (h : (l.set n x)[m]? = some b) :
    (m = n ∧ b = x) ∨ (m ≠ n ∧ l[m]? = some b) := by
  rw [List.getElem?_set] at h
  split at h
  · rename_i hnm
    subst hnm
    split at h
    · cases h
      exact .inl ⟨rfl, rfl⟩
    · cases h
  · exact .inr ⟨fun hmn => by simp_all, h⟩

/-- What holds of every process holds with a new one, and after a step of one of them. -/
theorem forall_mem_concat {P : α → Prop} (h : ∀ x ∈ l, P x) (ha : P a) : ∀ x ∈ l ++ [a], P x :=
  List.forall_mem_append.mpr ⟨h, List.forall_mem_singleton.mpr ha⟩

theorem forall_mem_set {P : α → Prop} (h : ∀ x ∈ l, P x) (ha : P a) : ∀ x ∈ l.set n a, P x := by
  intro x hx
  rcases List.mem_or_eq_of_mem_set hx with hx | rfl
  · exact h x hx
  · exact ha

theorem count_concat [DecidableEq α] (l : List α) (a b : α) :
    (l ++ [a]).count b = l.count b + if a = b then 1 else 0 := by
  simp [List.count_append, List.count_singleton]

theorem exists_perm_set (h : l[n]? = some a) :
    ∃ rest, l.Perm (a :: rest) ∧ ∀ x, (l.set n x).Perm (x :: rest) := by
  obtain ⟨hn, rfl⟩ := List.getElem?_eq_some_iff.mp h
  refine ⟨l.take n ++ l.drop (n + 1), ?_, ?_⟩
  · have hl : l = l.take n ++ l[n] :: l.drop (n + 1) := by
      rw [← List.drop_eq_getElem_cons hn, List.take_append_drop]
    exact (List.Perm.of_eq hl).trans List.perm_middle
  · intro x
    rw [List.set_eq_take_append_cons_drop, if_pos hn]
    exact List.perm_middle

/-- What the processes of a pool hold, read off each of them by `f`. -/
theorem exists_perm_filterMap_set (f : α → Option β) (h : l[n]? = some a) :
    ∃ rest, (l.filterMap f).Perm ((f a).toList ++ rest) ∧
      ∀ x, ((l.set n x).filterMap f).Perm ((f x).toList ++ rest) := by
  obtain ⟨rest, hl, hset⟩ := exists_perm_set h
  have hcons : ∀ y, (y :: rest).filterMap f = (f y).toList ++ rest.filterMap f := by
    intro y
    rw [List.filterMap_cons]
    cases f y <;> rfl
  refine ⟨rest.filterMap f, ?_, ?_⟩
  · rw [← hcons]
    exact hl.filterMap f
  · intro x
    rw [← hcons]
    exact (hset x).filterMap f

/-! ### What a pool holds

Each process holds at most one thing, `f` of it; the pool holds them all, with
multiplicity and in no order. -/

def held (o : Option β) : Multiset β := (o.toList : Multiset β)

@[simp] theorem held_none : held (none : Option β) = 0 := rfl

@[simp] theorem count_held [DecidableEq β] (b : β) (o : Option β) :
    (held o).count b = if o = some b then 1 else 0 := by
  cases o with
  | none => rfl
  | some c => simp [held, Multiset.count_singleton, eq_comm]

@[simp] theorem mem_held {b : β} {o : Option β} : b ∈ held o ↔ o = some b := by
  simp [held]

def holdings (f : α → Option β) (l : List α) : Multiset β := (l.filterMap f : Multiset β)

@[simp] theorem holdings_nil (f : α → Option β) : holdings f [] = 0 := rfl

theorem holdings_cons (f : α → Option β) (a : α) (l : List α) :
    holdings f (a :: l) = held (f a) + holdings f l := by
  unfold holdings
  rw [List.filterMap_cons]
  cases f a <;> rfl

theorem holdings_concat (f : α → Option β) (l : List α) (a : α) :
    holdings f (l ++ [a]) = holdings f l + held (f a) := by
  unfold holdings held
  rw [List.filterMap_append, List.filterMap_cons]
  cases f a <;> rfl

theorem holdings_set (f : α → Option β) (h : l[n]? = some a) (x : α) :
    holdings f (l.set n x) + held (f a) = holdings f l + held (f x) := by
  obtain ⟨rest, hl, hset⟩ := exists_perm_filterMap_set f h
  unfold holdings held
  rw [Multiset.coe_eq_coe.mpr hl, Multiset.coe_eq_coe.mpr (hset x), ← Multiset.coe_add,
    ← Multiset.coe_add]
  abel

@[simp] theorem mem_holdings {f : α → Option β} {b : β} :
    b ∈ holdings f l ↔ ∃ a ∈ l, f a = some b := by
  simp [holdings]

theorem mem_sum_map {f : α → Multiset β} {b : β} : b ∈ (l.map f).sum ↔ ∃ a ∈ l, b ∈ f a := by
  induction l with
  | nil => simp
  | cons a l ih => simp [ih]

/-- What processes that hold several things hold altogether changes by what the
one that moves gains or gives away. -/
theorem sum_map_set {M : Type*} [AddCommMonoid M] (f : α → M) (h : l[n]? = some a) (x : α) :
    ((l.set n x).map f).sum + f a = (l.map f).sum + f x := by
  obtain ⟨rest, hl, hset⟩ := exists_perm_set h
  rw [(hl.map f).sum_eq, ((hset x).map f).sum_eq, List.map_cons, List.map_cons, List.sum_cons,
    List.sum_cons]
  abel

/-! ### A table of processes

A table whose values are places in the pool, each process under its own key. -/

theorem map_modify_of_eq {g : α → β} {f : α → α} (hf : ∀ a, g (f a) = g a) (l : List α) (n : Nat) :
    (l.modify n f).map g = l.map g := by
  refine List.ext_getElem? fun i => ?_
  rw [List.getElem?_map, List.getElem?_map, List.getElem?_modify]
  cases l[i]? with
  | none => rfl
  | some a =>
    simp only [Option.map_eq_map, Option.map_some]
    split
    · rw [hf]
    · rfl

/-- A table has at most as many entries as the pool has processes of the kind
that is in the table. -/
theorem size_le_countP {κ : Type*} [Ord κ] [Std.TransOrd κ] [Std.LawfulEqOrd κ]
    (t : Std.ExtTreeMap κ Nat) (l : List α) (key : α → κ) (p : α → Bool)
    (h : ∀ (k : κ) (n : Nat), t[k]? = some n → ∃ a, l[n]? = some a ∧ key a = k ∧ p a = true) :
    t.size ≤ l.countP p := by
  have hmem : ∀ e ∈ t.toList, ∃ a, l[e.2]? = some a ∧ key a = e.1 ∧ p a = true :=
    fun e he => h e.1 e.2 (Std.ExtTreeMap.mem_toList_iff_getElem?_eq_some.mp he)
  have hnodup : (t.toList.map Prod.snd).Nodup := by
    rw [List.nodup_iff_pairwise_ne, List.pairwise_map]
    refine Std.ExtTreeMap.distinct_keys_toList.imp_of_mem ?_
    intro e e' he he' hne heq
    obtain ⟨a, ha, hka, _⟩ := hmem e he
    obtain ⟨a', ha', hka', _⟩ := hmem e' he'
    rw [heq, ha'] at ha
    cases ha
    exact hne (Std.compare_eq_iff_eq.mpr (hka.symm.trans hka'))
  have hsub : t.toList.map Prod.snd ⊆ (l.zipIdx.filter fun e => p e.1).map Prod.snd := by
    intro n hn
    obtain ⟨e, he, rfl⟩ := List.mem_map.mp hn
    obtain ⟨a, ha, _, hp⟩ := hmem e he
    exact List.mem_map.mpr ⟨(a, e.2), List.mem_filter.mpr
      ⟨List.mem_zipIdx_iff_getElem?.mpr ha, hp⟩, rfl⟩
  calc t.size = (t.toList.map Prod.snd).length := by
        rw [List.length_map, Std.ExtTreeMap.length_toList]
    _ ≤ ((l.zipIdx.filter fun e => p e.1).map Prod.snd).length := (hnodup.subperm hsub).length_le
    _ = l.countP p := by
        rw [List.length_map, ← List.countP_eq_length_filter]
        have hfst : l.zipIdx.map Prod.fst = l := List.zipIdx_map_fst ..
        conv_rhs => rw [← hfst, List.countP_map]
        rfl

end SharkSocket.Lib
