import Mathlib

/-!
# Keys of a table

`getElem?_insert_eq_some` and `getElem?_erase_eq_some` say what storing and deleting do to
a table, `mem_filter_iff` and `filter_eq_self_of_size` what a filter leaves of one;
`size_le_size_of_subset` compares the sizes of two.

`upsert` changes the entry of a key, which it creates first if there is none.  After any
sequence of such changes, the entry of a key is what the changes under that key make of it
(`getElem?_foldl_upsert`).

A Go struct used as a map key is compared field by field.  `pairOrd f g` orders
a type by its field `f` and then by `g`; when the two fields determine the
value the order is lawful, so the type can key an `ExtTreeMap`.
-/

namespace SharkSocket.Lib

open Std

section Entries

variable {κ ν : Type*} [Ord κ] [TransOrd κ] {t : ExtTreeMap κ ν} {k k' : κ} {v w : ν}

/-- A filter that keeps the number of entries keeps the entries. -/
theorem filter_eq_self_of_size {f : κ → ν → Bool} (h : (t.filter f).size = t.size) :
    t.filter f = t :=
  ExtTreeMap.filter_eq_self_iff.mpr (ExtTreeMap.size_filter_eq_size_iff.mp h)

theorem mem_iff_getElem? : k ∈ t ↔ ∃ v, t[k]? = some v := by
  rw [ExtTreeMap.mem_iff_isSome_getElem?, Option.isSome_iff_exists]

variable [LawfulEqOrd κ]

theorem getElem?_insert_of_ne (h : k ≠ k') : (t.insert k v)[k']? = t[k']? := by
  rw [ExtTreeMap.getElem?_insert, if_neg (by rwa [Std.compare_eq_iff_eq])]

theorem getElem?_erase_of_ne (h : k ≠ k') : (t.erase k)[k']? = t[k']? := by
  rw [ExtTreeMap.getElem?_erase, if_neg (by rwa [Std.compare_eq_iff_eq])]

theorem getElem?_insert_eq_some :
    (t.insert k v)[k']? = some w ↔ (k' = k ∧ w = v) ∨ (k' ≠ k ∧ t[k']? = some w) := by
  by_cases h : k' = k
  · subst h
    simp [eq_comm]
  · simp [getElem?_insert_of_ne (Ne.symm h), h]

theorem getElem?_erase_eq_some : (t.erase k)[k']? = some w ↔ k' ≠ k ∧ t[k']? = some w := by
  by_cases h : k' = k
  · subst h
    simp
  · simp [getElem?_erase_of_ne (Ne.symm h), h]

/-- What holds of every entry. -/
theorem forall_insert {P : κ → ν → Prop} (h : ∀ k v, t[k]? = some v → P k v) (hk : P k v) :
    ∀ k' w, (t.insert k v)[k']? = some w → P k' w := by
  intro k' w hw
  rcases getElem?_insert_eq_some.mp hw with ⟨rfl, rfl⟩ | ⟨-, hw⟩
  · exact hk
  · exact h k' w hw

theorem forall_erase {P : κ → ν → Prop} (h : ∀ k v, t[k]? = some v → P k v) (k : κ) :
    ∀ k' w, (t.erase k)[k']? = some w → P k' w :=
  fun k' w hw => h k' w (getElem?_erase_eq_some.mp hw).2

theorem mem_insert_iff : k' ∈ t.insert k v ↔ k' = k ∨ k' ∈ t := by
  rw [ExtTreeMap.mem_insert, Std.compare_eq_iff_eq, eq_comm]

/-- A new key adds one entry and leaves the others. -/
theorem getElem?_insert_of_none (hk : t[k]? = none) (v : ν) (k' : κ) (w : ν) :
    (t.insert k v)[k']? = some w ↔ (k' = k ∧ w = v) ∨ t[k']? = some w := by
  rw [getElem?_insert_eq_some]
  by_cases h : k' = k
  · subst h
    simp [hk]
  · simp [h]

theorem mem_filter_iff {f : κ → ν → Bool} :
    k ∈ t.filter f ↔ ∃ v, t[k]? = some v ∧ f k v = true := by
  rw [ExtTreeMap.mem_iff_isSome_getElem?, ExtTreeMap.getElem?_filter', Option.isSome_iff_exists]
  simp only [Option.filter_eq_some_iff]

/-- A table whose keys all are keys of another has no more entries. -/
theorem size_le_size_of_subset {ω : Type*} {u : ExtTreeMap κ ω} (h : ∀ k, k ∈ t → k ∈ u) :
    t.size ≤ u.size := by
  have hsub : t.keys ⊆ u.keys := by
    intro k hk
    exact ExtTreeMap.mem_keys.mpr (h k (ExtTreeMap.mem_keys.mp hk))
  rw [← ExtTreeMap.length_keys, ← ExtTreeMap.length_keys]
  exact (ExtTreeMap.nodup_keys.subperm hsub).length_le

end Entries

section Upsert

variable {κ ν ι : Type*} [Ord κ]

def upsert (t : ExtTreeMap κ ν) (k : κ) (fresh : ν) (f : ν → ν) [TransOrd κ] : ExtTreeMap κ ν :=
  t.insert k (f (t[k]?.getD fresh))

variable [TransOrd κ] [LawfulEqOrd κ] [DecidableEq κ]

theorem getElem?_upsert (t : ExtTreeMap κ ν) (k : κ) (fresh : ν) (f : ν → ν) (k' : κ) :
    (upsert t k fresh f)[k']? = if k = k' then some (f (t[k']?.getD fresh)) else t[k']? := by
  rw [upsert, ExtTreeMap.getElem?_insert]
  simp only [Std.compare_eq_iff_eq]
  split
  · rename_i hk
    rw [hk]
  · rfl

theorem getElem?_foldl_upsert (key : ι → κ) (fresh : ι → ν) (f : ι → ν → ν)
    (k : κ) : ∀ (calls : List ι) (t : ExtTreeMap κ ν),
    (calls.foldl (fun t c => upsert t (key c) (fresh c) (f c)) t)[k]? =
      (calls.filter (key · = k)).foldl (fun e c => some (f c (e.getD (fresh c)))) t[k]? := by
  intro calls
  induction calls with
  | nil =>
    intro t
    rfl
  | cons c calls ih =>
    intro t
    rw [List.foldl_cons, ih, getElem?_upsert]
    by_cases hk : key c = k
    · rw [if_pos hk, List.filter_cons_of_pos (by simpa using hk), List.foldl_cons]
    · rw [if_neg hk, List.filter_cons_of_neg (by simpa using hk)]

end Upsert

variable {α β γ : Type*} [Ord α] [Ord β]

@[reducible] def pairOrd (f : γ → α) (g : γ → β) : Ord γ where
  compare := compareLex (compareOn f) (compareOn g)

theorem transCmp_pairOrd [TransOrd α] [TransOrd β] (f : γ → α) (g : γ → β) :
    TransCmp (pairOrd f g).compare :=
  inferInstanceAs (TransCmp (compareLex (compareOn f) (compareOn g)))

theorem lawfulEqCmp_pairOrd [TransOrd α] [TransOrd β] [LawfulEqOrd α] [LawfulEqOrd β]
    (f : γ → α) (g : γ → β) (h : ∀ x y, f x = f y → g x = g y → x = y) :
    LawfulEqCmp (pairOrd f g).compare where
  compare_self := by
    intro x
    have := transCmp_pairOrd f g
    exact ReflCmp.compare_self
  eq_of_compare := by
    intro x y hxy
    have hc : compareLex (compareOn f) (compareOn g) x y = .eq := hxy
    rw [compareLex_eq_eq] at hc
    exact h x y (LawfulEqOrd.eq_of_compare hc.1) (LawfulEqOrd.eq_of_compare hc.2)

end SharkSocket.Lib
