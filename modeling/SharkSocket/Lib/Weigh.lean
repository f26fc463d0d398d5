import SharkSocket.Lib.Keys

/-!
# Adding up over a table

`weigh f t` adds up `f k v` over the entries of `t`.  Counting is the case of
weights `0` and `1`.  A table is taken apart at one key (`perm_erase`), which
gives the weight of a table after a store, a removal or a filter.
-/

namespace SharkSocket.Lib

open Std

variable {κ ν : Type*} [Ord κ] [TransOrd κ]

theorem nodup_toList (t : ExtTreeMap κ ν) : t.toList.Nodup := by
  have hkeys : (t.toList.map Prod.fst).Nodup := by
    rw [ExtTreeMap.map_fst_toList_eq_keys]
    exact ExtTreeMap.nodup_keys
  exact hkeys.of_map _

def weigh (f : κ → ν → Nat) (t : ExtTreeMap κ ν) : Nat := (t.toList.map fun e => f e.1 e.2).sum

@[simp] theorem weigh_empty (f : κ → ν → Nat) : weigh f (∅ : ExtTreeMap κ ν) = 0 := by
  unfold weigh
  rfl

theorem weigh_filter (f : κ → ν → Nat) (t : ExtTreeMap κ ν) (p : κ → ν → Bool) :
    weigh f (t.filter p) = weigh (fun k v => if p k v then f k v else 0) t := by
  unfold weigh
  rw [ExtTreeMap.toList_filter]
  induction t.toList with
  | nil => rfl
  | cons e l ih =>
    by_cases he : p e.1 e.2 = true <;> simp [he, ih]

theorem weigh_filterMap {μ : Type*} (f : κ → μ → Nat) (t : ExtTreeMap κ ν) (p : κ → ν → Option μ) :
    weigh f (t.filterMap p) = weigh (fun k v => (p k v).elim 0 (f k)) t := by
  unfold weigh
  rw [ExtTreeMap.toList_filterMap]
  induction t.toList with
  | nil => rfl
  | cons e l ih =>
    cases he : p e.1 e.2 with
    | none | some w => simp [he, ih]

theorem weigh_one (t : ExtTreeMap κ ν) : weigh (fun _ _ => 1) t = t.size := by
  simp [weigh, ExtTreeMap.length_toList]

variable [LawfulEqOrd κ]

variable {k : κ} {t : ExtTreeMap κ ν}

theorem mem_toList_erase {e : κ × ν} : e ∈ (t.erase k).toList ↔ e.1 ≠ k ∧ e ∈ t.toList := by
  rw [ExtTreeMap.mem_toList_iff_getElem?_eq_some, ExtTreeMap.mem_toList_iff_getElem?_eq_some,
    ExtTreeMap.getElem?_erase]
  by_cases hk : k = e.1
  · simp [hk]
  have hne : compare k e.1 ≠ .eq := fun h => hk (Std.compare_eq_iff_eq.mp h)
  simp [hne, Ne.symm hk]

/-- A table is the entry at one key and the rest. -/
theorem perm_erase {v : ν} (h : t[k]? = some v) : t.toList.Perm ((k, v) :: (t.erase k).toList) := by
  have hnot : (k, v) ∉ (t.erase k).toList := fun hmem => (mem_toList_erase.mp hmem).1 rfl
  rw [List.perm_ext_iff_of_nodup (nodup_toList t) (List.nodup_cons.mpr ⟨hnot, nodup_toList _⟩)]
  rintro ⟨k', v'⟩
  rw [List.mem_cons, mem_toList_erase]
  by_cases hk : k' = k
  · subst hk
    simp [h, eq_comm]
  · simp [hk]

theorem erase_of_none (h : t[k]? = none) : t.erase k = t := by
  refine ExtTreeMap.ext_getElem? fun k' => ?_
  rw [ExtTreeMap.getElem?_erase]
  split
  · rename_i hk
    rw [Std.compare_eq_iff_eq] at hk
    rw [← hk, h]
  · rfl

theorem erase_insert (t : ExtTreeMap κ ν) (k : κ) (v : ν) : (t.insert k v).erase k = t.erase k := by
  refine ExtTreeMap.ext_getElem? fun k' => ?_
  rw [ExtTreeMap.getElem?_erase, ExtTreeMap.getElem?_erase, ExtTreeMap.getElem?_insert]
  split <;> rfl

theorem insert_insert (t : ExtTreeMap κ ν) (k : κ) (v w : ν) :
    (t.insert k v).insert k w = t.insert k w := by
  refine ExtTreeMap.ext_getElem? fun k' => ?_
  rw [ExtTreeMap.getElem?_insert, ExtTreeMap.getElem?_insert, ExtTreeMap.getElem?_insert]
  split <;> rfl

/-- Storing what is there already changes nothing. -/
theorem insert_eq_self {v : ν} (h : t[k]? = some v) : t.insert k v = t := by
  refine ExtTreeMap.ext_getElem? fun k' => ?_
  rw [ExtTreeMap.getElem?_insert]
  split
  · rename_i hk
    rw [Std.compare_eq_iff_eq] at hk
    rw [← hk, h]
  · rfl

variable {f g : κ → ν → Nat} {t : ExtTreeMap κ ν} {k : κ} {v : ν}

theorem weigh_of_some (h : t[k]? = some v) : weigh f t = f k v + weigh f (t.erase k) := by
  unfold weigh
  rw [((perm_erase h).map _).sum_eq, List.map_cons, List.sum_cons]

theorem weigh_insert (f : κ → ν → Nat) (t : ExtTreeMap κ ν) (k : κ) (v : ν) :
    weigh f (t.insert k v) = f k v + weigh f (t.erase k) := by
  rw [weigh_of_some (ExtTreeMap.getElem?_insert_self), erase_insert]

theorem weigh_insert_of_none (h : t[k]? = none) (v : ν) :
    weigh f (t.insert k v) = weigh f t + f k v := by
  rw [weigh_insert, erase_of_none h, add_comm]

theorem weigh_le_of_some (h : t[k]? = some v) : f k v ≤ weigh f t := by
  rw [weigh_of_some h]
  exact Nat.le_add_right _ _

theorem weigh_mono (h : ∀ (k : κ) (v : ν), t[k]? = some v → f k v ≤ g k v) :
    weigh f t ≤ weigh g t := by
  refine List.sum_le_sum fun e he => ?_
  exact h e.1 e.2 (ExtTreeMap.mem_toList_iff_getElem?_eq_some.mp he)

theorem weigh_congr (h : ∀ (k : κ) (v : ν), t[k]? = some v → f k v = g k v) :
    weigh f t = weigh g t :=
  Nat.le_antisymm (weigh_mono fun k v hv => (h k v hv).le) (weigh_mono fun k v hv => (h k v hv).ge)

end SharkSocket.Lib
