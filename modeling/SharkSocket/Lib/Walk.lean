import Mathlib

/-!
# Walking a map in an unspecified order

A `range` over a Go map visits every entry once, in an order the language does
not fix.  A `WalkOrder` is one such choice: it rearranges the entries it is
given and keeps each of them.  Code that walks a map takes one as a parameter,
and a result about it is stated for every choice.
-/

namespace SharkSocket.Lib

open Std

structure WalkOrder (α : Type*) where
  order : List α → List α
  perm : ∀ l, (order l).Perm l

namespace WalkOrder

variable {α β : Type*}

def id : WalkOrder α := ⟨fun l => l, fun l => .refl l⟩

instance : Inhabited (WalkOrder α) := ⟨id⟩

theorem mem_order (w : WalkOrder α) (l : List α) (a : α) : a ∈ w.order l ↔ a ∈ l :=
  (w.perm l).mem_iff

variable [Ord α] [TransOrd α] {m : ExtTreeMap α β} {w : WalkOrder (α × β)}

def values (w : WalkOrder (α × β)) (m : ExtTreeMap α β) : List β := (w.order m.toList).map Prod.snd

@[simp] theorem length_values (w : WalkOrder (α × β)) (m : ExtTreeMap α β) :
    (w.values m).length = m.size := by
  rw [values, List.length_map, (w.perm m.toList).length_eq, ExtTreeMap.length_toList]

variable [LawfulEqOrd α]

theorem mem_entries {k : α} {b : β} : (k, b) ∈ w.order m.toList ↔ m[k]? = some b := by
  rw [w.mem_order, ExtTreeMap.mem_toList_iff_getElem?_eq_some]

theorem findSome?_eq_none {γ : Type*} {f : α × β → Option γ} :
    (w.order m.toList).findSome? f = none ↔ ∀ k b, m[k]? = some b → f (k, b) = none := by
  simp only [List.findSome?_eq_none_iff, Prod.forall, mem_entries]

theorem mem_values {b : β} : b ∈ w.values m ↔ ∃ k : α, m[k]? = some b := by
  simp only [values, List.mem_map, Prod.exists, exists_eq_right, mem_entries]

/-- A map whose values know their keys lists no value twice. -/
theorem nodup_values (key : β → α) (h : ∀ (k : α) (b : β), m[k]? = some b → key b = k) :
    (w.values m).Nodup := by
  have hk : (m.toList.map Prod.fst).Nodup := by
    rw [ExtTreeMap.map_fst_toList_eq_keys]
    exact ExtTreeMap.nodup_keys
  refine ((w.perm _).map Prod.snd).nodup_iff.mpr (List.Nodup.of_map key ?_)
  rw [List.map_map]
  have he : m.toList.map (key ∘ Prod.snd) = m.toList.map Prod.fst := by
    refine List.map_congr_left ?_
    rintro ⟨k, b⟩ hkb
    exact h k b (ExtTreeMap.mem_toList_iff_getElem?_eq_some.mp hkb)
  rwa [he]

end WalkOrder

end SharkSocket.Lib
