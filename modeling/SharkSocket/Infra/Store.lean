import SharkSocket.Core
import SharkSocket.Lib.Fallible
import SharkSocket.Lib.Walk

/-!
# `infra/store/store.go`: stores and `Memory`

A `Store` is the interface: every operation may fail, and takes the store from one
state to the next.  `deleteBatch` is there for a store that implements
`BulkDeleter`.

A `MapStore` is a store that behaves as a persistent map.  Its `contents` say what
is under a key of a bucket, and its laws what each operation does to them: what
succeeds has its effect, what fails has none, except that a batch that fails may
have removed some of its keys.  `List` names the keys of a bucket once each, in any
order.  A store is `Reliable` when no operation fails.

`Memory` is a reliable `MapStore`, whatever orders Go picks when it walks its maps.
-/

namespace SharkSocket.Infra

open Lib
open Std (ExtTreeMap)

abbrev StoreM (σ : Type) := Fallible Err σ

structure Store (σ : Type) where
  save : String → Bytes → Bytes → StoreM σ Unit
  load : String → Bytes → StoreM σ (Option Bytes)
  delete : String → Bytes → StoreM σ Unit
  list : String → StoreM σ (List Bytes)
  deleteBatch : Option (String → List Bytes → StoreM σ Unit)

abbrev Contents := String → Bytes → Option Bytes

namespace Contents

variable (c : Contents)

def put (bucket : String) (key value : Bytes) : Contents := fun b k =>
  if b = bucket ∧ k = key then some value else c b k

def drop (bucket : String) (keys : List Bytes) : Contents := fun b k =>
  if b = bucket ∧ keys.contains k = true then none else c b k

theorem drop_apply (bucket : String) (keys : List Bytes) (b : String) (k : Bytes) :
    c.drop bucket keys b k = if b = bucket ∧ k ∈ keys then none else c b k := by
  simp only [drop, List.contains_iff_mem]

theorem drop_nil (bucket : String) : c.drop bucket [] = c := by
  funext b k
  simp [drop_apply]

theorem drop_drop (bucket : String) (keys more : List Bytes) :
    (c.drop bucket keys).drop bucket more = c.drop bucket (keys ++ more) := by
  funext b k
  simp only [drop_apply, List.mem_append]
  by_cases hk : b = bucket ∧ k ∈ keys
  · simp [hk]
  by_cases hm : b = bucket ∧ k ∈ more
  · simp [hm]
  rw [if_neg hm, if_neg hk, if_neg]
  rintro ⟨hb, hor⟩
  rcases hor with hor | hor
  · exact hk ⟨hb, hor⟩
  · exact hm ⟨hb, hor⟩

theorem drop_eq_some {c : Contents} {bucket b : String} {keys : List Bytes} {k v : Bytes}
    (h : c.drop bucket keys b k = some v) : c b k = some v := by
  rw [drop_apply] at h
  split at h
  · cases h
  · exact h

end Contents

/-- A store that behaves as a persistent map. -/
structure MapStore (σ : Type) extends Store σ where
  contents : σ → Contents
  save_ok : ∀ {b k v s t}, exec (save b k v) s = (.ok (), t) →
    contents t = (contents s).put b k v
  save_error : ∀ {b k v s t e}, exec (save b k v) s = (.error e, t) → contents t = contents s
  load_keeps : ∀ {b k s t r}, exec (load b k) s = (r, t) → contents t = contents s
  load_ok : ∀ {b k s t v}, exec (load b k) s = (.ok v, t) → v = contents s b k
  delete_ok : ∀ {b k s t}, exec (delete b k) s = (.ok (), t) →
    contents t = (contents s).drop b [k]
  delete_error : ∀ {b k s t e}, exec (delete b k) s = (.error e, t) → contents t = contents s
  list_keeps : ∀ {b s t r}, exec (list b) s = (r, t) → contents t = contents s
  list_ok : ∀ {b s t keys}, exec (list b) s = (.ok keys, t) →
    keys.Nodup ∧ ∀ k, k ∈ keys ↔ (contents s b k).isSome = true
  batch_ok : ∀ {del b keys s t}, deleteBatch = some del → exec (del b keys) s = (.ok (), t) →
    contents t = (contents s).drop b keys
  batch_error : ∀ {del b keys s t e}, deleteBatch = some del → exec (del b keys) s = (.error e, t) →
    ∃ gone, contents t = (contents s).drop b gone

namespace MapStore

structure Reliable {σ : Type} (S : MapStore σ) : Prop where
  save : ∀ b k v s, ∃ t, exec (S.save b k v) s = (.ok (), t)
  load : ∀ b k s, ∃ v t, exec (S.load b k) s = (.ok v, t)
  delete : ∀ b k s, ∃ t, exec (S.delete b k) s = (.ok (), t)
  list : ∀ b s, ∃ keys t, exec (S.list b) s = (.ok keys, t)
  batch : ∀ del, S.deleteBatch = some del → ∀ b keys s, ∃ t, exec (del b keys) s = (.ok (), t)

end MapStore

/-! ### `Memory` -/

/-- The buckets, and the orders in which the walks over a bucket will go: the next
one is number `walks`. -/
structure Memory where
  buckets : ExtTreeMap String (ExtTreeMap Bytes Bytes)
  orders : Nat → WalkOrder Bytes
  walks : Nat

namespace Memory

variable (m : Memory)

def new (orders : Nat → WalkOrder Bytes) : Memory := ⟨∅, orders, 0⟩

def bucket (b : String) : ExtTreeMap Bytes Bytes := m.buckets[b]?.getD ∅

def save (b : String) (k v : Bytes) : StoreM Memory Unit :=
  modify fun m => { m with buckets := m.buckets.insert b ((m.bucket b).insert k v) }

def load (b : String) (k : Bytes) : StoreM Memory (Option Bytes) := do
  let m ← get
  return (m.bucket b)[k]?

def delete (b : String) (k : Bytes) : StoreM Memory Unit :=
  modify fun m =>
    match m.buckets[b]? with
    | none => m
    | some values => { m with buckets := m.buckets.insert b (values.erase k) }

def list (b : String) : StoreM Memory (List Bytes) := do
  let m ← get
  set { m with walks := m.walks + 1 }
  return (m.orders m.walks).order (m.bucket b).keys

def contents : Contents := fun b k => (m.bucket b)[k]?

theorem contents_insert (b : String) (values : ExtTreeMap Bytes Bytes) (b' : String) (k : Bytes) :
    contents { m with buckets := m.buckets.insert b values } b' k =
      if b' = b then values[k]? else m.contents b' k := by
  simp only [contents, bucket, ExtTreeMap.getElem?_insert, Std.compare_eq_iff_eq]
  by_cases h : b = b'
  · simp [h]
  · simp [h, Ne.symm h]

theorem contents_save (b : String) (k v : Bytes) :
    contents { m with buckets := m.buckets.insert b ((m.bucket b).insert k v) } =
      m.contents.put b k v := by
  funext b' k'
  rw [contents_insert, Contents.put]
  simp only [ExtTreeMap.getElem?_insert, Std.compare_eq_iff_eq]
  by_cases hb : b' = b
  · subst hb
    by_cases hk : k = k'
    · simp [hk]
    · simp [hk, Ne.symm hk, contents]
  · simp [hb]

theorem contents_delete (b : String) (k : Bytes) :
    contents (match m.buckets[b]? with
      | none => m
      | some values => { m with buckets := m.buckets.insert b (values.erase k) }) =
      m.contents.drop b [k] := by
  funext b' k'
  cases hm : m.buckets[b]? with
  | none =>
    simp only [Contents.drop_apply, List.mem_singleton]
    split
    · rename_i h
      rw [h.1, contents, bucket, hm]
      simp
    · rfl
  | some values =>
    rw [contents_insert]
    simp only [ExtTreeMap.getElem?_erase, Std.compare_eq_iff_eq]
    by_cases hb : b' = b
    · subst hb
      by_cases hk : k = k'
      · simp [Contents.drop_apply, hk]
      · simp [Contents.drop_apply, hk, Ne.symm hk, contents, bucket, hm]
    · simp [Contents.drop_apply, hb]

end Memory

/-- **`Memory` behaves as a persistent map.** -/
def memory : MapStore Memory where
  save := Memory.save
  load := Memory.load
  delete := Memory.delete
  list := Memory.list
  deleteBatch := none
  contents := Memory.contents
  save_ok := by
    intro b k v s t h
    cases h
    exact Memory.contents_save s b k v
  save_error := by
    intro b k v s t e h
    cases h
  load_keeps := by
    intro b k s t r h
    cases h
    rfl
  load_ok := by
    intro b k s t v h
    cases h
    rfl
  delete_ok := by
    intro b k s t h
    cases h
    exact Memory.contents_delete s b k
  delete_error := by
    intro b k s t e h
    cases h
  list_keeps := by
    intro b s t r h
    cases h
    rfl
  list_ok := by
    intro b s t keys h
    cases h
    refine ⟨((s.orders s.walks).perm _).nodup_iff.mpr ExtTreeMap.nodup_keys, fun k => ?_⟩
    rw [WalkOrder.mem_order, ExtTreeMap.mem_keys]
    exact ExtTreeMap.mem_iff_isSome_getElem?
  batch_ok := by
    intro del b keys s t h
    cases h
  batch_error := by
    intro del b keys s t e h
    cases h

theorem memory_reliable : memory.Reliable where
  save b k v s := ⟨_, rfl⟩
  load b k s := ⟨_, _, rfl⟩
  delete b k s := ⟨_, rfl⟩
  list b s := ⟨_, _, rfl⟩
  batch del h := by cases h

end SharkSocket.Infra
