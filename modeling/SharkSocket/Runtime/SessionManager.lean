import SharkSocket.Core
import SharkSocket.Lib.Keys
import SharkSocket.Lib.Walk

/-!
# `runtime.SessionManager`: the session table

The manager keeps its sessions in 64 shards, chosen by the session ID.  A
`Shard i` carries that as a field, so two shards never hold one ID and a
snapshot lists no session twice (`nodup_snapshot`), in whatever order Go walks
each map and whatever the shards held when they were visited.
-/

namespace SharkSocket.Runtime

open Lib
open Std (ExtTreeMap)

def sessionShards : Nat := 64

/-- What the manager sees of a `core.Session`: its ID, and whether it also
implements `core.SharedSender`. -/
structure Session where
  id : UInt64
  sharedSender : Bool
  deriving DecidableEq, Repr

def shardOf (id : UInt64) : Fin sessionShards :=
  ⟨id.toNat % sessionShards, Nat.mod_lt _ (by decide)⟩

/-- One table of the manager: sessions under their own ID, and only IDs that
belong to this shard. -/
structure Shard (i : Fin sessionShards) where
  sessions : ExtTreeMap UInt64 Session
  keyed : ∀ (k : UInt64) (s : Session), sessions[k]? = some s → s.id = k
  placed : ∀ k ∈ sessions, shardOf k = i

namespace Shard

variable {i : Fin sessionShards}

def empty (i : Fin sessionShards) : Shard i where
  sessions := ∅
  keyed := by intro k s h; simp at h
  placed := by intro k h; simp at h

def insert (sh : Shard i) (sess : Session) (h : shardOf sess.id = i) : Shard i where
  sessions := sh.sessions.insert sess.id sess
  keyed := by
    exact forall_insert sh.keyed rfl
  placed := by
    intro k hk
    rcases mem_insert_iff.mp hk with rfl | hk
    · exact h
    · exact sh.placed k hk

def erase (sh : Shard i) (id : UInt64) : Shard i where
  sessions := sh.sessions.erase id
  keyed := by
    exact forall_erase sh.keyed id
  placed := by
    intro k hk
    exact sh.placed k (ExtTreeMap.mem_of_mem_erase hk)

end Shard

structure SessionManager where
  nextID : UInt64
  count : Int
  max : Int
  shards : (i : Fin sessionShards) → Shard i

namespace SessionManager

variable (m : SessionManager)

def new (max : Int) : SessionManager := ⟨0, 0, max, Shard.empty⟩

def takeID : UInt64 × SessionManager :=
  (m.nextID + 1, { m with nextID := m.nextID + 1 })

def register : Option Session → Except Err SessionManager
  | none => .error .invalidArgument
  | some sess =>
    -- the duplicate check comes before the capacity check
    if sess.id ∈ (m.shards (shardOf sess.id)).sessions then .error .duplicateSession
    else if 0 < m.max ∧ m.max ≤ m.count then .error .sessionCapacity
    else .ok { m with
      count := m.count + 1
      shards := Function.update m.shards (shardOf sess.id)
        ((m.shards (shardOf sess.id)).insert sess rfl) }

def unregister (id : UInt64) : Bool × SessionManager :=
  let m' := { m with
    shards := Function.update m.shards (shardOf id) ((m.shards (shardOf id)).erase id) }
  if id ∈ (m.shards (shardOf id)).sessions then (true, { m' with count := m.count - 1 })
  else (false, m')

def get (id : UInt64) : Option Session :=
  (m.shards (shardOf id)).sessions[id]?

end SessionManager

/-! ### `Snapshot`

A `View` is the contents each shard has at the moment `Snapshot` visits it;
with no concurrent change it is `m.shards`. -/

abbrev View := (i : Fin sessionShards) → Shard i

def snapshot (view : View) (walk : Fin sessionShards → WalkOrder (UInt64 × Session)) :
    List Session :=
  (List.finRange sessionShards).flatMap fun i => (walk i).values (view i).sessions

theorem mem_snapshot {view : View} {walk : Fin sessionShards → WalkOrder (UInt64 × Session)}
    {s : Session} : s ∈ snapshot view walk ↔
      ∃ (i : Fin sessionShards) (k : UInt64), (view i).sessions[k]? = some s := by
  simp only [snapshot, List.mem_flatMap, List.mem_finRange, true_and, WalkOrder.mem_values]

/-- **A snapshot lists no session twice**, even when shards change while it
runs: an ID has one shard, and each shard is visited once. -/
theorem nodup_snapshot (view : View) (walk : Fin sessionShards → WalkOrder (UInt64 × Session)) :
    (snapshot view walk).Nodup := by
  rw [snapshot, List.nodup_flatMap]
  refine ⟨fun i _ => WalkOrder.nodup_values Session.id (view i).keyed, ?_⟩
  refine (List.nodup_finRange _).imp_of_mem (fun {i j} _ _ hij => ?_)
  intro s hi hj
  obtain ⟨k, hk⟩ := WalkOrder.mem_values.mp hi
  obtain ⟨l, hl⟩ := WalkOrder.mem_values.mp hj
  have hkl : k = l := ((view i).keyed k s hk).symm.trans ((view j).keyed l s hl)
  subst hkl
  apply hij
  rw [← (view i).placed k (mem_iff_getElem?.mpr ⟨_, hk⟩),
    (view j).placed k (mem_iff_getElem?.mpr ⟨_, hl⟩)]

end SharkSocket.Runtime
