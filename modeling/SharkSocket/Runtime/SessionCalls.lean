import SharkSocket.Lib.Locks
import SharkSocket.Lib.Machine
import SharkSocket.Runtime.Broadcast

/-!
# `runtime.SessionManager` and `metricSessionManager` under concurrent calls

A goroutine makes one call, directly on the `SessionManager` or, when it is `metered`,
on the `metricSessionManager` around it.  Each access to an atomic, a shard's lock or a
metric is a step, and so is what is done to a shard while its lock is held.  A lock is
held by the goroutine that is between `Lock` and `Unlock`.

`Prim` are the methods that work on the shards.  `CloseAll` and the heartbeat's `Sweep`
are loops around them: they take a snapshot, close sessions and `Unregister` each.  The
`Close` of a session, the cancellation of a context and whether a session is idle are
choices of the environment.  What a `Close` itself does to the manager is the call of
another goroutine, and so is what the function given to `Range` does.

`Count`, `Capacity` and `NextID` are one access to one atomic.  The first two change
nothing and are not steps here.
-/

namespace SharkSocket.Runtime

open Lib

/-! ### The manager and its metrics -/

/-- A write of the gauge, and the value that `Count` had at that moment. -/
structure GaugeWrite where
  value : Int
  count : Int
  deriving DecidableEq, Repr

/-- `active` is the gauge `sessions_active` and `writes` its history. -/
structure Books where
  manager : SessionManager
  accepted : Nat
  closed : Nat
  active : Int
  writes : List GaugeWrite

inductive Counter
  | accepted
  | closed
  deriving DecidableEq, Repr

namespace Books

variable (b : Books)

def new (max : Int) : Books := ⟨.new max, 0, 0, 0, []⟩

def incCounter : Counter → Books
  | .accepted => { b with accepted := b.accepted + 1 }
  | .closed => { b with closed := b.closed + 1 }

def setGauge (value : Int) : Books :=
  { b with active := value, writes := b.writes ++ [⟨value, b.manager.count⟩] }

def setCount (count : Int) : Books :=
  { b with manager := { b.manager with count := count } }

def setShard (i : Fin sessionShards) (sh : Shard i) : Books :=
  { b with manager := { b.manager with shards := Function.update b.manager.shards i sh } }

theorem placed_own (sess : Session) : shardOf sess.id = shardOf sess.id := rfl

/-- `sh.sessions[sess.ID()] = sess`. -/
def storeSession (sess : Session) : Books :=
  b.setShard _ ((b.manager.shards (shardOf sess.id)).insert sess (placed_own sess))

/-- `delete(sh.sessions, id)`. -/
def deleteSession (id : UInt64) : Books :=
  b.setShard _ ((b.manager.shards (shardOf id)).erase id)

end Books

/-! ### The methods -/

/-- The lines of `metricSessionManager` after a success: before `IncCounter`, before
`Count`, before `SetGauge`. -/
inductive ReportPc
  | inc
  | count
  | set (value : Int)
  deriving DecidableEq, Repr

def ReportPc.step (counter : Counter) (b : Books) : ReportPc → Books × Option ReportPc
  | inc => (b.incCounter counter, some count)
  | count => (b, some (set b.manager.count))
  | set value => (b.setGauge value, none)

/-- `Register`: before `Lock`; before the duplicate check; at the head of the loop;
before `CompareAndSwap`; before the session is stored; before `Unlock`. -/
inductive RegisterPc
  | lock
  | check
  | load
  | cas (cur : Int)
  | store
  | unlock (err : Option Err)
  | report (pc : ReportPc)
  | returned (err : Option Err)
  deriving DecidableEq, Repr

/-- `Unregister`: before `Lock`; before the lookup and `delete`; before `Unlock`; before
the count is given back. -/
inductive UnregisterPc
  | lock
  | delete
  | unlock (ok : Bool)
  | release
  | report (pc : ReportPc)
  | returned (ok : Bool)
  deriving DecidableEq, Repr

inductive GetPc
  | rlock
  | lookup
  | runlock (found : Option Session)
  | returned (found : Option Session)
  deriving DecidableEq, Repr

/-- `Snapshot`: before `Count`, which sizes the slice; then shard by shard. -/
inductive SnapshotPc
  | count
  | rlock (i : Fin sessionShards) (acc : List Session)
  | copy (i : Fin sessionShards) (acc : List Session)
  | runlock (i : Fin sessionShards) (acc : List Session)
  | returned (acc : List Session)
  deriving DecidableEq, Repr

/-- `Range`: `visit` is before the next call of the function. -/
inductive RangePc
  | rlock (i : Fin sessionShards)
  | visit (i : Fin sessionShards) (rest : List Session)
  | runlock (i : Fin sessionShards) (stop : Bool)
  | returned
  deriving DecidableEq, Repr

inductive Prim
  | register (sess : Session) (pc : RegisterPc)
  | unregister (id : UInt64) (pc : UnregisterPc)
  | get (id : UInt64) (pc : GetPc)
  | snapshot (pc : SnapshotPc)
  | range (pc : RangePc)
  deriving DecidableEq, Repr

/-- What the environment decides in a step: the order of a walk over a shard, the
outcome of a `Close`, whether the context is done, whether a session has been idle for
too long, and whether the function of `Range` wants no more. -/
structure Choice where
  walk : WalkOrder (UInt64 × Session)
  close : Outcome
  cancelled : Bool
  idle : Bool
  stop : Bool

def Choice.steady : Choice := ⟨.id, .ok, false, false, false⟩

def RegisterPc.step (b : Books) (metered free : Bool) (sess : Session) :
    RegisterPc → Option (Books × RegisterPc)
  | lock => if free then some (b, check) else none
  | check =>
    some (b, if sess.id ∈ (b.manager.shards (shardOf sess.id)).sessions
      then unlock (some .duplicateSession) else load)
  | load =>
    some (b, if 0 < b.manager.max ∧ b.manager.max ≤ b.manager.count
      then unlock (some .sessionCapacity) else cas b.manager.count)
  | cas cur =>
    some (if b.manager.count = cur then (b.setCount (cur + 1), store) else (b, load))
  | store =>
    some (b.storeSession sess, unlock none)
  | unlock err => some (b, if metered ∧ err = none then report .inc else returned err)
  | report pc =>
    match pc.step .accepted b with
    | (b', some pc') => some (b', report pc')
    | (b', none) => some (b', returned none)
  | returned _ => none

def UnregisterPc.step (b : Books) (metered free : Bool) (id : UInt64) :
    UnregisterPc → Option (Books × UnregisterPc)
  | lock => if free then some (b, delete) else none
  | delete =>
    some (b.deleteSession id,
      unlock (decide (id ∈ (b.manager.shards (shardOf id)).sessions)))
  | unlock ok => some (b, if ok then release else returned false)
  | release =>
    some (b.setCount (b.manager.count - 1), if metered then report .inc else returned true)
  | report pc =>
    match pc.step .closed b with
    | (b', some pc') => some (b', report pc')
    | (b', none) => some (b', returned true)
  | returned _ => none

def GetPc.step (m : SessionManager) (rfree : Bool) (id : UInt64) : GetPc → Option GetPc
  | rlock => if rfree then some lookup else none
  | lookup => some (runlock (m.get id))
  | runlock found => some (returned found)
  | returned _ => none

def nextShard (i : Fin sessionShards) : Option (Fin sessionShards) :=
  if h : i.val + 1 < sessionShards then some ⟨i.val + 1, h⟩ else none

def SnapshotPc.step (m : SessionManager) (rfree : Fin sessionShards → Bool) (c : Choice) :
    SnapshotPc → Option SnapshotPc
  | count => some (rlock ⟨0, by decide⟩ [])
  | rlock i acc => if rfree i then some (copy i acc) else none
  | copy i acc => some (runlock i (acc ++ c.walk.values (m.shards i).sessions))
  | runlock i acc =>
    match nextShard i with
    | some j => some (rlock j acc)
    | none => some (returned acc)
  | returned _ => none

def RangePc.step (m : SessionManager) (rfree : Fin sessionShards → Bool) (c : Choice) :
    RangePc → Option RangePc
  | rlock i => if rfree i then some (visit i (c.walk.values (m.shards i).sessions)) else none
  | visit i [] => some (runlock i false)
  | visit i (_ :: rest) => some (if c.stop then runlock i true else visit i rest)
  | runlock i stop =>
    match stop, nextShard i with
    | false, some j => some (rlock j)
    | _, _ => some returned
  | returned => none

/-- Which locks may be taken. -/
structure Free where
  lock : Fin sessionShards → Bool
  rlock : Fin sessionShards → Bool

namespace Prim

def step (b : Books) (metered : Bool) (free : Free) (c : Choice) : Prim → Option (Books × Prim)
  | register sess pc =>
    (pc.step b metered (free.lock (shardOf sess.id)) sess).map fun r => (r.1, register sess r.2)
  | unregister id pc =>
    (pc.step b metered (free.lock (shardOf id)) id).map fun r => (r.1, unregister id r.2)
  | get id pc => (pc.step b.manager (free.rlock (shardOf id)) id).map fun pc => (b, get id pc)
  | snapshot pc => (pc.step b.manager free.rlock c).map fun pc => (b, snapshot pc)
  | range pc => (pc.step b.manager free.rlock c).map fun pc => (b, range pc)

/-- The shard whose lock the method has. -/
def writes : Prim → Option (Fin sessionShards)
  | register sess .check | register sess .load | register sess (.cas _) | register sess .store
  | register sess (.unlock _) => some (shardOf sess.id)
  | unregister id .delete | unregister id (.unlock _) => some (shardOf id)
  | _ => none

/-- The shard whose read lock the method has. -/
def reads : Prim → Option (Fin sessionShards)
  | get id .lookup | get id (.runlock _) => some (shardOf id)
  | snapshot (.copy i _) | snapshot (.runlock i _) => some i
  | range (.visit i _) | range (.runlock i _) => some i
  | _ => none

def returned : Prim → Bool
  | register _ (.returned _) | unregister _ (.returned _) | get _ (.returned _)
  | snapshot (.returned _) | range .returned => true
  | _ => false

end Prim

/-! ### Goroutines -/

/-- The two loops with what they accumulate: the first error of `CloseAll`, and how many
sessions `Sweep` has closed. -/
inductive Loop
  | closeAll (firstErr : Option Err)
  | sweep (closed : Nat)
  deriving DecidableEq, Repr

/-- A loop between its calls: before the context is tested; before the next session;
in its `Close`. -/
inductive LoopPc
  | head
  | next (sessions : List Session)
  | close (sess : Session) (rest : List Session)
  | returned
  deriving DecidableEq, Repr

/-- `nilSession` is `Register(nil)`, which has returned `ErrInvalidArgument`.  A loop that
is in a method has the sessions still to come. -/
inductive Place
  | nilSession
  | call (p : Prim)
  | inLoop (loop : Loop) (p : Prim) (rest : List Session)
  | atLoop (loop : Loop) (pc : LoopPc)
  deriving DecidableEq, Repr

structure Goroutine where
  metered : Bool
  place : Place
  deriving DecidableEq, Repr

namespace Loop

/-- After the `Close` of a session, under `safeSessionCall` or the `safeSessionClose` of
the heartbeat, for which a `Close` that takes too long is an error too. -/
def closed (o : Outcome) : Loop → Loop
  | closeAll firstErr => closeAll (firstErr.or (safeSessionCall o))
  | sweep n => sweep (if safeSessionCall o = none then n + 1 else n)

/-- A loop between its calls. -/
def step (c : Choice) (loop : Loop) : LoopPc → Option Place
  | .head =>
    some (if c.cancelled then .atLoop loop .returned else .inLoop loop (.snapshot .count) [])
  | .next [] =>
    some (.atLoop loop (match loop with | closeAll _ => .head | sweep _ => .returned))
  | .next (sess :: rest) =>
    match loop with
    | closeAll _ => some (.atLoop loop (.close sess rest))
    | sweep _ => some (.atLoop loop (if c.idle then .close sess rest else .next rest))
  | .close sess rest => some (.inLoop (loop.closed c.close) (.unregister sess.id .lock) rest)
  | .returned => none

/-- A loop whose call has returned. -/
def resume (loop : Loop) (rest : List Session) : Prim → Option Place
  | .snapshot (.returned sessions) =>
    match loop, sessions with
    | closeAll _, [] => some (.atLoop loop .returned)
    | _, _ => some (.atLoop loop (.next sessions))
  | .unregister _ (.returned _) => some (.atLoop loop (.next rest))
  | _ => none

end Loop

namespace Place

def step (b : Books) (metered : Bool) (free : Free) (c : Choice) :
    Place → Option (Books × Place)
  | nilSession => none
  | call p => (p.step b metered free c).map fun r => (r.1, call r.2)
  | inLoop loop p rest =>
    match loop.resume rest p with
    | some place => some (b, place)
    | none => (p.step b metered free c).map fun r => (r.1, inLoop loop r.2 rest)
  | atLoop loop pc => (loop.step c pc).map fun place => (b, place)

/-- The method that is running or, when it was called by a client, has returned. -/
def prim : Place → Option Prim
  | call p | inLoop _ p _ => some p
  | _ => none

def returned : Place → Bool
  | nilSession | atLoop _ .returned => true
  | call p => p.returned
  | _ => false

end Place

namespace Goroutine

def prim (g : Goroutine) : Option Prim := g.place.prim

def writes (g : Goroutine) : Option (Fin sessionShards) := g.prim.bind Prim.writes

def reads (g : Goroutine) : Option (Fin sessionShards) := g.prim.bind Prim.reads

end Goroutine

structure Sessions where
  books : Books
  goroutines : List Goroutine

inductive Request
  | register (sess : Option Session)
  | unregister (id : UInt64)
  | get (id : UInt64)
  | snapshot
  | range
  | closeAll
  | sweep
  deriving DecidableEq, Repr

def Request.place : Request → Place
  | register none => .nilSession
  | register (some sess) => .call (.register sess .lock)
  | unregister id => .call (.unregister id .lock)
  | get id => .call (.get id .rlock)
  | snapshot => .call (.snapshot .count)
  | range => .call (.range (.rlock ⟨0, by decide⟩))
  | closeAll => .atLoop (.closeAll none) .head
  | sweep => .inLoop (.sweep 0) (.snapshot .count) []

inductive SessionAct
  | start (metered : Bool) (r : Request)
  | nextID
  | step (n : Nat) (c : Choice)

namespace Sessions

variable (s : Sessions)

/-- A writer waits for everyone, a reader for writers. -/
def free : Free where
  lock i := decide (¬ Held Goroutine.writes s.goroutines i ∧ ¬ Held Goroutine.reads s.goroutines i)
  rlock i := decide (¬ Held Goroutine.writes s.goroutines i)

def stepGoroutine (n : Nat) (c : Choice) : Option Sessions :=
  match s.goroutines[n]? with
  | none => none
  | some g =>
    (g.place.step s.books g.metered s.free c).map fun r =>
      ⟨r.1, s.goroutines.set n { g with place := r.2 }⟩

def step : SessionAct → Option Sessions
  | .start metered r => some { s with goroutines := s.goroutines ++ [⟨metered, r.place⟩] }
  | .nextID => some { s with books := { s.books with manager := s.books.manager.takeID.2 } }
  | .step n c => s.stepGoroutine n c

/-- No call is in progress. -/
def AtRest : Prop := ∀ g ∈ s.goroutines, g.place.returned = true

instance (s : Sessions) : Decidable s.AtRest := List.decidableBAll _ _

end Sessions

def sessions (max : Int) : Machine Sessions SessionAct where
  init s := s = ⟨.new max, []⟩
  step := Sessions.step

/-! ### What a step can do -/

/-- A method that has not begun or has returned. -/
def Prim.quiet : Prim → Bool
  | register _ .lock | unregister _ .lock | get _ .rlock | snapshot .count
  | range (.rlock _) => true
  | p => p.returned

def Place.quiet (place : Place) : Bool := place.prim.all Prim.quiet

def Place.isLoop : Place → Bool
  | inLoop _ _ _ | atLoop _ _ => true
  | _ => false

/-- The place with another method in it. -/
def Place.put (p : Prim) : Place → Place
  | call _ => call p
  | inLoop loop _ rest => inLoop loop p rest
  | place => place

namespace Prim

variable {p : Prim}

theorem writes_quiet (h : p.quiet = true) : p.writes = none := by
  cases p with
  | register sess pc | unregister id pc => cases pc <;> first | rfl | cases h
  | get id pc | snapshot pc | range pc => rfl

theorem quiet_returned (h : p.returned = true) : p.quiet = true := by
  cases p with
  | register sess pc | unregister id pc | get id pc | snapshot pc =>
      cases pc <;> first | exact h | cases h
  | range pc => cases pc <;> first | exact h | cases h

end Prim

variable (b : Books) (metered : Bool) (free : Free)

/-- Every transition of a method.  Those of `Get`, `Snapshot` and `Range` change
nothing that is shared. -/
inductive Prim.Step : Prim → Books → Prim → Prop
  | enterRegister {sess : Session} (hfree : free.lock (shardOf sess.id) = true) :
    Step (.register sess .lock) b (.register sess .check)
  | duplicate {sess : Session} (hmem : sess.id ∈ (b.manager.shards (shardOf sess.id)).sessions) :
    Step (.register sess .check) b (.register sess (.unlock (some .duplicateSession)))
  | absent {sess : Session} (hmem : sess.id ∉ (b.manager.shards (shardOf sess.id)).sessions) :
    Step (.register sess .check) b (.register sess .load)
  | capacity {sess : Session} (hfull : 0 < b.manager.max ∧ b.manager.max ≤ b.manager.count) :
    Step (.register sess .load) b (.register sess (.unlock (some .sessionCapacity)))
  | room {sess : Session} (hroom : ¬ (0 < b.manager.max ∧ b.manager.max ≤ b.manager.count)) :
    Step (.register sess .load) b (.register sess (.cas b.manager.count))
  | claim {sess : Session} : Step (.register sess (.cas b.manager.count))
      (b.setCount (b.manager.count + 1)) (.register sess .store)
  | retry {sess : Session} {cur : Int} : Step (.register sess (.cas cur)) b (.register sess .load)
  | store {sess : Session} : Step (.register sess .store) (b.storeSession sess)
      (.register sess (.unlock none))
  | leaveRegister {sess : Session} {err : Option Err} (hplain : metered = false ∨ err ≠ none) :
    Step (.register sess (.unlock err)) b (.register sess (.returned err))
  | reportRegister {sess : Session} (hmetered : metered = true) :
    Step (.register sess (.unlock none)) b (.register sess (.report .inc))
  | incRegister {sess : Session} : Step (.register sess (.report .inc)) (b.incCounter .accepted)
      (.register sess (.report .count))
  | countRegister {sess : Session} : Step (.register sess (.report .count)) b
      (.register sess (.report (.set b.manager.count)))
  | setRegister {sess : Session} {value : Int} :
    Step (.register sess (.report (.set value))) (b.setGauge value)
      (.register sess (.returned none))
  | enterUnregister {id : UInt64} (hfree : free.lock (shardOf id) = true) :
    Step (.unregister id .lock) b (.unregister id .delete)
  | delete {id : UInt64} : Step (.unregister id .delete) (b.deleteSession id)
      (.unregister id (.unlock (decide (id ∈ (b.manager.shards (shardOf id)).sessions))))
  | unlockDeleted {id : UInt64} : Step (.unregister id (.unlock true)) b (.unregister id .release)
  | unlockUnknown {id : UInt64} :
    Step (.unregister id (.unlock false)) b (.unregister id (.returned false))
  | releasePlain {id : UInt64} (hplain : metered = false) :
    Step (.unregister id .release) (b.setCount (b.manager.count - 1))
      (.unregister id (.returned true))
  | releaseMetered {id : UInt64} (hmetered : metered = true) :
    Step (.unregister id .release) (b.setCount (b.manager.count - 1))
      (.unregister id (.report .inc))
  | incUnregister {id : UInt64} : Step (.unregister id (.report .inc)) (b.incCounter .closed)
      (.unregister id (.report .count))
  | countUnregister {id : UInt64} : Step (.unregister id (.report .count)) b
      (.unregister id (.report (.set b.manager.count)))
  | setUnregister {id : UInt64} {value : Int} :
    Step (.unregister id (.report (.set value))) (b.setGauge value)
      (.unregister id (.returned true))
  | get {id : UInt64} {pc pc' : GetPc} : Step (.get id pc) b (.get id pc')
  | snapshot {pc pc' : SnapshotPc} : Step (.snapshot pc) b (.snapshot pc')
  | range {pc pc' : RangePc} : Step (.range pc) b (.range pc')

variable {b b' : Books} {free : Free} {metered : Bool} {c : Choice} {p : Prim} {place : Place}

theorem Prim.step_register {sess : Session} {pc pc' : RegisterPc}
    (h : pc.step b metered (free.lock (shardOf sess.id)) sess = some (b', pc')) :
    Prim.Step b metered free (.register sess pc) b' (.register sess pc') := by
  cases pc with
  | lock =>
    simp only [RegisterPc.step] at h
    split at h
    · cases h
      exact .enterRegister ‹_›
    · cases h
  | check =>
    cases h
    split
    · exact .duplicate ‹_›
    · exact .absent ‹_›
  | load =>
    cases h
    split
    · exact .capacity ‹_›
    · exact .room ‹_›
  | cas cur =>
    simp only [RegisterPc.step] at h
    split at h
    · rename_i hcur
      subst hcur
      cases h
      exact .claim
    cases h
    exact .retry
  | store =>
    cases h
    exact .store
  | unlock err =>
    cases h
    split
    · rename_i hm
      obtain ⟨hmetered, rfl⟩ := hm
      exact .reportRegister hmetered
    rename_i hm
    refine .leaveRegister ?_
    cases metered
    · exact .inl rfl
    · exact .inr fun he => hm ⟨rfl, he⟩
  | report pc =>
    cases pc with
    | inc =>
      cases h
      exact .incRegister
    | count =>
      cases h
      exact .countRegister
    | set value =>
      cases h
      exact .setRegister
  | returned err => cases h

theorem Prim.step_unregister {id : UInt64} {pc pc' : UnregisterPc}
    (h : pc.step b metered (free.lock (shardOf id)) id = some (b', pc')) :
    Prim.Step b metered free (.unregister id pc) b' (.unregister id pc') := by
  cases pc with
  | lock =>
    simp only [UnregisterPc.step] at h
    split at h
    · cases h
      exact .enterUnregister ‹_›
    · cases h
  | delete =>
    cases h
    exact .delete
  | unlock ok =>
    cases h
    cases ok
    · exact .unlockUnknown
    · exact .unlockDeleted
  | release =>
    cases h
    cases metered
    · exact .releasePlain rfl
    · exact .releaseMetered rfl
  | report pc =>
    cases pc with
    | inc =>
      cases h
      exact .incUnregister
    | count =>
      cases h
      exact .countUnregister
    | set value =>
      cases h
      exact .setUnregister
  | returned ok => cases h

theorem Prim.step_cases {p' : Prim} (h : p.step b metered free c = some (b', p')) :
    Prim.Step b metered free p b' p' := by
  cases p with
  | register sess pc =>
    obtain ⟨⟨b1, pc1⟩, hpc, heq⟩ := Option.map_eq_some_iff.mp h
    cases heq
    exact step_register hpc
  | unregister id pc =>
    obtain ⟨⟨b1, pc1⟩, hpc, heq⟩ := Option.map_eq_some_iff.mp h
    cases heq
    exact step_unregister hpc
  | get id pc =>
    obtain ⟨pc1, -, heq⟩ := Option.map_eq_some_iff.mp h
    cases heq
    exact .get
  | snapshot pc =>
    obtain ⟨pc1, -, heq⟩ := Option.map_eq_some_iff.mp h
    cases heq
    exact .snapshot
  | range pc =>
    obtain ⟨pc1, -, heq⟩ := Option.map_eq_some_iff.mp h
    cases heq
    exact .range

theorem Place.prim_put (h : place.prim = some p) (p' : Prim) : (place.put p').prim = some p' := by
  cases place with
  | nilSession => cases h
  | call _ | inLoop _ _ _ => rfl
  | atLoop _ _ => cases h

theorem Place.quiet_prim (h : place.quiet = true) (hp : place.prim = some p) : p.quiet = true := by
  rw [Place.quiet, hp] at h
  exact h

theorem Place.quiet_returned (h : place.returned = true) : place.quiet = true := by
  cases place with
  | nilSession => rfl
  | call p => exact Prim.quiet_returned h
  | inLoop _ _ _ => cases h
  | atLoop _ _ => rfl

/-- What a goroutine has by the method it is in, it does not have when that is quiet. -/
theorem Goroutine.elim_quiet {β : Type} {f : Prim → β} {d : β}
    (hf : ∀ p, p.quiet = true → f p = d) {g : Goroutine} (h : g.place.quiet = true) :
    g.prim.elim d f = d := by
  cases hp : g.prim with
  | none => rfl
  | some p => exact hf p (Place.quiet_prim h hp)

theorem Goroutine.writes_quiet {g : Goroutine} (h : g.place.quiet = true) : g.writes = none := by
  have hnone := Goroutine.elim_quiet (fun _ => Prim.writes_quiet) h
  rw [Goroutine.writes]
  cases hp : g.prim with
  | none => rfl
  | some p =>
    rw [hp] at hnone
    exact hnone

theorem Request.quiet_place (r : Request) : r.place.quiet = true := by
  cases r with
  | register sess => cases sess <;> rfl
  | _ => rfl

theorem Loop.quiet_step {loop : Loop} {pc : LoopPc} (h : loop.step c pc = some place) :
    place.quiet = true ∧ place.isLoop = true := by
  cases pc with
  | head =>
    cases h
    split <;> exact ⟨rfl, rfl⟩
  | next sessions =>
    cases sessions with
    | nil =>
      cases h
      exact ⟨rfl, rfl⟩
    | cons sess rest =>
      cases loop <;> cases h <;> exact ⟨rfl, rfl⟩
  | close sess rest =>
    cases h
    exact ⟨rfl, rfl⟩
  | returned => cases h

theorem Loop.quiet_resume {loop : Loop} {rest : List Session} (h : loop.resume rest p = some place) :
    p.quiet = true ∧ place.quiet = true ∧ place.isLoop = true := by
  unfold resume at h
  split at h
  · split at h <;> cases h <;> exact ⟨rfl, rfl, rfl⟩
  · cases h
    exact ⟨rfl, rfl, rfl⟩
  · cases h

namespace Sessions

variable {s t : Sessions}

/-- A step of a goroutine is a step of the method it is in, or it goes from one call of
a loop to the next. -/
inductive Step (s : Sessions) : SessionAct → Sessions → Prop
  | start (metered : Bool) (r : Request) :
    Step s (.start metered r) { s with goroutines := s.goroutines ++ [⟨metered, r.place⟩] }
  | nextID : Step s .nextID { s with books := { s.books with manager := s.books.manager.takeID.2 } }
  | prim {n : Nat} {c : Choice} {g : Goroutine} {p p' : Prim} {b : Books}
    (hg : s.goroutines[n]? = some g) (hp : g.prim = some p)
    (hstep : p.step s.books g.metered s.free c = some (b, p')) :
    Step s (.step n c) ⟨b, s.goroutines.set n { g with place := g.place.put p' }⟩
  | control {n : Nat} {c : Choice} {g : Goroutine} {place : Place}
    (hg : s.goroutines[n]? = some g) (hold : g.place.quiet = true) (hnew : place.quiet = true)
    (hloop : place.isLoop = true) :
    Step s (.step n c) { s with goroutines := s.goroutines.set n { g with place := place } }

theorem step_cases {a : SessionAct} (h : s.step a = some t) : Step s a t := by
  cases a with
  | start metered r =>
    cases h
    exact .start metered r
  | nextID =>
    cases h
    exact .nextID
  | step n c =>
    simp only [step, stepGoroutine] at h
    split at h
    · cases h
    rename_i g hg
    obtain ⟨⟨b, place⟩, hplace, rfl⟩ := Option.map_eq_some_iff.mp h
    obtain ⟨metered, old⟩ := g
    cases old with
    | nilSession => cases hplace
    | call p =>
      obtain ⟨⟨b', p'⟩, hp, heq⟩ := Option.map_eq_some_iff.mp hplace
      cases heq
      exact .prim hg rfl hp
    | inLoop loop p rest =>
      simp only [Place.step] at hplace
      split at hplace
      · rename_i hres
        obtain ⟨hold, hnew, hloop⟩ := Loop.quiet_resume hres
        cases hplace
        exact .control hg hold hnew hloop
      obtain ⟨⟨b', p'⟩, hp, heq⟩ := Option.map_eq_some_iff.mp hplace
      cases heq
      exact .prim hg rfl hp
    | atLoop loop pc =>
      obtain ⟨place', hloop, heq⟩ := Option.map_eq_some_iff.mp hplace
      cases heq
      obtain ⟨hnew, hloop⟩ := Loop.quiet_step hloop
      exact .control hg rfl hnew hloop

/-- Goroutines do not go away. -/
theorem length_step {a : SessionAct} (h : s.step a = some t) :
    s.goroutines.length ≤ t.goroutines.length := by
  cases step_cases h with
  | start _ _ =>
    rw [List.length_append]
    omega
  | nextID => exact le_rfl
  | prim _ _ _ | control _ _ _ _ => rw [List.length_set]

theorem getElem?_of_step {n : Nat} (h : s.step (.step n c) = some t) :
    ∃ g, s.goroutines[n]? = some g := by
  cases step_cases h with
  | prim hg _ _ | control hg _ _ _ => exact ⟨_, hg⟩

end Sessions

end SharkSocket.Runtime
