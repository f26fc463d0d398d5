import SharkSocket.Runtime.SessionCalls

/-!
# The count of the session manager

There is no lock around the 64 shards and the counter.  `Register` claims a place in the
count before it stores the session, and `Unregister` gives it back after it has deleted
one, so the count is what is stored and what the running calls still owe (`Counted`).
A `Register` that has passed its duplicate check has the lock of the shard, which keeps
its ID out until it stores it.
-/

namespace SharkSocket.Runtime

open Lib
open Std (ExtTreeMap)

/-! ### What is stored -/

def SessionManager.stored (m : SessionManager) : Nat := ∑ i, (m.shards i).sessions.size

namespace Shard

variable {i : Fin sessionShards} (sh : Shard i)

theorem size_insert {sess : Session} (h : shardOf sess.id = i) (hid : sess.id ∉ sh.sessions) :
    (sh.insert sess h).sessions.size = sh.sessions.size + 1 := by
  rw [insert, ExtTreeMap.size_insert, if_neg (by rwa [ExtTreeMap.mem_iff_contains] at hid)]

theorem size_erase (id : UInt64) : (sh.erase id).sessions.size +
    (if id ∈ sh.sessions then 1 else 0) = sh.sessions.size := by
  simp only [erase, ExtTreeMap.size_erase, ExtTreeMap.mem_iff_contains]
  split
  · rename_i hid
    have hne : sh.sessions.size ≠ 0 := fun h0 => by
      rw [ExtTreeMap.eq_empty_iff_size_eq_zero.mpr h0] at hid
      cases hid
    omega
  · rfl

end Shard

theorem Books.stored_setShard (b : Books) (i : Fin sessionShards) (sh : Shard i) :
    (b.setShard i sh).manager.stored + (b.manager.shards i).sessions.size =
      b.manager.stored + sh.sessions.size := by
  have hupd : (fun j => ((Function.update b.manager.shards i sh) j).sessions.size) =
      Function.update (fun j => (b.manager.shards j).sessions.size) i sh.sessions.size := by
    funext j
    by_cases hj : j = i
    · subst hj
      simp
    · simp [hj]
  rw [SessionManager.stored, SessionManager.stored, Books.setShard, hupd,
    Finset.sum_update_of_mem (Finset.mem_univ i),
    ← Finset.add_sum_erase _ _ (Finset.mem_univ i), Finset.sdiff_singleton_eq_erase]
  omega

theorem Books.stored_storeSession (b : Books) {sess : Session}
    (h : sess.id ∉ (b.manager.shards (shardOf sess.id)).sessions) :
    (b.storeSession sess).manager.stored = b.manager.stored + 1 := by
  have hsum := b.stored_setShard _
    ((b.manager.shards (shardOf sess.id)).insert sess (placed_own sess))
  rw [Shard.size_insert _ _ h] at hsum
  rw [storeSession]
  omega

theorem Books.stored_deleteSession (b : Books) (id : UInt64) : (b.deleteSession id).manager.stored +
      (if id ∈ (b.manager.shards (shardOf id)).sessions then 1 else 0) = b.manager.stored := by
  have hsum := b.stored_setShard _ ((b.manager.shards (shardOf id)).erase id)
  have hsize := (b.manager.shards (shardOf id)).size_erase id
  rw [deleteSession]
  omega

/-- The sessions that a walk over the shards finds, and their number. -/
theorem length_snapshot (m : SessionManager)
    (walk : Fin sessionShards → WalkOrder (UInt64 × Session)) :
    (snapshot m.shards walk).length = m.stored := by
  simp only [snapshot, List.length_flatMap, SessionManager.stored, WalkOrder.length_values,
    Fin.sum_univ_def]

theorem nodup_storedIDs (m : SessionManager)
    (walk : Fin sessionShards → WalkOrder (UInt64 × Session)) :
    ((snapshot m.shards walk).map Session.id).Nodup := by
  refine List.Nodup.map_on ?_ (nodup_snapshot m.shards walk)
  intro s hs s' hs' hid
  obtain ⟨i, k, hk⟩ := mem_snapshot.mp hs
  obtain ⟨j, l, hl⟩ := mem_snapshot.mp hs'
  have hkl : k = l := by rw [← (m.shards i).keyed k s hk, ← (m.shards j).keyed l s' hl, hid]
  subst hkl
  have hij : i = j := by
    rw [← (m.shards i).placed k (mem_iff_getElem?.mpr ⟨_, hk⟩),
      (m.shards j).placed k (mem_iff_getElem?.mpr ⟨_, hl⟩)]
  subst hij
  rw [hk] at hl
  cases hl
  rfl

/-! ### What a running call owes -/

namespace Prim

variable {b b' : Books} {metered : Bool} {free : Free} {p p' q : Prim}

/-- Between the claim and the store of `Register`, and between the deletion and the
release of `Unregister`. -/
def owes : Prim → Nat
  | register _ .store | unregister _ (.unlock true) | unregister _ .release => 1
  | _ => 0

/-- What `Register` has found out about its shard and the ceiling still holds. -/
def Admissible (m : SessionManager) : Prim → Prop
  | register sess .load | register sess .store => sess.id ∉ (m.shards (shardOf sess.id)).sessions
  | register sess (.cas cur) =>
    sess.id ∉ (m.shards (shardOf sess.id)).sessions ∧ (0 < m.max → cur < m.max)
  | _ => True

theorem owes_quiet (h : p.quiet = true) : p.owes = 0 := by
  cases p with
  | register sess pc | unregister id pc => cases pc <;> first | rfl | cases h
  | get id pc | snapshot pc | range pc => rfl

theorem admissible_quiet (m : SessionManager) (h : p.quiet = true) : p.Admissible m := by
  cases p with
  | register sess pc => cases pc <;> trivial
  | _ => trivial

variable (h : Step b metered free p b' p')
include h

/-- A method takes a lock only when it is free. -/
theorem Step.writes (i : Fin sessionShards)
    (hi : p'.writes = some i) : p.writes = some i ∨ free.lock i = true := by
  cases h with
  | enterRegister hfree | enterUnregister hfree =>
    cases hi
    exact .inr hfree
  | _ => first | exact .inl hi | cases hi

/-- A session is stored in the shard whose lock the method has. -/
theorem Step.stored {id : UInt64} (hid : id ∈ (b'.manager.shards (shardOf id)).sessions) :
    id ∈ (b.manager.shards (shardOf id)).sessions ∨ p.writes = some (shardOf id) := by
  cases h with
  | @store sess =>
    by_cases hi : shardOf id = shardOf sess.id
    · exact .inr (by rw [hi]; rfl)
    simp only [Books.storeSession, Books.setShard, Function.update_of_ne hi] at hid
    exact .inl hid
  | @delete id' =>
    by_cases hi : shardOf id = shardOf id'
    · exact .inr (by rw [hi]; rfl)
    simp only [Books.deleteSession, Books.setShard, Function.update_of_ne hi] at hid
    exact .inl hid
  | _ => exact .inl hid

theorem Step.max : b'.manager.max = b.manager.max := by
  cases h <;> rfl

/-- What another `Register` has found out does not change, since it has the lock of its
own shard. -/
theorem Step.admissible_other
    (hother : ∀ i, q.writes = some i → p.writes ≠ some i) (hq : q.Admissible b.manager) :
    q.Admissible b'.manager := by
  have habsent : ∀ sess : Session, q.writes = some (shardOf sess.id) →
      sess.id ∉ (b.manager.shards (shardOf sess.id)).sessions →
      sess.id ∉ (b'.manager.shards (shardOf sess.id)).sessions := by
    intro sess hw hnot hmem
    rcases h.stored hmem with hmem | hp
    · exact hnot hmem
    · exact hother _ hw hp
  cases q with
  | register sess pc =>
    cases pc with
    | load | store => exact habsent sess rfl hq
    | cas cur => exact ⟨habsent sess rfl hq.1, by rw [h.max]; exact hq.2⟩
    | _ => trivial
  | _ => trivial

theorem Step.admissible (hp : p.Admissible b.manager) : p'.Admissible b'.manager := by
  cases h with
  | absent hmem => exact hmem
  | room hroom => exact ⟨hp, fun hmax => by omega⟩
  | claim | retry => exact hp.1
  | _ => trivial

/-- **The count moves with what is stored and owed.** -/
theorem Step.count (hp : p.Admissible b.manager) :
    b'.manager.count - b'.manager.stored - p'.owes = b.manager.count - b.manager.stored - p.owes := by
  cases h with
  | claim | releasePlain | releaseMetered =>
    simp only [owes, Books.setCount, SessionManager.stored]
    omega
  | @store sess =>
    have hsum := b.stored_storeSession hp
    have hcount : (b.storeSession sess).manager.count = b.manager.count := rfl
    simp only [owes]
    omega
  | @delete id =>
    have hsum := b.stored_deleteSession id
    have hcount : (b.deleteSession id).manager.count = b.manager.count := rfl
    by_cases hid : id ∈ (b.manager.shards (shardOf id)).sessions
    · rw [if_pos hid] at hsum
      simp only [hid, decide_true, owes]
      omega
    rw [if_neg hid] at hsum
    simp only [hid, decide_false, owes]
    omega
  | _ => rfl

theorem Step.count_le (hp : p.Admissible b.manager)
    (hmax : 0 < b.manager.max) (hle : b.manager.count ≤ b.manager.max) :
    b'.manager.count ≤ b'.manager.max := by
  cases h with
  | claim => exact hp.2 hmax
  | releasePlain | releaseMetered =>
    simp only [Books.setCount]
    omega
  | _ => exact hle

end Prim

/-! ### The invariant -/

def Goroutine.owes (g : Goroutine) : Nat := g.prim.elim 0 Prim.owes

def Goroutine.Admissible (m : SessionManager) (g : Goroutine) : Prop :=
  ∀ p, g.prim = some p → p.Admissible m

namespace Goroutine

variable {g : Goroutine}

theorem owes_eq {p : Prim} (h : g.prim = some p) : g.owes = p.owes := by rw [owes, h]; rfl

theorem owes_quiet (h : g.place.quiet = true) : g.owes = 0 :=
  elim_quiet (fun _ => Prim.owes_quiet) h

theorem admissible_quiet (m : SessionManager) (h : g.place.quiet = true) : g.Admissible m :=
  fun _ hp => Prim.admissible_quiet m (Place.quiet_prim h hp)

theorem writes_eq {p : Prim} (h : g.prim = some p) : g.writes = p.writes := by rw [writes, h]; rfl

end Goroutine

namespace Sessions

variable {s t : Sessions}

structure Counted (s : Sessions) : Prop where
  exclusive : Exclusive Goroutine.writes s.goroutines
  admissible : ∀ (n : Nat) (g : Goroutine), s.goroutines[n]? = some g →
    g.Admissible s.books.manager
  count : s.books.manager.count =
    s.books.manager.stored + ((s.goroutines.map Goroutine.owes).sum : Nat)
  bounded : 0 < s.books.manager.max → s.books.manager.count ≤ s.books.manager.max

theorem counted_new (max : Int) : Counted ⟨.new max, []⟩ where
  exclusive := exclusive_nil _
  admissible n g hg := by cases hg
  count := by
    have hstored : (SessionManager.new max).stored = 0 :=
      Finset.sum_eq_zero fun i _ => ExtTreeMap.size_empty
    simp [Books.new, hstored]
    rfl
  bounded := le_of_lt

theorem Counted.start (h : Counted s) (metered : Bool) (r : Request) :
    Counted { s with goroutines := s.goroutines ++ [⟨metered, r.place⟩] } where
  exclusive := h.exclusive.concat (Goroutine.writes_quiet r.quiet_place)
  admissible n g hg := by
    rcases getElem?_concat_eq_some.mp hg with hg | ⟨-, rfl⟩
    · exact h.admissible n g hg
    · exact Goroutine.admissible_quiet _ r.quiet_place
  count := by
    rw [List.map_append, List.map_singleton, List.sum_append, Goroutine.owes_quiet r.quiet_place]
    exact h.count
  bounded := h.bounded

theorem Counted.control (h : Counted s) {n : Nat} {g : Goroutine} {place : Place}
    (hg : s.goroutines[n]? = some g) (hold : g.place.quiet = true) (hnew : place.quiet = true) :
    Counted { s with goroutines := s.goroutines.set n { g with place := place } } where
  exclusive := h.exclusive.set hg fun i hi => by
    rw [Goroutine.writes_quiet hnew] at hi
    cases hi
  admissible m g' hg' := by
    rcases getElem?_set_eq_some hg' with ⟨-, rfl⟩ | ⟨-, hg'⟩
    · exact Goroutine.admissible_quiet _ hnew
    · exact h.admissible m g' hg'
  count := by
    have hsum := sum_map_set Goroutine.owes hg { g with place := place }
    rw [Goroutine.owes_quiet hold, Goroutine.owes_quiet hnew] at hsum
    have hcount := h.count
    dsimp only
    omega
  bounded := h.bounded

theorem Counted.prim (h : Counted s) {n : Nat} {g : Goroutine} {p p' : Prim} {b : Books}
    (hg : s.goroutines[n]? = some g) (hp : g.prim = some p)
    (hstep : Prim.Step s.books g.metered s.free p b p') :
    Counted ⟨b, s.goroutines.set n { g with place := g.place.put p' }⟩ := by
  have hput : ({ g with place := g.place.put p' }).prim = some p' :=
    Place.prim_put hp p'
  have hadm := h.admissible n g hg p hp
  refine ⟨h.exclusive.set hg ?_, ?_, ?_, ?_⟩
  · intro i hi
    rw [Goroutine.writes_eq hput] at hi
    rw [Goroutine.writes_eq hp]
    refine (hstep.writes i hi).imp_right fun hfree => ?_
    exact (of_decide_eq_true hfree).1
  · intro m g' hg' q hq
    rcases getElem?_set_eq_some hg' with ⟨-, rfl⟩ | ⟨hmn, hg'⟩
    · rw [hput] at hq
      cases hq
      exact hstep.admissible hadm
    -- the one that moved holds another lock
    refine hstep.admissible_other (fun i hqi hpi => hmn ?_) (h.admissible m g' hg' q hq)
    exact h.exclusive m n g' g i hg' hg (by rw [Goroutine.writes_eq hq, hqi])
      (by rw [Goroutine.writes_eq hp, hpi])
  · have hsum := sum_map_set Goroutine.owes hg { g with place := g.place.put p' }
    rw [Goroutine.owes_eq hput, Goroutine.owes_eq hp] at hsum
    have hcount := hstep.count hadm
    have hold := h.count
    dsimp only
    omega
  · intro hmax
    rw [hstep.max] at hmax
    exact hstep.count_le hadm hmax (h.bounded hmax)

theorem Counted.step {a : SessionAct} (h : Counted s) (hst : s.step a = some t) : Counted t := by
  cases step_cases hst with
  | start metered r => exact h.start metered r
  | nextID => exact ⟨h.exclusive, h.admissible, h.count, h.bounded⟩
  | prim hg hp hstep => exact h.prim hg hp (Prim.step_cases hstep)
  | control hg hold hnew _ => exact h.control hg hold hnew

theorem max_step {a : SessionAct} (hst : s.step a = some t) :
    t.books.manager.max = s.books.manager.max := by
  cases step_cases hst with
  | prim _ _ hstep => exact (Prim.step_cases hstep).max
  | _ => rfl

theorem counted_of_reachable {max : Int} (h : (sessions max).Reachable s) :
    Counted s ∧ s.books.manager.max = max := by
  refine h.inv (I := fun s => Counted s ∧ s.books.manager.max = max) ?_ ?_
  · rintro s rfl
    exact ⟨counted_new max, rfl⟩
  · rintro s a t ⟨hc, hmax⟩ - hst
    exact ⟨hc.step hst, (max_step hst).trans hmax⟩

theorem AtRest.owes (h : s.AtRest) : (s.goroutines.map Goroutine.owes).sum = 0 := by
  refine List.sum_eq_zero fun k hk => ?_
  obtain ⟨g, hg, rfl⟩ := List.mem_map.mp hk
  exact Goroutine.owes_quiet (Place.quiet_returned (h g hg))

end Sessions

/-! ### A `Register` that fails -/

/-- A `Register` that has returned an error. -/
def Place.registerFailed : Place → Bool
  | nilSession | call (.register _ (.returned (some _))) => true
  | _ => false

/-- A `Register` that has not claimed a place in the count. -/
def Place.unclaimed : Place → Bool
  | nilSession => true
  | call (.register _ pc) =>
    match pc with
    | .lock | .check | .load | .cas _ | .unlock (some _) | .returned (some _) => true
    | _ => false
  | _ => false

theorem Place.unclaimed_isLoop {place : Place} (h : place.isLoop = true) :
    place.unclaimed = false := by
  cases place <;> first | rfl | cases h

theorem Place.unclaimed_of_registerFailed {place : Place} (h : place.registerFailed = true) :
    place.unclaimed = true := by
  unfold registerFailed at h
  split at h
  · rfl
  · rfl
  · cases h

namespace Sessions

variable {s t : Sessions}

theorem unclaimed_put {place : Place} {p p' : Prim} {b b' : Books} {metered : Bool} {free : Free}
    (hp : place.prim = some p) (hstep : Prim.Step b metered free p b' p')
    (hnew : (place.put p').unclaimed = true) :
    place.unclaimed = true ∧ b'.manager.count = b.manager.count ∧
      b'.manager.shards = b.manager.shards := by
  cases place with
  | nilSession => cases hp
  | inLoop _ _ _ => cases hnew
  | atLoop _ _ => cases hp
  | call q =>
    cases hp
    cases hstep with
    | @leaveRegister sess err _ =>
      cases err with
      | none => cases hnew
      | some e => exact ⟨rfl, rfl, rfl⟩
    | _ => first | exact ⟨rfl, rfl, rfl⟩ | cases hnew

/-- A `Register` without a place in the count had none before, and its own step changed
neither the count nor the shards. -/
theorem unclaimed_step {a : SessionAct} (hst : s.step a = some t) {n : Nat} {g g' : Goroutine}
    (hg : s.goroutines[n]? = some g) (hg' : t.goroutines[n]? = some g')
    (h : g'.place.unclaimed = true) : g.place.unclaimed = true ∧ ∀ c, a = .step n c →
      t.books.manager.count = s.books.manager.count ∧
      t.books.manager.shards = s.books.manager.shards := by
  have hsame : s.goroutines[n]? = some g' → g.place.unclaimed = true := by
    intro hsame
    rw [hg] at hsame
    cases hsame
    exact h
  cases step_cases hst with
  | start metered r =>
    rw [List.getElem?_append_left (List.getElem?_eq_some_iff.mp hg).1] at hg'
    exact ⟨hsame hg', fun c hc => (by cases hc)⟩
  | nextID => exact ⟨hsame hg', fun c hc => (by cases hc)⟩
  | @prim m _ q p p' b hq hp hstep =>
    rcases getElem?_set_eq_some hg' with ⟨rfl, rfl⟩ | ⟨hnm, hg'⟩
    · rw [hg] at hq
      cases hq
      obtain ⟨hold, hkept⟩ := unclaimed_put hp (Prim.step_cases hstep) h
      exact ⟨hold, fun _ _ => hkept⟩
    · exact ⟨hsame hg', fun c hc => absurd (by cases hc; rfl) hnm⟩
  | @control m _ q place hq _ _ hloop =>
    refine ⟨?_, fun _ _ => ⟨rfl, rfl⟩⟩
    rcases getElem?_set_eq_some hg' with ⟨rfl, rfl⟩ | ⟨-, hg'⟩
    · rw [Place.unclaimed_isLoop hloop] at h
      cases h
    · exact hsame hg'

theorem unclaimed_run {max : Int} {as : List SessionAct} {n : Nat} {g g' : Goroutine}
    (hrun : (sessions max).run s as = some t) (hg : s.goroutines[n]? = some g)
    (hg' : t.goroutines[n]? = some g') (h : g'.place.unclaimed = true) :
    g.place.unclaimed = true :=
  Machine.run_back_at (p := goroutines)
    (fun _ _ _ => length_step) (fun _ _ _ _ _ hst hg hg' h => (unclaimed_step hst hg hg' h).1)
    hrun hg hg' h

end Sessions

/-- **The count under concurrency.**  In every state that any calls can reach, the
sessions stored are at most the count and the count at most the ceiling, no ID is stored
twice, and with no call in progress the count is what is stored.  A `Register` that ends
in an error has changed neither. -/
theorem session_count (max : Int) (hmax : 0 < max) (s : Sessions)
    (h : (sessions max).Reachable s) :
    (s.books.manager.stored : Int) ≤ s.books.manager.count ∧ s.books.manager.count ≤ max ∧
    (∀ walk, ((snapshot s.books.manager.shards walk).map Session.id).Nodup ∧
      (snapshot s.books.manager.shards walk).length = s.books.manager.stored) ∧
    (s.AtRest → s.books.manager.count = s.books.manager.stored) ∧
    ∀ n c s' as t g, s.step (.step n c) = some s' → (sessions max).run s' as = some t →
      t.goroutines[n]? = some g → g.place.registerFailed = true →
      s'.books.manager.count = s.books.manager.count ∧
      s'.books.manager.shards = s.books.manager.shards := by
  obtain ⟨hc, rfl⟩ := Sessions.counted_of_reachable h
  have hcount := hc.count
  refine ⟨by omega, hc.bounded hmax, fun walk => ⟨nodup_storedIDs _ walk, length_snapshot _ walk⟩,
    fun hrest => ?_, ?_⟩
  · have := hrest.owes
    omega
  · intro n c s' as t g hst hrun hg hfail
    obtain ⟨g0, hg0⟩ := Sessions.getElem?_of_step hst
    obtain ⟨g1, hg1⟩ := getElem?_of_length_le (Sessions.length_step hst) hg0
    have hunclaimed := Sessions.unclaimed_run hrun hg1 hg (Place.unclaimed_of_registerFailed hfail)
    exact (Sessions.unclaimed_step hst hg0 hg1 hunclaimed).2 c rfl

/-- `Register` twice with a ceiling of one: the second is refused. -/
def registerTwo : List SessionAct :=
  [SessionAct.start false (.register (some ⟨1, false⟩)),
    SessionAct.start false (.register (some ⟨2, false⟩))] ++
    List.replicate 6 (SessionAct.step 0 .steady) ++ List.replicate 4 (SessionAct.step 1 .steady)

theorem session_count_registerTwo : ∃ s : Sessions, (sessions 1).Reachable s ∧
    s.books.manager.count = 1 ∧ s.books.manager.count = s.books.manager.stored := by
  have hrun : ((sessions 1).run ⟨.new 1, []⟩ registerTwo).map
      (fun s => (s.books.manager.count, decide s.AtRest)) = some (1, true) := by decide +kernel
  obtain ⟨s, hr, heq⟩ := Machine.exists_reachable hrun rfl
  rw [Prod.mk.injEq] at heq
  exact ⟨s, hr, heq.1, (session_count 1 (by decide) s hr).2.2.2.1 (of_decide_eq_true heq.2)⟩

end SharkSocket.Runtime
