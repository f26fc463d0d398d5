import SharkSocket.Udp.Server

/-!
# The session table and `MaxSessions`

A slot is taken before a session is made and returned by `session.Close`.  The
entry in the table is removed elsewhere, by `closeSession`.  So the quota bounds
the sessions that are open, and the table can hold more: a plugin that closes a
session and returns `ErrPluginDrop`, as `AutoBan` does, returns the slot and
leaves the entry.

As long as the read loop asks for a slot only when every session in the table is
open, each entry stands for a slot in use and the table is bounded
(`table_le_maxSessions`).  `dropped_sessions_outgrow_table` is the other case.
-/

namespace SharkSocket.Udp

open Lib
open Std (ExtTreeMap)

namespace Server

/-- The read loop asks for a slot only when every session in the table is open. -/
def AdmitsBesideOpen (s : Server) : Action → Prop
  | .read _ =>
    match s.reader with
    | .acquire _ => ∀ e ∈ s.table.toList, ∀ sess ∈ s.heap[e.2]?, sess.state = .active
    | _ => True
  | _ => True

def asksForSlot (s : Server) : Action → Bool
  | .read _ =>
    match s.reader with
    | .acquire _ => true
    | _ => false
  | _ => false

theorem admitsBesideOpen_iff (s : Server) (a : Action) : (s.asksForSlot a = true →
      ∀ e ∈ s.table.toList, ∀ sess ∈ s.heap[e.2]?, sess.state = .active) ↔
      s.AdmitsBesideOpen a := by
  unfold asksForSlot AdmitsBesideOpen
  cases a with
  | read reply =>
    cases s.reader with
    | acquire addr => exact ⟨fun h => h rfl, fun h _ => h⟩
    | _ => exact ⟨fun _ => trivial, fun _ h => Bool.noConfusion h⟩
  | _ => exact ⟨fun _ => trivial, fun _ h => Bool.noConfusion h⟩

instance (s : Server) (a : Action) : Decidable (s.AdmitsBesideOpen a) :=
  decidable_of_iff _ (admitsBesideOpen_iff s a)

/-- A session with a slot that is not in the table yet. -/
def pending (s : Server) : Nat :=
  match s.reader with
  | .store _ => 1
  | _ => 0

structure Bounded (opts : Options) (s : Server) : Prop where
  keyed : ∀ (key : PeerKey) (i : Nat), s.table[key]? = some i → s.keyOf i = some key
  open_slot : ∀ sess ∈ s.heap, sess.state = .active → sess.slot = true
  slots : ∃ q, s.quota = some q ∧ q.maxTotal = opts.maxSessions ∧
    q.total = (s.heap.countP Session.slot : Int)
  room : ((s.table.size + s.pending : Nat) : Int) ≤ opts.maxSessions

variable {opts : Options} {s t : Server}

theorem bounded_start (hmax : 0 < opts.maxSessions) : Bounded opts (.start opts) where
  keyed key i h := by simp [start] at h
  open_slot sess h := by simp [start] at h
  slots := ⟨.new opts.maxSessions opts.maxSessionsPerPeer, by simp [start, hmax], rfl, rfl⟩
  room := by simpa [start, pending] using hmax.le

/-! ### Steps that admit nobody -/

/-- `t` is `s` after a step that opens no session, takes or returns no slot, and
stores nothing in the table. -/
structure Admitless (s t : Server) : Prop where
  keys : t.heap.map Session.key = s.heap.map Session.key
  slots : t.heap.map Session.slot = s.heap.map Session.slot
  states : ∀ (i : Nat) (new : Session), t.heap[i]? = some new → new.state = .active →
    ∃ old, s.heap[i]? = some old ∧ old.state = .active
  table : t.table = s.table ∨ ∃ key, t.table = s.table.erase key
  quota : t.quota = s.quota
  pending : t.pending ≤ s.pending

theorem Bounded.admitless (h : s.Bounded opts) (ha : Admitless s t) : t.Bounded opts := by
  refine ⟨?_, ?_, ?_, ?_⟩
  · intro key j hj
    have hold : s.table[key]? = some j := by
      rcases ha.table with htab | ⟨k, htab⟩
      · rwa [htab] at hj
      rw [htab] at hj
      exact table_deleteKey hj
    rw [keyOf, ← List.getElem?_map, ha.keys, List.getElem?_map]
    exact h.keyed key j hold
  · intro new hnew hactive
    obtain ⟨i, hi⟩ := List.mem_iff_getElem?.mp hnew
    obtain ⟨old, hold, hstate⟩ := ha.states i new hi hactive
    have hslot : old.slot = true := h.open_slot old (List.mem_of_getElem? hold) hstate
    have heq := congrArg (·[i]?) ha.slots
    simp only [List.getElem?_map, hi, hold, Option.map_some, Option.some.injEq] at heq
    exact heq.trans hslot
  · obtain ⟨q, hq, hmax, htotal⟩ := h.slots
    refine ⟨q, ha.quota.trans hq, hmax, ?_⟩
    have hcount : ∀ l : List Session, l.countP Session.slot = (l.map Session.slot).countP id :=
      fun l => by rw [List.countP_map]; rfl
    rw [htotal, hcount, hcount, ha.slots]
  · have hsize : t.table.size ≤ s.table.size := by
      rcases ha.table with htab | ⟨k, htab⟩
      · rw [htab]
      rw [htab]
      exact ExtTreeMap.size_erase_le
    have hroom := h.room
    have hpend := ha.pending
    omega

/-- The heap and the quota are left alone. -/
theorem admitless_of_eq (hheap : t.heap = s.heap) (hquota : t.quota = s.quota)
    (htable : t.table = s.table ∨ ∃ key, t.table = s.table.erase key)
    (hpending : t.pending ≤ s.pending) : Admitless s t where
  keys := by rw [hheap]
  slots := by rw [hheap]
  states i new hi ha := ⟨new, hheap ▸ hi, ha⟩
  table := htable
  quota := hquota
  pending := hpending

theorem admitless_modify (i : Nat) {f : Session → Session} (hkey : ∀ sess, (f sess).key = sess.key)
    (hslot : ∀ sess, (f sess).slot = sess.slot)
    (hstate : ∀ sess, (f sess).state = .active → sess.state = .active) :
    Admitless s (s.modify i f) where
  keys := map_modify_of_eq hkey s.heap i
  slots := map_modify_of_eq hslot s.heap i
  states j new hj ha := by
    simp only [modify, List.getElem?_modify] at hj
    obtain ⟨old, hold, rfl⟩ := Option.map_eq_some_iff.mp hj
    refine ⟨old, hold, ?_⟩
    split at ha
    · exact hstate old ha
    · exact ha
  table := .inl rfl
  quota := rfl
  pending := le_refl _

theorem admitless_markClosed (s : Server) (i : Nat) : Admitless s (s.markClosed i) :=
  admitless_modify i (fun _ => rfl) (fun _ => rfl) (fun _ h => by cases h)

variable {pc : ReadPc} {i : Nat}

theorem admitless_goto (s : Server) (hpc : (s.goto pc).pending = 0) : Admitless s (s.goto pc) :=
  admitless_of_eq rfl rfl (.inl rfl) (by omega)

/-- Whoever makes it, a step of `closeSession` admits nobody. -/
theorem admitless_call {c c' : CloseCall} (h : CallStep s c t c') : Admitless s t := by
  cases h with
  | gone | unregister | closed | onClose => exact admitless_of_eq rfl rfl (.inl rfl) (le_refl _)
  | delete => exact admitless_of_eq rfl rfl (.inr ⟨_, rfl⟩) (le_refl _)
  | mark i => exact admitless_markClosed s i

variable (h : s.Bounded opts)
include h

theorem Bounded.goto (hpc : (s.goto pc).pending = 0) :
    (s.goto pc).Bounded opts :=
  h.admitless (admitless_goto s hpc)

/-! ### Steps that admit a session -/

theorem Bounded.size_le
    (hopen : ∀ e ∈ s.table.toList, ∀ sess ∈ s.heap[e.2]?, sess.state = .active) :
    s.table.size ≤ s.heap.countP Session.slot := by
  refine size_le_countP s.table s.heap Session.key Session.slot ?_
  intro key i hi
  obtain ⟨sess, hsess, hkey⟩ := Option.map_eq_some_iff.mp (h.keyed key i hi)
  have hactive : sess.state = .active :=
    hopen (key, i) (ExtTreeMap.mem_toList_iff_getElem?_eq_some.mpr hi) sess hsess
  exact ⟨sess, hsess, hkey, h.open_slot sess (List.mem_of_getElem? hsess) hactive⟩

theorem Bounded.stepAcquire (hmax : 0 < opts.maxSessions) (addr : UDPAddr)
    (hopen : ∀ e ∈ s.table.toList, ∀ sess ∈ s.heap[e.2]?, sess.state = .active) :
    (s.stepAcquire addr).Bounded opts := by
  obtain ⟨q, hq, hqmax, htotal⟩ := h.slots
  have hsize := h.size_le hopen
  unfold Server.stepAcquire
  rw [hq]
  simp only
  split
  · rename_i r hacq
    obtain ⟨hr, hrmax, hlt⟩ := Shared.PeerQuota.tryAcquire_true hacq
    refine ⟨?_, ?_, ⟨r, rfl, hrmax.trans hqmax, ?_⟩, ?_⟩
    · intro key i hi
      obtain ⟨sess, hsess, hkey⟩ := Option.map_eq_some_iff.mp (h.keyed key i hi)
      have hi : i < s.heap.length := (List.getElem?_eq_some_iff.mp hsess).1
      simp [keyOf, newSession, List.getElem?_append_left hi, hsess, hkey]
    · exact forall_mem_concat h.open_slot fun _ => rfl
    · simp [newSession, hr, htotal]
    · simp only [newSession, pending]
      omega
  · exact h.goto rfl

theorem Bounded.store {sess : Session} (hr : s.reader = .store i) (hsess : s.heap[i]? = some sess) :
    ({ s with table := s.table.insert sess.key i, reader := .register i } :
      Server).Bounded opts := by
  refine ⟨forall_insert h.keyed (by simp [keyOf, hsess]), h.open_slot, h.slots, ?_⟩
  have hroom := h.room
  have hsize : (s.table.insert sess.key i).size ≤ s.table.size + 1 := ExtTreeMap.size_insert_le
  simp only [pending, hr] at hroom ⊢
  omega

/-- The slot that `Close` returns is the session's own. -/
theorem Bounded.release (hs : s.stepRelease i = some t) : t.Bounded opts := by
  unfold stepRelease at hs
  split at hs
  · cases hs
  rename_i sess hsess
  split at hs
  · rename_i hclosed
    cases hs
    obtain ⟨q, hq, hmax, htotal⟩ := h.slots
    have hset : s.heap.modify i (fun sess => { sess with slot := false })
        = s.heap.set i { sess with slot := false } := by
      rw [List.modify_eq_set_getElem?, hsess]
      rfl
    refine ⟨?_, ?_, ⟨q.release sess.ip, by rw [hq]; rfl, hmax, ?_⟩, h.room⟩
    · intro key j hj
      exact (keyOf_modify s i (f := fun sess => { sess with slot := false })
        (fun _ => rfl) j).trans (h.keyed key j hj)
    · intro new hnew hactive
      rw [modify, hset] at hnew
      rcases List.mem_or_eq_of_mem_set hnew with hnew | rfl
      · exact h.open_slot new hnew hactive
      rw [hclosed.1] at hactive
      cases hactive
    · obtain ⟨rest, hperm, hperm'⟩ := exists_perm_set hsess
      rw [modify, hset, (hperm' _).countP_eq]
      rw [hperm.countP_eq] at htotal
      simp [hclosed.2] at htotal ⊢
      have hrelease : (q.release sess.ip).total = q.total - 1 := rfl
      omega
  · cases hs

theorem Bounded.stepClose
    (hs : (s.stepClose i).map (fun (t, back) => if back then t.goto pc else t) = some t)
    (hpc : (s.goto pc).pending = 0) : t.Bounded opts := by
  obtain ⟨⟨u, back⟩, hu, rfl⟩ := Option.map_eq_some_iff.mp hs
  rcases stepClose_cases hu with ⟨rfl, rfl⟩ | ⟨rfl, rfl⟩
  · exact h.admitless (admitless_markClosed s i)
  · exact h.goto hpc

theorem Bounded.deleteKey (key : PeerKey) : (s.deleteKey key).Bounded opts :=
  h.admitless (admitless_of_eq rfl rfl (.inr ⟨key, rfl⟩) (le_refl _))

theorem Bounded.stepRead {reply : Reply} (hmax : 0 < opts.maxSessions)
    (hok : s.AdmitsBesideOpen (.read reply)) (hs : ReadStep s reply t) : t.Bounded opts := by
  cases hs with
  | acquire hr =>
    simp only [AdmitsBesideOpen, hr] at hok
    exact h.stepAcquire hmax _ hok
  | store hr hsess hk => exact h.store hr hsess
  | closeNew hr hs | closeFailed hr hs => exact h.stepClose hs rfl
  | register hr | onAccept hr =>
      exact h.admitless (admitless_of_eq rfl rfl (.inl rfl) (Nat.zero_le _))
  | unregisterRejected hr => exact h.admitless (admitless_of_eq rfl rfl (.inl rfl) (Nat.zero_le _))
  | deleteUnregistered hr hsess | deleteRejected hr hsess => exact (h.deleteKey _).goto rfl
  | @touch _ i hr =>
    have ht : Admitless s (s.modify i fun sess => { sess with activeAt := s.now }) :=
      admitless_modify i (fun _ => rfl) (fun _ => rfl) (fun _ ha => ha)
    exact (h.admitless ht).goto rfl
  | closing hr hc => exact (h.admitless (admitless_call hc)).goto rfl
  | foundClosed hr | found hr | registerFailed hr | rejected hr | rejectedGone hr | toHandler hr
  | messageDone hr | handlerDone hr | closed hr | closedOld hr | storeLost hr hsess hk =>
      exact h.goto rfl
  | messageFailed hr hsess | handlerFailed hr hsess => exact h.goto rfl

theorem Bounded.stepCloser {n : Nat} (hs : s.stepCloser opts n = some t) : t.Bounded opts := by
  have hset : ∀ {u : Server} (c : Closer), u.Bounded opts → (u.setCloser n c).Bounded opts :=
    fun _ hu => hu.admitless (admitless_of_eq rfl rfl (.inl rfl) (le_refl _))
  unfold Server.stepCloser at hs
  split at hs
  · cases hs
  · cases hs
    exact hset _ h
  · split at hs
    · cases hs
    · split at hs <;> cases hs <;> exact hset _ h
  obtain ⟨⟨u, c'⟩, hu, rfl⟩ := Option.map_eq_some_iff.mp hs
  exact hset _ (h.admitless (admitless_call (stepCall_cases hu)))

theorem Bounded.step {a : Action} (hmax : 0 < opts.maxSessions)
    (hok : s.AdmitsBesideOpen a) (hs : s.step opts a = some t) : t.Bounded opts := by
  cases a with
  | advance d =>
    cases hs
    exact h.admitless (admitless_of_eq rfl rfl (.inl rfl) (le_refl _))
  | datagram addr =>
    simp only [Server.step] at hs
    split at hs
    · split at hs <;> cases hs <;> exact h.goto rfl
    · cases hs
  | read reply => exact h.stepRead hmax hok (stepRead_cases hs)
  | look key tick =>
    simp only [Server.step] at hs
    split at hs
    · cases hs
    split at hs <;> cases hs
    exact h.admitless (admitless_of_eq rfl rfl (.inl rfl) (le_refl _))
  | closer n => exact h.stepCloser hs
  | kill i =>
    simp only [Server.step] at hs
    split at hs
    · cases hs
    split at hs <;> cases hs
    exact h.admitless (admitless_markClosed s i)
  | release i => exact h.release hs

end Server

/-- **The table is bounded** in every run that asks for a slot only when all
sessions in the table are open. -/
theorem table_le_maxSessions (opts : Options) (hmax : 0 < opts.maxSessions) (s : Server)
    (h : (server opts).Reaches Server.AdmitsBesideOpen s) :
    (s.table.size : Int) ≤ opts.maxSessions := by
  have hb : s.Bounded opts := by
    refine h.inv ?_ ?_
    · rintro s rfl
      exact Server.bounded_start hmax
    · intro s a t hs hok hst
      exact hs.step hmax hok hst
  have hroom := hb.room
  omega

/-! ### One session at most -/

def oneSession : Options := ⟨60, false, 1, 0⟩

def addrA : UDPAddr := ⟨[10, 0, 0, 1], 7, []⟩

def addrB : UDPAddr := ⟨[10, 0, 0, 2], 7, []⟩

/-- A datagram of a peer without a session, up to the call of `OnMessage`. -/
def upToMessage (addr : UDPAddr) : List Action := .datagram addr :: List.replicate 5 (.read .ok)

/-- The plugin fails for A, whose session is removed; then B comes, and then A
again, which finds no slot. -/
def failThenNext : List Action :=
  upToMessage addrA ++ [.read .fail] ++ List.replicate 3 (.read .ok) ++ [.release 0] ++
    List.replicate 3 (.read .ok) ++ upToMessage addrB ++ [.read .ok, .datagram addrA, .read .ok]

theorem table_le_maxSessions_failThenNext :
    ∃ s, (server oneSession).Reaches Server.AdmitsBesideOpen s ∧ s.table.size = 1 ∧
      (s.table.size : Int) ≤ oneSession.maxSessions := by
  have hrun : ((server oneSession).runIf Server.AdmitsBesideOpen (.start oneSession)
      failThenNext).map (fun s => (s.table.size, s.reader)) = some (1, .idle) := by decide +kernel
  obtain ⟨s, hreach, heq⟩ := Machine.exists_reaches hrun rfl
  rw [Prod.mk.injEq] at heq
  exact ⟨s, hreach, heq.1, table_le_maxSessions oneSession (by decide) s hreach⟩

/-- The plugin closes A's session and drops the message; B is then admitted
beside it. -/
theorem dropped_sessions_outgrow_table :
    ∃ s, (server oneSession).Reachable s ∧ 0 < oneSession.maxSessions ∧
      oneSession.maxSessions < (s.table.size : Int) := by
  have hrun : ((server oneSession).run (.start oneSession) (upToMessage addrA ++
      [Action.kill 0, .release 0, .read .drop] ++ upToMessage addrB)).map (fun s => s.table.size)
      = some 2 := by decide +kernel
  obtain ⟨s, hreach, hsize⟩ := Machine.exists_reachable hrun rfl
  exact ⟨s, hreach, by decide, by rw [hsize]; decide⟩

end SharkSocket.Udp
