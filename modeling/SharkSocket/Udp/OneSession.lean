import SharkSocket.Udp.Server

/-!
# One peer key, one session, one close

`closeSession` removes whatever the table has under a key and then acts on the
session it was called with.  The two are the same session as long as no new
session is stored under the key between the look and the removal.  A session
that is in the table, or whose removal is under way, or whose `OnClose` has been
called, is then in exactly one of these three places, once (`Server.Standing`),
and the places are passed through in this order.

The other gap is in the making of a session.  It is in the table before it is
registered, so a `closeSession` that comes in between unregisters it first, and
it stays registered for good.

* `one_session_one_close`: in a run that leaves both gaps alone, sessions are
  closed once, removals hit the session they were asked for, and what is
  registered is in the table, apart from what calls under way are about to do;
* `sweep_removes_new_session`, `registered_after_close`: either gap is enough to
  break it.
-/

namespace SharkSocket.Udp

open Lib
open Std (ExtTreeMap)

/-! ### What calls under way are about to do -/

namespace CloseCall

/-- The session this call has taken from the table and not yet reported. -/
def leaving : CloseCall → Option Nat
  | .unregister i => some i
  | .close i => some i
  | .onClose i => some i
  | _ => none

def unregisters : CloseCall → Option Nat
  | .unregister i => some i
  | _ => none

end CloseCall

namespace Closer

def leaving : Closer → Option Nat
  | .call c => c.leaving
  | _ => none

def unregisters : Closer → Option Nat
  | .call c => c.unregisters
  | _ => none

/-- The key it has looked at and is still to remove, and the session it saw. -/
def target : Closer → Option (PeerKey × Nat)
  | .looked key i _ => some (key, i)
  | .call (.delete key i) => some (key, i)
  | _ => none

end Closer

namespace ReadPc

def leaving : ReadPc → Option Nat
  | .closing c _ => c.leaving
  | _ => none

def unregisters : ReadPc → Option Nat
  | .closing c _ => c.unregisters
  | .unregisterRejected i => some i
  | _ => none

end ReadPc

namespace Server

variable (s : Server)

def InTable (i : Nat) : Prop := ∃ key : PeerKey, s.table[key]? = some i

def leaving : Multiset Nat :=
  holdings Closer.leaving s.closers + held s.reader.leaving

def unregistering : Multiset Nat :=
  holdings Closer.unregisters s.closers + held s.reader.unregisters

/-- How often the session was closed, the closes under way included. -/
def closes (i : Nat) : Nat := s.leaving.count i + s.log.count (.onClose i)

/-- In the table and never closed, or out of it and closed once. -/
def Standing (i : Nat) : Prop :=
  (s.InTable i ∧ s.closes i = 0) ∨ (¬ s.InTable i ∧ s.closes i = 1)

/-- A `closeSession` of the read loop or of a closer stands before its
`LoadAndDelete`. -/
def Removing (key : PeerKey) (i : Nat) : Prop :=
  (∃ next, s.reader = .closing (.delete key i) next) ∨ Closer.call (.delete key i) ∈ s.closers

/-- **One key, one session, one close.**  An accepted session that has left the
table is closed once; a `closeSession` removes the session it was called with or
none; a registered session is in the table, or a call under way unregisters it
next. -/
structure OneClose (s : Server) : Prop where
  once : ∀ i, .onAccept i ∈ s.log → s.Standing i
  own : ∀ (key : PeerKey) (i j : Nat), s.Removing key i → s.table[key]? = some j → j = i
  registered : ∀ i ∈ s.registered, s.InTable i ∨ i ∈ s.unregistering

/-- No session is stored under a key that a closer has looked at and is still to
remove, and none is removed by a closer between its storing and its registering. -/
def Undisturbed : Action → Prop
  | .read _ =>
    match s.reader with
    | .store i => ∀ sess ∈ s.heap[i]?, ∀ c ∈ s.closers, ∀ t ∈ c.target, t.1 ≠ sess.key
    | _ => True
  | .closer n =>
    match s.closers[n]? with
    | some (.call (.delete _ i)) => s.reader ≠ .register i
    | _ => True
  | _ => True

instance (s : Server) (a : Action) : Decidable (s.Undisturbed a) := by
  unfold Undisturbed
  split
  · split <;> infer_instance
  · split <;> infer_instance
  · infer_instance

/-! ### The invariant -/

/-- The table has this session or none under its key. -/
def Owns (key : PeerKey) (i : Nat) : Prop :=
  s.keyOf i = some key ∧ ∀ j, s.table[key]? = some j → j = i

/-- Made and not yet seen by anyone. -/
def Fresh (i : Nat) : Prop :=
  ¬ s.InTable i ∧ s.closes i = 0 ∧ .onAccept i ∉ s.log ∧ i ∉ s.registered

def CloserOk (c : Closer) : Prop :=
  ∀ key i, c.target = some (key, i) → s.Owns key i

def ReaderOk : ReadPc → Prop
  | .found addr i => s.Owns (newPeerKey addr) i
  | .store i => s.Fresh i
  | .closeNew _ actual => ∃ key, s.Owns key actual
  | .register i =>
    (∃ key, s.Owns key i) ∧ s.Standing i ∧ s.InTable i ∧ i ∉ s.registered ∧ .onAccept i ∉ s.log
  | .deleteUnregistered i => (∃ key, s.Owns key i) ∧ i ∉ s.registered ∧ .onAccept i ∉ s.log
  | .onAccept i => (∃ key, s.Owns key i) ∧ s.Standing i ∧ .onAccept i ∉ s.log
  | .deleteRejected i => (∃ key, s.Owns key i) ∧ .onAccept i ∉ s.log
  | .touch i => ∃ key, s.Owns key i
  | .onMessage i => ∃ key, s.Owns key i
  | .handler i => ∃ key, s.Owns key i
  | .closing (.delete key i) _ => s.Owns key i
  | _ => True

structure Inv (s : Server) : Prop where
  keyed : ∀ (key : PeerKey) (i : Nat), s.table[key]? = some i → s.keyOf i = some key
  known : ∀ i, s.InTable i ∨ 0 < s.closes i ∨ .onAccept i ∈ s.log ∨ i ∈ s.registered →
    i < s.heap.length
  reader : s.ReaderOk s.reader
  closers : ∀ c ∈ s.closers, s.CloserOk c
  once : ∀ i, .onAccept i ∈ s.log → s.Standing i
  registered : ∀ i ∈ s.registered, s.InTable i ∨ i ∈ s.unregistering

theorem inv_start (opts : Options) : Inv (.start opts) where
  keyed key i h := by simp [start] at h
  known i h := by simp [start, InTable, closes, leaving, ReadPc.leaving] at h
  reader := trivial
  closers c h := by simp [start] at h
  once i h := by simp [start] at h
  registered i h := by simp [start] at h

theorem Inv.oneClose {s : Server} (h : s.Inv) : s.OneClose where
  once := h.once
  own := by
    rintro key i j (⟨next, hr⟩ | hc) hj
    · have hok := h.reader
      rw [hr] at hok
      exact hok.2 j hj
    · exact (h.closers _ hc key i rfl).2 j hj
  registered := h.registered

variable {i : Nat} {key : PeerKey}

/-- What the table has under a key is the session of that key. -/
theorem Inv.owns_of_table {s : Server} (h : s.Inv) (hk : s.table[key]? = some i) :
    s.Owns key i := by
  refine ⟨h.keyed key i hk, ?_⟩
  intro j hj
  rw [hk] at hj
  exact (Option.some.inj hj).symm

/-! ### What does not disturb the others -/

/-- `t` is `s` some steps later: keys stay, entries only leave the table, and a
session that left it has been closed once more. -/
structure Later (s t : Server) : Prop where
  keys : ∀ i key, s.keyOf i = some key → t.keyOf i = some key
  table : ∀ (key : PeerKey) (i : Nat), t.table[key]? = some i → s.table[key]? = some i
  passes : ∀ i, ((t.InTable i ↔ s.InTable i) ∧ t.closes i = s.closes i) ∨
    (s.InTable i ∧ ¬ t.InTable i ∧ t.closes i = s.closes i + 1)
  accepted : ∀ i, .onAccept i ∈ t.log ↔ .onAccept i ∈ s.log
  registered : t.registered ⊆ s.registered
  length : s.heap.length ≤ t.heap.length

namespace Later

variable {s t : Server} (h : Later s t)

include h

theorem owns (ho : s.Owns key i) : t.Owns key i :=
  ⟨h.keys i key ho.1, fun j hj => ho.2 j (h.table key j hj)⟩

theorem standing (hs : s.Standing i) : t.Standing i := by
  unfold Standing at hs ⊢
  rcases h.passes i with ⟨h1, h2⟩ | ⟨h1, h2, h3⟩
  · rw [h1, h2]
    exact hs
  rcases hs with ⟨_, h0⟩ | ⟨hnot, _⟩
  · rw [h3, h0]
    exact .inr ⟨h2, rfl⟩
  · exact absurd h1 hnot

theorem fresh (hf : s.Fresh i) : t.Fresh i := by
  obtain ⟨htab, hcl, hacc, hreg⟩ := hf
  refine ⟨?_, ?_, ?_, fun hmem => hreg (h.registered hmem)⟩
  · rcases h.passes i with ⟨h1, _⟩ | ⟨_, h2, _⟩
    · rwa [h1]
    · exact h2
  · rcases h.passes i with ⟨_, h2⟩ | ⟨h1, _⟩
    · rwa [h2]
    · exact absurd h1 htab
  · rwa [h.accepted]

theorem closerOk {c : Closer} (hc : s.CloserOk c) : t.CloserOk c :=
  fun key i ht => h.owns (hc key i ht)

theorem readerOk {pc : ReadPc} (hr : s.ReaderOk pc)
    (hregister : ∀ i, pc = .register i → s.InTable i → t.InTable i) : t.ReaderOk pc := by
  have hown : ∀ {i}, (∃ key, s.Owns key i) → ∃ key, t.Owns key i :=
    fun ⟨key, ho⟩ => ⟨key, h.owns ho⟩
  cases pc with
  | found => exact h.owns hr
  | store => exact h.fresh hr
  | closeNew => exact hown hr
  | register i =>
    obtain ⟨h1, h2, h3, h4, h5⟩ := hr
    exact ⟨hown h1, h.standing h2, hregister i rfl h3, fun hm => h4 (h.registered hm),
      fun ha => h5 ((h.accepted i).mp ha)⟩
  | deleteUnregistered i =>
    obtain ⟨h1, h2, h3⟩ := hr
    exact ⟨hown h1, fun hm => h2 (h.registered hm), fun ha => h3 ((h.accepted i).mp ha)⟩
  | onAccept i =>
    obtain ⟨h1, h2, h3⟩ := hr
    exact ⟨hown h1, h.standing h2, fun ha => h3 ((h.accepted i).mp ha)⟩
  | deleteRejected i =>
    obtain ⟨h1, h2⟩ := hr
    exact ⟨hown h1, fun ha => h2 ((h.accepted i).mp ha)⟩
  | touch | onMessage | handler => exact hown hr
  | closing c next =>
    cases c with
    | delete => exact h.owns hr
    | _ => trivial
  | _ => trivial

end Later

section Steps

variable {s t : Server}

theorem Inv.later (h : s.Inv) (hl : Later s t) (hr : t.ReaderOk t.reader)
    (hc : ∀ c ∈ t.closers, t.CloserOk c)
    (hreg : ∀ i ∈ t.registered, t.InTable i ∨ i ∈ t.unregistering) : t.Inv where
  keyed key i hk := hl.keys i key (h.keyed key i (hl.table key i hk))
  known i hi := by
    refine lt_of_lt_of_le (h.known i ?_) hl.length
    rcases hi with hi | hi | hi | hi
    · obtain ⟨key, hk⟩ := hi
      exact .inl ⟨key, hl.table key i hk⟩
    · rcases hl.passes i with ⟨_, h2⟩ | ⟨h1, _⟩
      · exact .inr (.inl (h2 ▸ hi))
      · exact .inl h1
    · exact .inr (.inr (.inl ((hl.accepted i).mp hi)))
    · exact .inr (.inr (.inr (hl.registered hi)))
  reader := hr
  closers := hc
  once i hi := hl.standing (h.once i ((hl.accepted i).mp hi))
  registered := hreg

/-- A step that leaves the table and the log as they are. -/
theorem later_of_eq (hkey : ∀ i, t.keyOf i = s.keyOf i) (hlen : t.heap.length = s.heap.length)
    (htab : t.table = s.table) (hreg : t.registered ⊆ s.registered) (hlog : t.log = s.log)
    (hleave : t.leaving = s.leaving) : Later s t where
  keys i key hk := by rwa [hkey]
  table key i hk := by rwa [← htab]
  passes i := by
    refine .inl ⟨?_, ?_⟩
    · rw [InTable, htab, InTable]
    · rw [closes, hleave, hlog, closes]
  accepted i := by rw [hlog]
  registered := hreg
  length := hlen.ge

theorem later_modify (s : Server) (i : Nat) {f : Session → Session}
    (hf : ∀ sess, (f sess).key = sess.key) : Later s (s.modify i f) :=
  later_of_eq (keyOf_modify s i hf) (List.length_modify ..) rfl (subset_refl _) rfl rfl

theorem Inv.modify (h : s.Inv) (i : Nat) {f : Session → Session}
    (hf : ∀ sess, (f sess).key = sess.key) : (s.modify i f).Inv := by
  have hl := later_modify s i hf
  exact h.later hl (hl.readerOk h.reader fun _ _ ht => ht)
    (fun c hc => hl.closerOk (h.closers c hc)) h.registered

theorem Inv.markClosed (h : s.Inv) (i : Nat) : (s.markClosed i).Inv :=
  h.modify i fun _ => rfl

variable {pc : ReadPc} {c : CloseCall} {n : Nat} {opts : Options}

theorem Inv.goto {pc' : ReadPc} (h : s.Inv) (hr : s.reader = pc) (hleave : pc'.leaving = pc.leaving)
    (hunreg : pc'.unregisters = pc.unregisters) (hok : s.ReaderOk pc') : (s.goto pc').Inv := by
  subst hr
  have hl : Later s (s.goto pc') := by
    refine later_of_eq (fun _ => rfl) rfl rfl (subset_refl _) rfl ?_
    simp only [leaving, Server.goto, hleave]
  refine h.later hl (hl.readerOk hok fun _ _ ht => ht) (fun c hc => hl.closerOk (h.closers c hc)) ?_
  intro i hi
  have hi' := h.registered i hi
  simp only [unregistering, Server.goto, hunreg] at hi' ⊢
  exact hi'

/-! ### The steps of `closeSession` -/

/-- Removing a session's own key removes that session. -/
theorem inTable_deleteKey (h : s.Inv) (ho : s.Owns key i) (j : Nat) :
    (s.deleteKey key).InTable j ↔ s.InTable j ∧ j ≠ i := by
  constructor
  · rintro ⟨k, hk⟩
    obtain ⟨hne, hk⟩ := getElem?_erase_eq_some.mp hk
    refine ⟨⟨k, hk⟩, ?_⟩
    rintro rfl
    have hkey := h.keyed k j hk
    rw [ho.1] at hkey
    exact hne (Option.some.inj hkey).symm
  · rintro ⟨⟨k, hk⟩, hj⟩
    exact ⟨k, getElem?_erase_eq_some.mpr ⟨fun heq => hj (ho.2 j (heq ▸ hk)), hk⟩⟩

/-- A session taken from the table is closed once more, the others stay. -/
theorem passes_remove {u : Server} (h : s.Inv) (ho : s.Owns key i) (hk : s.table[key]? = some i)
    (hin : ∀ j, u.InTable j ↔ (s.deleteKey key).InTable j)
    (hcloses : ∀ j, u.closes j = s.closes j + if i = j then 1 else 0) (j : Nat) :
    ((u.InTable j ↔ s.InTable j) ∧ u.closes j = s.closes j) ∨
      (s.InTable j ∧ ¬ u.InTable j ∧ u.closes j = s.closes j + 1) := by
  rw [hin, inTable_deleteKey h ho, hcloses]
  by_cases hij : i = j
  · subst hij
    exact .inr ⟨⟨key, hk⟩, fun hmem => hmem.2 rfl, by rw [if_pos rfl]⟩
  · exact .inl ⟨and_iff_left (Ne.symm hij), by rw [if_neg hij, add_zero]⟩

section Call

variable {c c' : CloseCall} {u : Server} (h : s.Inv) (hs : CallStep s c t c')
  (hown : ∀ key i, c = .delete key i → s.Owns key i)
  (htab : u.table = t.table) (hheap : u.heap = t.heap) (hregd : u.registered = t.registered)
  (hlog : u.log = t.log) (hleave : u.leaving + held c.leaving = s.leaving + held c'.leaving)
  (hunreg : u.unregistering + held c.unregisters = s.unregistering + held c'.unregisters)

include h hs hown htab hheap hregd hlog hleave

/-- Whoever makes the call, the others see the sessions pass on. -/
theorem later_call : Later s u := by
  have hkey : ∀ j, u.keyOf j = t.keyOf j := by
    intro j
    rw [keyOf, hheap, keyOf]
  have hin : ∀ j, u.InTable j ↔ t.InTable j := by
    intro j
    rw [InTable, htab, InTable]
  have hcount : ∀ j, u.leaving.count j + (held c.leaving).count j
      = s.leaving.count j + (held c'.leaving).count j := by
    intro j
    rw [← Multiset.count_add, hleave, Multiset.count_add]
  cases hs with
  | gone hk | closed i =>
    exact later_of_eq hkey (by rw [hheap]) htab hregd.subset hlog (add_right_cancel hleave)
  | @delete key i j₀ hk =>
    have ho := hown key i rfl
    refine ⟨fun j k hj => (hkey j).trans hj, ?_, ?_, ?_, hregd.subset, (by rw [hheap]; rfl)⟩
    · intro k j hj
      rw [htab] at hj
      exact table_deleteKey hj
    · refine passes_remove h ho (ho.2 j₀ hk ▸ hk) hin ?_
      intro j
      have hj := hcount j
      simp only [CloseCall.leaving, held_none, Multiset.count_zero, add_zero, count_held,
        Option.some.injEq] at hj
      rw [closes, hj, hlog]
      exact Nat.add_right_comm ..
    · intro j
      rw [hlog]
      rfl
  | unregister i =>
    exact later_of_eq hkey (by rw [hheap]; rfl) htab
      (hregd ▸ Finset.erase_subset i s.registered) hlog (add_right_cancel hleave)
  | mark i =>
    refine later_of_eq (fun j => (hkey j).trans (keyOf_markClosed s i j)) ?_ htab
      hregd.subset hlog (add_right_cancel hleave)
    rw [hheap]
    exact List.length_modify ..
  | onClose i =>
    refine ⟨fun j k hj => (hkey j).trans hj, fun k j hj => htab ▸ hj, ?_, ?_, hregd.subset,
      (by rw [hheap]; rfl)⟩
    · intro j
      have hj := hcount j
      simp only [CloseCall.leaving, held_none, Multiset.count_zero, add_zero, count_held,
        Option.some.injEq] at hj
      refine .inl ⟨hin j, ?_⟩
      simp only [closes, hlog, emit, List.count_append, List.count_singleton, beq_iff_eq,
        Event.onClose.injEq, ← hj]
      split <;> omega
    · intro j
      rw [hlog]
      simp [emit]

/-- Only its own removal takes a session from the table. -/
theorem inTable_call {j : Nat} (hj : s.InTable j) : u.InTable j ∨ ∃ key, c = .delete key j := by
  rw [InTable, htab]
  cases hs with
  | @delete key i j₀ hk =>
    by_cases hij : i = j
    · exact .inr ⟨key, by rw [hij]⟩
    · exact .inl ((inTable_deleteKey h (hown key i rfl) j).mpr ⟨hj, Ne.symm hij⟩)
  | _ => exact .inl hj

include hunreg

theorem registered_call : ∀ j ∈ u.registered, u.InTable j ∨ j ∈ u.unregistering := by
  intro j hj
  have hsub := (later_call h hs hown htab hheap hregd hlog hleave).registered hj
  rcases h.registered j hsub with hin | hun
  · rcases inTable_call h hs hown htab hheap hregd hlog hleave hin with hin' | ⟨key, rfl⟩
    · exact .inl hin'
    cases hs with
    | gone hk => exact .inl (by rwa [InTable, htab])
    | delete hk =>
      right
      simp only [CloseCall.unregisters, held_none, add_zero] at hunreg
      rw [hunreg, Multiset.mem_add]
      exact .inr (mem_held.mpr rfl)
  · right
    have hmem : j ∈ u.unregistering + held c.unregisters := by
      rw [hunreg]
      exact Multiset.mem_add.mpr (.inl hun)
    rcases Multiset.mem_add.mp hmem with hmem | hmem
    · exact hmem
    cases hs with
    | unregister i =>
      have hji : i = j := Option.some.inj (mem_held.mp hmem)
      rw [hregd, hji] at hj
      exact absurd rfl (Finset.mem_erase.mp hj).1
    | _ => simp [CloseCall.unregisters] at hmem

end Call

theorem Inv.closerCall {c' : CloseCall} (h : s.Inv) (hn : s.closers[n]? = some (.call c))
    (hs : CallStep s c t c') (hok : ∀ key i, c = .delete key i → s.reader ≠ .register i) :
    (t.setCloser n (.call c')).Inv := by
  obtain ⟨hreader, hclosers⟩ := hs.procs
  have hmem : Closer.call c ∈ s.closers := List.mem_of_getElem? hn
  have hown : ∀ key i, c = .delete key i → s.Owns key i := by
    rintro key i rfl
    exact h.closers _ hmem key i rfl
  have hleave : (t.setCloser n (.call c')).leaving + held c.leaving
      = s.leaving + held c'.leaving := by
    have hset := holdings_set Closer.leaving hn (.call c')
    simp only [Closer.leaving] at hset
    simp only [leaving, setCloser, hreader, hclosers]
    rw [add_right_comm, hset]
    exact add_right_comm _ _ _
  have hunreg : (t.setCloser n (.call c')).unregistering + held c.unregisters
      = s.unregistering + held c'.unregisters := by
    have hset := holdings_set Closer.unregisters hn (.call c')
    simp only [Closer.unregisters] at hset
    simp only [unregistering, setCloser, hreader, hclosers]
    rw [add_right_comm, hset]
    exact add_right_comm _ _ _
  have hl : Later s (t.setCloser n (.call c')) :=
    later_call h hs hown rfl rfl rfl rfl hleave
  refine h.later hl ?_ ?_ (registered_call h hs hown rfl rfl rfl rfl hleave hunreg)
  · rw [show (t.setCloser n (.call c')).reader = s.reader from hreader]
    refine hl.readerOk h.reader ?_
    intro i hr hin
    rcases inTable_call (u := t.setCloser n (.call c')) h hs hown rfl rfl rfl rfl hleave hin
      with hin' | ⟨key, hc⟩
    · exact hin'
    · exact absurd hr (hok key i hc)
  · intro d hd
    rw [show (t.setCloser n (.call c')).closers = s.closers.set n (.call c') by
      rw [← hclosers]; rfl] at hd
    rcases List.mem_or_eq_of_mem_set hd with hd | rfl
    · exact hl.closerOk (h.closers d hd)
    intro key i ht
    cases c' with
    | delete => exact absurd rfl (hs.ne_delete _ _)
    | _ => cases ht

theorem Inv.readerCall {c' : CloseCall} {next : Option UDPAddr} (h : s.Inv)
    (hr : s.reader = .closing c next) (hs : CallStep s c t c') :
    (t.goto (.closing c' next)).Inv := by
  obtain ⟨-, hclosers⟩ := hs.procs
  have hown : ∀ key i, c = .delete key i → s.Owns key i := by
    rintro key i rfl
    have hok := h.reader
    rwa [hr] at hok
  have hleave : (t.goto (.closing c' next)).leaving + held c.leaving
      = s.leaving + held c'.leaving := by
    simp only [leaving, Server.goto, hclosers, hr, ReadPc.leaving]
    exact add_right_comm _ _ _
  have hunreg : (t.goto (.closing c' next)).unregistering + held c.unregisters
      = s.unregistering + held c'.unregisters := by
    simp only [unregistering, Server.goto, hclosers, hr, ReadPc.unregisters]
    exact add_right_comm _ _ _
  have hl : Later s (t.goto (.closing c' next)) :=
    later_call h hs hown rfl rfl rfl rfl hleave
  refine h.later hl ?_ ?_ (registered_call h hs hown rfl rfl rfl rfl hleave hunreg)
  · cases c' with
    | delete => exact absurd rfl (hs.ne_delete _ _)
    | _ => trivial
  · intro d hd
    rw [show (t.goto (.closing c' next)).closers = s.closers from hclosers] at hd
    exact hl.closerOk (h.closers d hd)

/-! ### The steps of the closers -/

theorem later_closers {cs : List Closer} (hleave : holdings Closer.leaving cs
    = holdings Closer.leaving s.closers) : Later s { s with closers := cs } := by
  refine later_of_eq (fun _ => rfl) rfl rfl (subset_refl _) rfl ?_
  simp only [leaving, hleave]

/-- A closer that does not act on a session yet, or not any more. -/
theorem Inv.closers_eq {cs : List Closer} (h : s.Inv)
    (hleave : holdings Closer.leaving cs = holdings Closer.leaving s.closers)
    (hunreg : holdings Closer.unregisters cs = holdings Closer.unregisters s.closers)
    (hok : ∀ c ∈ cs, s.CloserOk c) : ({ s with closers := cs } : Server).Inv := by
  have hl := later_closers hleave
  refine h.later hl (hl.readerOk h.reader fun _ _ ht => ht) (fun c hc => hl.closerOk (hok c hc)) ?_
  intro i hi
  have hi' := h.registered i hi
  simp only [unregistering, hunreg] at hi' ⊢
  exact hi'

theorem Inv.look {tick : Option Int} (h : s.Inv) (hk : s.table[key]? = some i) :
    ({ s with closers := s.closers ++ [.looked key i tick] } : Server).Inv := by
  refine h.closers_eq ?_ ?_ ?_
  · simp [holdings_concat, Closer.leaving]
  · simp [holdings_concat, Closer.unregisters]
  · refine forall_mem_concat h.closers ?_
    rintro key' i' ⟨⟩
    exact h.owns_of_table hk

theorem Inv.decided {tick : Option Int} (h : s.Inv) (hn : s.closers[n]? = some (.looked key i tick))
    (hc : c = .delete key i ∨ c = .returned) : (s.setCloser n (.call c)).Inv := by
  have hleave : c.leaving = none := by rcases hc with rfl | rfl <;> rfl
  have hunreg : c.unregisters = none := by rcases hc with rfl | rfl <;> rfl
  refine h.closers_eq ?_ ?_ ?_
  · have hset := holdings_set Closer.leaving hn (.call c)
    simpa [Closer.leaving, hleave] using hset
  · have hset := holdings_set Closer.unregisters hn (.call c)
    simpa [Closer.unregisters, hunreg] using hset
  · refine forall_mem_set h.closers ?_
    intro key' i' ht
    rcases hc with rfl | rfl
    · exact h.closers _ (List.mem_of_getElem? hn) key' i' ht
    · cases ht

theorem Inv.stepCloser (h : s.Inv) (hok : s.Undisturbed (.closer n))
    (hs : s.stepCloser opts n = some t) : t.Inv := by
  unfold Server.stepCloser at hs
  split at hs
  · cases hs
  · cases hs
    exact h.decided ‹_› (.inl rfl)
  · split at hs
    · cases hs
    split at hs <;> cases hs
    · exact h.decided ‹_› (.inl rfl)
    · exact h.decided ‹_› (.inr rfl)
  rename_i c hn
  obtain ⟨⟨u, c'⟩, hu, rfl⟩ := Option.map_eq_some_iff.mp hs
  refine h.closerCall hn (stepCall_cases hu) ?_
  rintro key i rfl
  simpa only [Undisturbed, hn] using hok

/-! ### The steps of the read loop -/

theorem later_extend (s : Server) (sess : Session) :
    Later s { s with heap := s.heap ++ [sess] } := by
  refine ⟨?_, fun _ _ hk => hk, fun i => .inl ⟨Iff.rfl, rfl⟩, fun _ => Iff.rfl, subset_refl _, ?_⟩
  · intro i key hk
    obtain ⟨old, hold, rfl⟩ := Option.map_eq_some_iff.mp hk
    have hi : i < s.heap.length := (List.getElem?_eq_some_iff.mp hold).1
    simp [keyOf, List.getElem?_append_left hi, hold]
  · simp

section

variable (h : s.Inv)
include h

theorem Inv.extend (sess : Session) : ({ s with heap := s.heap ++ [sess] } : Server).Inv := by
  have hl := later_extend s sess
  exact h.later hl (hl.readerOk h.reader fun _ _ ht => ht)
    (fun c hc => hl.closerOk (h.closers c hc)) h.registered

theorem Inv.fresh_length : s.Fresh s.heap.length := by
  have hnew : ¬ (s.InTable s.heap.length ∨ 0 < s.closes s.heap.length ∨
      .onAccept s.heap.length ∈ s.log ∨ s.heap.length ∈ s.registered) :=
    fun hi => (h.known _ hi).ne rfl
  push Not at hnew
  exact ⟨hnew.1, Nat.le_zero.mp hnew.2.1, hnew.2.2.1, hnew.2.2.2⟩

theorem Inv.newSession (addr : UDPAddr) (hleave : s.reader.leaving = none)
    (hunreg : s.reader.unregisters = none) : (s.newSession addr).Inv :=
  (h.extend ⟨newPeerKey addr, peerIP addr, .active, true, s.now⟩).goto rfl hleave.symm hunreg.symm
    ((later_extend s _).fresh h.fresh_length)

/-- `LoadOrStore` under a key nobody is about to remove. -/
theorem Inv.store {sess : Session} (hr : s.reader = .store i) (hsess : s.heap[i]? = some sess)
    (hk : s.table[sess.key]? = none) (hok : ∀ c ∈ s.closers, ∀ t ∈ c.target, t.1 ≠ sess.key) :
    ({ s with table := s.table.insert sess.key i, reader := .register i } : Server).Inv := by
  have hfresh : s.Fresh i := by
    have := h.reader
    rwa [hr] at this
  have hkey : s.keyOf i = some sess.key := by simp [keyOf, hsess]
  have hget := getElem?_insert_of_none hk i
  have hin : ∀ j, ({ s with table := s.table.insert sess.key i, reader := .register i }).InTable j ↔
      j = i ∨ s.InTable j := by
    intro j
    simp only [InTable, hget, exists_or, exists_eq_left]
  have hcloses : ∀ j, ({ s with table := s.table.insert sess.key i, reader := .register i }).closes j =
      s.closes j := by
    intro j
    simp only [closes, leaving, hr, ReadPc.leaving]
  refine ⟨?_, ?_, ?_, ?_, ?_, ?_⟩
  · intro k j hj
    rcases (hget k j).mp hj with ⟨rfl, rfl⟩ | hj
    · exact hkey
    · exact h.keyed k j hj
  · intro j hj
    rw [hin, hcloses] at hj
    rcases hj with (rfl | hj) | hj
    · exact (List.getElem?_eq_some_iff.mp hsess).1
    · exact h.known j (.inl hj)
    · exact h.known j (.inr hj)
  · refine ⟨⟨sess.key, hkey, ?_⟩, .inl ⟨(hin i).mpr (.inl rfl), ?_⟩, (hin i).mpr (.inl rfl),
      hfresh.2.2.2, hfresh.2.2.1⟩
    · intro j hj
      rcases (hget sess.key j).mp hj with ⟨_, rfl⟩ | hj
      · rfl
      rw [hk] at hj
      cases hj
    · rw [hcloses]
      exact hfresh.2.1
  · intro c hc k j ht
    obtain ⟨hkj, howns⟩ := h.closers c hc k j ht
    refine ⟨hkj, ?_⟩
    intro j' hj'
    rcases (hget k j').mp hj' with ⟨rfl, _⟩ | hj'
    · exact absurd rfl (hok c hc _ ht)
    · exact howns j' hj'
  · intro j hj
    have hne : j ≠ i := by
      rintro rfl
      exact hfresh.2.2.1 hj
    have hst := h.once j hj
    simp only [Standing, hin, hne, false_or, hcloses]
    exact hst
  · intro j hj
    rw [hin]
    rcases h.registered j hj with hj | hj
    · exact .inl (.inr hj)
    right
    simpa only [unregistering, hr, ReadPc.unregisters] using hj

/-- `Register` succeeds: the session is still in the table. -/
theorem Inv.register (hr : s.reader = .register i) :
    ({ s with registered := insert i s.registered, reader := .onAccept i } : Server).Inv := by
  have hok := h.reader
  rw [hr] at hok
  obtain ⟨hown, hst, hin, _, hacc⟩ := hok
  have h' : (s.goto (.onAccept i)).Inv :=
    h.goto hr rfl rfl ⟨hown, hst, hacc⟩
  refine ⟨h'.keyed, ?_, h'.reader, h'.closers, h'.once, ?_⟩
  · rintro j (hj | hj | hj | hj)
    · exact h'.known j (.inl hj)
    · exact h'.known j (.inr (.inl hj))
    · exact h'.known j (.inr (.inr (.inl hj)))
    · rcases Finset.mem_insert.mp hj with rfl | hj
      · exact h'.known j (.inl hin)
      · exact h'.known j (.inr (.inr (.inr hj)))
  · intro j hj
    rcases Finset.mem_insert.mp hj with rfl | hj
    · exact .inl hin
    · exact h'.registered j hj

/-- The session is taken out of the table before it was accepted. -/
theorem Inv.withdraw (ho : s.Owns key i) (hacc : .onAccept i ∉ s.log)
    (hleave : s.reader.leaving = none) (hunreg : s.reader.unregisters = none)
    (hpc : pc.leaving = none) (hok : ∀ t, Server.ReaderOk t pc)
    (hreg : i ∈ s.registered → pc.unregisters = some i) : ((s.deleteKey key).goto pc).Inv := by
  have hin : ∀ j, ((s.deleteKey key).goto pc).InTable j ↔ s.InTable j ∧ j ≠ i :=
    inTable_deleteKey h ho
  have hcloses : ∀ j, ((s.deleteKey key).goto pc).closes j = s.closes j := by
    intro j
    simp only [closes, leaving, Server.goto, deleteKey, hleave, hpc]
  refine ⟨fun k j hj => h.keyed k j (table_deleteKey hj), ?_, hok _, ?_, ?_, ?_⟩
  · intro j hj
    rw [hin, hcloses] at hj
    rcases hj with hj | hj
    · exact h.known j (.inl hj.1)
    · exact h.known j (.inr hj)
  · intro c hc k j ht
    obtain ⟨hk, howns⟩ := h.closers c hc k j ht
    exact ⟨hk, fun j' hj' => howns j' (table_deleteKey hj')⟩
  · intro j hj
    have hne : j ≠ i := by
      rintro rfl
      exact hacc hj
    have hst := h.once j hj
    simp only [Standing, hin, hcloses, hne, ne_eq, not_false_eq_true, and_true]
    exact hst
  · intro j hj
    rw [hin]
    by_cases hji : j = i
    · subst hji
      right
      rw [unregistering, Multiset.mem_add]
      exact .inr (mem_held.mpr (hreg hj))
    rcases h.registered j hj with hj | hj
    · exact .inl ⟨hj, hji⟩
    right
    rw [unregistering, hunreg, held_none, add_zero] at hj
    rw [unregistering, Multiset.mem_add]
    exact .inl hj

/-- `OnAccept` succeeds. -/
theorem Inv.accept (hr : s.reader = .onAccept i) :
    ((s.emit (.onAccept i)).goto (.touch i)).Inv := by
  have hok := h.reader
  rw [hr] at hok
  obtain ⟨hown, hst, _⟩ := hok
  have hcloses : ∀ j, ((s.emit (.onAccept i)).goto (.touch i)).closes j = s.closes j := by
    intro j
    simp [closes, leaving, Server.goto, emit, hr, ReadPc.leaving, List.count_append]
  have hstanding : ∀ j, s.Standing j → ((s.emit (.onAccept i)).goto (.touch i)).Standing j := by
    intro j hj
    simp only [Standing, hcloses]
    exact hj
  have hlog : ∀ j, .onAccept j ∈ s.log ++ [Event.onAccept i] → j = i ∨ .onAccept j ∈ s.log := by
    intro j hj
    simpa [or_comm] using hj
  refine ⟨h.keyed, ?_, hown, h.closers, ?_, ?_⟩
  · intro j hj
    rw [hcloses] at hj
    rcases hj with hj | hj | hj | hj
    · exact h.known j (.inl hj)
    · exact h.known j (.inr (.inl hj))
    · rcases hlog j hj with rfl | hj
      · rcases hst with ⟨hin, _⟩ | ⟨_, hone⟩
        · exact h.known j (.inl hin)
        · exact h.known j (.inr (.inl (by omega)))
      · exact h.known j (.inr (.inr (.inl hj)))
    · exact h.known j (.inr (.inr (.inr hj)))
  · intro j hj
    rcases hlog j hj with rfl | hj
    · exact hstanding j hst
    · exact hstanding j (h.once j hj)
  · intro j hj
    have hj' := h.registered j hj
    rw [unregistering, hr] at hj'
    exact hj'

theorem Inv.unregisterRejected (hr : s.reader = .unregisterRejected i) :
    ((s.unregister i).goto (.closeFailed i)).Inv := by
  have hl : Later s ((s.unregister i).goto (.closeFailed i)) := by
    refine later_of_eq (fun _ => rfl) rfl rfl (Finset.erase_subset i s.registered) rfl ?_
    simp only [leaving, Server.goto, unregister, hr, ReadPc.leaving]
  refine h.later hl trivial (fun c hc => hl.closerOk (h.closers c hc)) ?_
  intro j hj
  obtain ⟨hji, hj⟩ := Finset.mem_erase.mp hj
  rcases h.registered j hj with hj | hj
  · exact .inl hj
  right
  rw [unregistering, hr, Multiset.mem_add] at hj
  rw [unregistering, Multiset.mem_add]
  rcases hj with hj | hj
  · exact .inl hj
  · exact absurd (Option.some.inj (mem_held.mp hj)).symm hji

theorem Inv.stepClose
    (hs : (s.stepClose i).map (fun (t, back) => if back then t.goto pc else t) = some t)
    (hgoto : (s.goto pc).Inv) : t.Inv := by
  obtain ⟨⟨u, back⟩, hu, rfl⟩ := Option.map_eq_some_iff.mp hs
  rcases stepClose_cases hu with ⟨rfl, rfl⟩ | ⟨rfl, rfl⟩
  · exact h.markClosed i
  · exact hgoto

theorem Inv.quota (q : Option Shared.PeerQuota) : ({ s with quota := q } : Server).Inv := by
  have hl : Later s { s with quota := q } :=
    later_of_eq (fun _ => rfl) rfl rfl (subset_refl _) rfl rfl
  exact h.later hl (hl.readerOk h.reader fun _ _ ht => ht)
    (fun c hc => hl.closerOk (h.closers c hc)) h.registered

theorem Inv.stepAcquire (addr : UDPAddr) (hr : s.reader = .acquire addr) :
    (s.stepAcquire addr).Inv := by
  unfold Server.stepAcquire
  split
  · exact h.newSession addr (by rw [hr]; rfl) (by rw [hr]; rfl)
  split
  · exact (h.quota _).newSession addr (by rw [hr]; rfl) (by rw [hr]; rfl)
  · exact h.goto hr rfl rfl trivial

end

theorem owns_key {sess : Session} (hsess : s.heap[i]? = some sess) (ho : ∃ key, s.Owns key i) :
    s.Owns sess.key i := by
  obtain ⟨key, hkey, htab⟩ := ho
  have heq : sess.key = key := by simpa [keyOf, hsess] using hkey
  subst heq
  exact ⟨hkey, htab⟩

theorem Inv.stepRead {reply : Reply} (h : s.Inv) (hok : s.Undisturbed (.read reply))
    (hs : ReadStep s reply t) : t.Inv := by
  have hrd := h.reader
  cases hs with
  | foundClosed hr | toHandler hr =>
    rw [hr] at hrd
    exact h.goto hr rfl rfl hrd
  | found hr =>
    rw [hr] at hrd
    exact h.goto hr rfl rfl ⟨_, hrd⟩
  | acquire hr => exact h.stepAcquire _ hr
  | @storeLost _ _ sess _ hr hsess hk => exact h.goto hr rfl rfl ⟨sess.key, h.owns_of_table hk⟩
  | @store _ _ sess hr hsess hk =>
    simp only [Undisturbed, hr] at hok
    exact h.store hr hsess hk (hok sess hsess)
  | closeNew hr hs =>
    rw [hr] at hrd
    exact h.stepClose hs (h.goto hr rfl rfl hrd)
  | register hr => exact h.register hr
  | registerFailed hr =>
    rw [hr] at hrd
    obtain ⟨hown, _, _, hreg, hacc⟩ := hrd
    exact h.goto hr rfl rfl ⟨hown, hreg, hacc⟩
  | deleteUnregistered hr hsess =>
    rw [hr] at hrd
    obtain ⟨hown, hreg, hacc⟩ := hrd
    exact h.withdraw (owns_key hsess hown) hacc (by rw [hr]; rfl) (by rw [hr]; rfl) rfl
      (fun _ => trivial) (fun hmem => absurd hmem hreg)
  | onAccept hr => exact h.accept hr
  | rejected hr =>
    rw [hr] at hrd
    exact h.goto hr rfl rfl ⟨hrd.1, hrd.2.2⟩
  | deleteRejected hr hsess =>
    rw [hr] at hrd
    exact h.withdraw (owns_key hsess hrd.1) hrd.2 (by rw [hr]; rfl) (by rw [hr]; rfl) rfl
      (fun _ => trivial) (fun _ => rfl)
  | unregisterRejected hr => exact h.unregisterRejected hr
  | closeFailed hr hs => exact h.stepClose hs (h.goto hr rfl rfl trivial)
  | @touch _ i hr =>
    rw [hr] at hrd
    have hl := later_modify s i (f := fun sess => { sess with activeAt := s.now }) fun _ => rfl
    obtain ⟨key, ho⟩ := hrd
    exact (h.modify i (f := fun sess => { sess with activeAt := s.now }) fun _ => rfl).goto hr rfl
      rfl ⟨key, hl.owns ho⟩
  | messageFailed hr hsess | handlerFailed hr hsess =>
    rw [hr] at hrd
    exact h.goto hr rfl rfl (owns_key hsess hrd)
  | rejectedGone hr | messageDone hr | handlerDone hr | closed hr | closedOld hr =>
    exact h.goto hr rfl rfl trivial
  | closing hr hc => exact h.readerCall hr hc

theorem Inv.step {a : Action} (h : s.Inv) (hok : s.Undisturbed a) (hs : s.step opts a = some t) :
    t.Inv := by
  cases a with
  | advance d =>
    cases hs
    have hl : Later s { s with now := s.now + d } :=
      later_of_eq (fun _ => rfl) rfl rfl (subset_refl _) rfl rfl
    exact h.later hl (hl.readerOk h.reader fun _ _ ht => ht)
      (fun c hc => hl.closerOk (h.closers c hc)) h.registered
  | datagram addr =>
    simp only [Server.step] at hs
    split at hs
    · rename_i hr
      split at hs <;> cases hs
      · rename_i i hk
        exact h.goto hr rfl rfl (h.owns_of_table hk)
      · exact h.goto hr rfl rfl trivial
    · cases hs
  | read reply => exact h.stepRead hok (stepRead_cases hs)
  | look key tick =>
    simp only [Server.step] at hs
    split at hs
    · cases hs
    split at hs <;> cases hs
    exact h.look ‹_›
  | closer n => exact h.stepCloser hok hs
  | kill i =>
    simp only [Server.step] at hs
    split at hs
    · cases hs
    split at hs <;> cases hs
    exact h.markClosed i
  | release i =>
    simp only [Server.step, Server.stepRelease] at hs
    split at hs
    · cases hs
    split at hs <;> cases hs
    exact (h.modify i (f := fun sess => { sess with slot := false }) fun _ => rfl).quota _

end Steps

end Server

/-- **One peer key, one session, one close.**  In every run in which no session
is stored under a key some closer has looked at and is still to remove, and no
closer removes a session that is stored and not yet registered. -/
theorem one_session_one_close (opts : Options) (s : Server)
    (h : (server opts).Reaches Server.Undisturbed s) : s.OneClose := by
  refine Server.Inv.oneClose (h.inv ?_ ?_)
  · rintro s rfl
    exact Server.inv_start opts
  · intro s a t hs hok hst
    exact hs.step hok hst

/-! ### Three runs with one peer -/

def sweepOptions : Options := ⟨60, false, 0, 0⟩

def peerAddr : UDPAddr := ⟨[10, 0, 0, 1], 7, []⟩

/-- A datagram that makes a session, up to the end of the read loop's turn. -/
def firstDatagram : List Action := .datagram peerAddr :: List.replicate 6 (.read .ok)

/-- The sweep has looked at the peer's session and found it idle for 61. -/
def sweepDecides : List Action :=
  [.advance 61, .look (newPeerKey peerAddr) (some 61), .closer 0]

/-- A datagram whose plugin fails, so that the read loop closes session `i`. -/
def failingDatagram (i : Nat) : List Action :=
  [.datagram peerAddr, .read .ok, .read .ok, .read .fail, .read .ok, .read .ok, .read .ok,
   .release i, .read .ok, .read .ok, .read .ok]

def closerSteps : List Action := List.replicate 4 (.closer 0)

/-- The sweep loses the race for session 0, and a second session is made after it. -/
def sweepTooLate : List Action :=
  firstDatagram ++ sweepDecides ++ failingDatagram 0 ++ [.closer 0] ++ firstDatagram

theorem one_session_one_close_sweepTooLate :
    ∃ s, (server sweepOptions).Reaches Server.Undisturbed s ∧ s.OneClose ∧
      s.log = [.onAccept 0, .onClose 0, .onAccept 1] := by
  have hrun : ((server sweepOptions).runIf Server.Undisturbed (.start sweepOptions)
      sweepTooLate).map Server.log = some [.onAccept 0, .onClose 0, .onAccept 1] := by decide +kernel
  obtain ⟨s, hreach, hlog⟩ := Machine.exists_reaches hrun rfl
  exact ⟨s, hreach, one_session_one_close sweepOptions s hreach, hlog⟩

/-- The sweep has decided on session 0 when the read loop closes it and makes
session 1.  The sweep then removes session 1 and closes session 0 once more;
session 1 stays registered and is never closed. -/
theorem sweep_removes_new_session :
    ∃ s, (server sweepOptions).Reachable s ∧ s.reader = .idle ∧
      s.closers = [.call .returned] ∧
      s.log = [.onAccept 0, .onClose 0, .onAccept 1, .onClose 0] ∧
      s.registered = {1} ∧ s.table.size = 0 ∧ ¬ s.OneClose := by
  have hrun : ((server sweepOptions).run (.start sweepOptions)
      (firstDatagram ++ sweepDecides ++ failingDatagram 0 ++ firstDatagram ++ closerSteps)).map
      (fun s => (s.reader, s.closers, s.log, s.registered, s.table.size))
      = some (.idle, [.call .returned], [.onAccept 0, .onClose 0, .onAccept 1, .onClose 0],
          {1}, 0) := by
    decide +kernel
  obtain ⟨s, hreach, heq⟩ := Machine.exists_reachable hrun rfl
  simp only [Prod.mk.injEq] at heq
  obtain ⟨hr, hc, hlog, hreg, hsize⟩ := heq
  refine ⟨s, hreach, hr, hc, hlog, hreg, hsize, ?_⟩
  intro hone
  rcases hone.once 0 (by rw [hlog]; decide) with ⟨_, h0⟩ | ⟨_, h1⟩
  · rw [Server.closes, hlog] at h0
    simp at h0
  · rw [Server.closes, hlog] at h1
    simp at h1

/-- `CloseSessions` runs over a session that is in the table and not registered
yet; the read loop then registers it. -/
def closedBeforeRegister : List Action :=
  [.datagram peerAddr, .read .ok, .read .ok, .look (newPeerKey peerAddr) none] ++
    List.replicate 4 (.closer 0) ++ [.release 0, .closer 0, .closer 0] ++
    List.replicate 4 (.read .ok)

theorem registered_after_close :
    ∃ s, (server sweepOptions).Reachable s ∧ s.reader = .idle ∧ s.closers = [.call .returned] ∧
      s.log = [.onClose 0, .onAccept 0] ∧ s.registered = {0} ∧ s.table.size = 0 ∧ ¬ s.OneClose := by
  have hrun : ((server sweepOptions).run (.start sweepOptions) closedBeforeRegister).map
      (fun s => (s.reader, s.closers, s.log, s.registered, s.table.size))
      = some (.idle, [.call .returned], [.onClose 0, .onAccept 0], {0}, 0) := by
    decide +kernel
  obtain ⟨s, hreach, heq⟩ := Machine.exists_reachable hrun rfl
  simp only [Prod.mk.injEq] at heq
  obtain ⟨hr, hc, hlog, hreg, hsize⟩ := heq
  refine ⟨s, hreach, hr, hc, hlog, hreg, hsize, ?_⟩
  intro hone
  rcases hone.registered 0 (by rw [hreg]; decide) with ⟨key, hk⟩ | hun
  · rw [ExtTreeMap.eq_empty_iff_size_eq_zero.mpr hsize] at hk
    simp at hk
  rw [Server.unregistering, hr, hc] at hun
  revert hun
  decide

end SharkSocket.Udp
