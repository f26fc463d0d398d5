import SharkSocket.Lib.Keys
import SharkSocket.Lib.Machine
import SharkSocket.Lwm2m.Command

/-!
# The registry and its resources

Registrations and resources are two maps.  `Consistent` is what every call keeps:
the maps have the same endpoints, there is room for all of them, and every
lifetime is positive and at most thirty days.

A call that fails leaves both maps alone.  For most calls that is the shape of
the code.  `Register` on a full table first sweeps the expired registrations, so
there it needs the bound: a sweep that frees an entry makes the table smaller
than its limit, and the registration is not refused (`makeRoom_of_full`).

* `registry_consistent`: both facts, for every sequence of calls.
-/

namespace SharkSocket.Lwm2m

open Lib
open Std (ExtTreeMap)

inductive RegistryCall
  | register (now since : Int) (endpoint : Bytes) (lifetime : Int) (objects : List ObjectPath)
  | update (now : Int) (endpoint : Bytes) (lifetime : Int)
  | deregister (endpoint : Bytes)
  | write (now : Int) (endpoint : Bytes) (path : ObjectPath) (value : Bytes)
  | sweepExpired (now : Int)
  | handleCoAPPayload (walk : WalkOrder (Int × ObjectDefinition)) (now since : Int) (payload : Bytes)
  | registerObject (definition : ObjectDefinition)

/-- The error a call returned, if any. -/
def errorOf {α : Type} : Except Err α → Option Err
  | .error e => some e
  | .ok _ => none

namespace Server

def call (s : Server) : RegistryCall → Option Err × Server
  | .register now since endpoint lifetime objects =>
    let r := s.register now since endpoint lifetime objects
    (errorOf r.1, r.2)
  | .update now endpoint lifetime =>
    let r := s.update now endpoint lifetime
    (errorOf r.1, r.2)
  | .deregister endpoint => (none, s.deregister endpoint)
  | .write now endpoint path value =>
    let r := s.write now endpoint path value
    (errorOf r.1, r.2)
  | .sweepExpired now => (none, (s.sweepExpired now).2)
  | .handleCoAPPayload walk now since payload =>
    let a := s.handleCoAPPayloadAt walk now since payload
    (errorOf a.result, a.server)
  | .registerObject definition => (none, s.registerObject definition)

structure Consistent (s : Server) : Prop where
  same : ∀ e, e ∈ s.resources ↔ e ∈ s.registrations
  bounded : s.registrations.size ≤ s.maxRegistrations
  lifetimes : ∀ (e : Bytes) (reg : Registration), s.registrations[e]? = some reg →
    0 < reg.lifetime ∧ reg.lifetime ≤ maxLifetime
  default : 0 < s.defaultLife

/-- What a refused call leaves alone. -/
def SameMaps (s t : Server) : Prop :=
  t.registrations = s.registrations ∧ t.resources = s.resources

theorem SameMaps.refl (s : Server) : s.SameMaps s := ⟨rfl, rfl⟩

/-! ### Sweeping -/

variable {s : Server} {e : Err}

theorem mem_sweepLocked {now : Int} {e : Bytes} : e ∈ (s.sweepLocked now).registrations ↔
      ∃ reg, s.registrations[e]? = some reg ∧ reg.expired now = false := by
  simp only [sweepLocked, mem_filter_iff, Bool.not_eq_true']

theorem Consistent.sweepLocked (h : s.Consistent) (now : Int) : (s.sweepLocked now).Consistent := by
  refine ⟨?_, ?_, ?_, h.default⟩
  · intro e
    rw [mem_sweepLocked]
    simp only [Server.sweepLocked, mem_filter_iff, decide_eq_true_eq]
    constructor
    · rintro ⟨m, hm, hgone⟩
      obtain ⟨reg, hreg⟩ := mem_iff_getElem?.mp ((h.same e).mp (mem_iff_getElem?.mpr ⟨m, hm⟩))
      refine ⟨reg, hreg, ?_⟩
      by_contra hexp
      exact hgone ⟨reg, hreg, by simpa using hexp⟩
    · rintro ⟨reg, hreg, hexp⟩
      obtain ⟨m, hm⟩ := mem_iff_getElem?.mp ((h.same e).mpr (mem_iff_getElem?.mpr ⟨reg, hreg⟩))
      refine ⟨m, hm, ?_⟩
      rintro ⟨reg', hreg', hexp'⟩
      rw [hreg] at hreg'
      cases hreg'
      rw [hexp] at hexp'
      cases hexp'
  · exact ExtTreeMap.size_filter_le_size.trans h.bounded
  · intro e reg hreg
    simp only [Server.sweepLocked, ExtTreeMap.getElem?_filter', Option.filter_eq_some_iff] at hreg
    exact h.lifetimes e reg hreg.1

/-- A sweep that frees no entry changes nothing. -/
theorem sweepLocked_of_size {now : Int}
    (hsize : (s.sweepLocked now).registrations.size = s.registrations.size) :
    s.SameMaps (s.sweepLocked now) := by
  have hregs : (s.sweepLocked now).registrations = s.registrations := filter_eq_self_of_size hsize
  refine ⟨hregs, ExtTreeMap.filter_eq_self_iff.mpr fun e he => ?_⟩
  simp only [decide_eq_true_eq, mem_filter_iff]
  rintro ⟨reg, hreg, hexp⟩
  rw [← hregs] at hreg
  obtain ⟨reg', hreg', hlive⟩ := mem_sweepLocked.mp (mem_iff_getElem?.mpr ⟨reg, hreg⟩)
  rw [hregs] at hreg
  rw [hreg] at hreg'
  cases hreg'
  rw [hlive] at hexp
  cases hexp

theorem makeRoom_eq (s : Server) (now since : Int) : s.makeRoom now since = s ∨
      s.makeRoom now since = { s.sweepLocked now with lastSweepAt := some now } := by
  unfold makeRoom
  extract_lets due
  by_cases hdue : due = true
  · exact .inr (if_pos hdue)
  · exact .inl (if_neg hdue)

theorem Consistent.makeRoom (h : s.Consistent) (now since : Int) :
    (s.makeRoom now since).Consistent := by
  rcases makeRoom_eq s now since with heq | heq
  · rw [heq]
    exact h
  have hs := h.sweepLocked now
  rw [heq]
  exact ⟨hs.same, hs.bounded, hs.lifetimes, hs.default⟩

/-- **A refused registration finds the table as it was**: if the table is full after
the sweep, the sweep freed nothing. -/
theorem makeRoom_of_full (h : s.Consistent) {now since : Int}
    (hfull : s.maxRegistrations ≤ (s.makeRoom now since).registrations.size) :
    s.SameMaps (s.makeRoom now since) := by
  rcases makeRoom_eq s now since with heq | heq
  · rw [heq]
    exact .refl s
  rw [heq] at hfull ⊢
  have hle : (s.sweepLocked now).registrations.size ≤ s.registrations.size :=
    ExtTreeMap.size_filter_le_size
  exact sweepLocked_of_size (hle.antisymm (h.bounded.trans hfull))

/-! ### Registering -/

theorem Consistent.store (h : s.Consistent) {reg : Registration}
    (hlife : 0 < reg.lifetime ∧ reg.lifetime ≤ maxLifetime)
    (hroom : reg.endpoint ∈ s.registrations ∨ s.registrations.size < s.maxRegistrations) :
    (s.store reg).Consistent := by
  refine ⟨?_, ?_, ?_, h.default⟩
  · intro e
    have hres : e ∈ (s.store reg).resources ↔ e = reg.endpoint ∨ e ∈ s.resources := by
      unfold Server.store
      split
      · rename_i hin
        refine ⟨.inr, ?_⟩
        rintro (rfl | he)
        · exact hin
        · exact he
      · exact mem_insert_iff
    rw [hres, h.same e]
    exact mem_insert_iff.symm
  · simp only [Server.store, ExtTreeMap.size_insert]
    split
    · exact h.bounded
    rename_i hnew
    exact hroom.resolve_left hnew
  · exact forall_insert h.lifetimes hlife

/-- The lifetime `Register` stores. -/
def clampLifetime (s : Server) (lifetime : Int) : Int :=
  let lifetime := if lifetime ≤ 0 then s.defaultLife else lifetime
  if maxLifetime < lifetime then maxLifetime else lifetime

theorem clampLifetime_range (h : 0 < s.defaultLife) (lifetime : Int) :
    0 < s.clampLifetime lifetime ∧ s.clampLifetime lifetime ≤ maxLifetime := by
  have hmax : 0 < maxLifetime := by decide
  unfold clampLifetime
  dsimp only
  split <;> split <;> omega

/-- What `Register` can do: store, in the table as it is or as the sweep left it, or
refuse. -/
theorem register_cases (s : Server) (now since : Int) (endpoint : Bytes) (lifetime : Int)
    (objects : List ObjectPath) :
    let reg : Registration := ⟨endpoint, s.clampLifetime lifetime, objects, now, now⟩
    (∃ t, (t = s ∨ t = s.makeRoom now since) ∧
      (endpoint ∈ t.registrations ∨ t.registrations.size < t.maxRegistrations) ∧
      s.register now since endpoint lifetime objects = (.ok reg, t.store reg)) ∨
    (s.maxRegistrations ≤ (s.makeRoom now since).registrations.size ∧
      s.register now since endpoint lifetime objects =
        (.error errRegistrationLimit, s.makeRoom now since)) := by
  have hmax : (s.makeRoom now since).maxRegistrations = s.maxRegistrations := by
    rcases makeRoom_eq s now since with heq | heq
    · rw [heq]
    rw [heq]
    rfl
  unfold register
  by_cases hin : endpoint ∈ s.registrations
  · refine .inl ⟨s, .inl rfl, .inl hin, ?_⟩
    rw [if_pos hin]
    rfl
  simp only [if_neg hin]
  by_cases hfull : s.maxRegistrations ≤ s.registrations.size
  · simp only [if_pos hfull]
    by_cases hstill : s.maxRegistrations ≤ (s.makeRoom now since).registrations.size
    · exact .inr ⟨hstill, if_pos (hmax ▸ hstill)⟩
    refine .inl ⟨_, .inr rfl, .inr (hmax ▸ not_le.mp hstill), ?_⟩
    rw [if_neg (hmax ▸ hstill)]
    rfl
  refine .inl ⟨s, .inl rfl, .inr (not_le.mp hfull), ?_⟩
  simp only [if_neg hfull]
  rfl

theorem Consistent.register (h : s.Consistent) (now since : Int) (endpoint : Bytes) (lifetime : Int)
    (objects : List ObjectPath) :
    (s.register now since endpoint lifetime objects).2.Consistent := by
  rcases register_cases s now since endpoint lifetime objects with ⟨t, ht, hroom, heq⟩ | ⟨-, heq⟩
  · rw [heq]
    have hcons : t.Consistent := by
      rcases ht with rfl | rfl
      · exact h
      · exact h.makeRoom now since
    exact hcons.store (clampLifetime_range h.default lifetime) hroom
  rw [heq]
  exact h.makeRoom now since

theorem register_error (h : s.Consistent) (now since : Int) (endpoint : Bytes) (lifetime : Int)
    (objects : List ObjectPath)
    (herr : errorOf (s.register now since endpoint lifetime objects).1 = some e) :
    s.SameMaps (s.register now since endpoint lifetime objects).2 := by
  rcases register_cases s now since endpoint lifetime objects with ⟨t, -, -, heq⟩ | ⟨hfull, heq⟩
  · rw [heq] at herr
    cases herr
  rw [heq]
  exact makeRoom_of_full h hfull

/-! ### The other calls -/

theorem Consistent.update (h : s.Consistent) (now : Int) (endpoint : Bytes) (lifetime : Int) :
    (s.update now endpoint lifetime).2.Consistent := by
  unfold Server.update
  split
  · exact h
  rename_i reg hreg
  have hin : endpoint ∈ s.registrations := mem_iff_getElem?.mpr ⟨reg, hreg⟩
  obtain ⟨hpos, hle⟩ := h.lifetimes endpoint reg hreg
  refine ⟨?_, ?_, ?_, h.default⟩
  · intro e
    rw [h.same e, mem_insert_iff]
    refine ⟨.inr, ?_⟩
    rintro (rfl | he)
    · exact hin
    · exact he
  · rw [ExtTreeMap.size_insert, if_pos (ExtTreeMap.contains_iff_mem.mpr hin)]
    exact h.bounded
  · refine forall_insert h.lifetimes ?_
    dsimp only
    split <;> omega

theorem update_error (s : Server) (now : Int) (endpoint : Bytes) (lifetime : Int)
    (herr : errorOf (s.update now endpoint lifetime).1 = some e) :
    s.SameMaps (s.update now endpoint lifetime).2 := by
  unfold update at herr ⊢
  split at herr
  · exact .refl s
  · cases herr

theorem Consistent.deregister (h : s.Consistent) (endpoint : Bytes) :
    (s.deregister endpoint).Consistent := by
  refine ⟨?_, ?_, forall_erase h.lifetimes endpoint, h.default⟩
  · intro e
    simp only [Server.deregister, ExtTreeMap.mem_erase, h.same e]
  · exact ExtTreeMap.size_erase_le.trans h.bounded

theorem Consistent.write (h : s.Consistent) (now : Int) (endpoint : Bytes) (path : ObjectPath)
    (value : Bytes) : (s.write now endpoint path value).2.Consistent := by
  unfold Server.write
  split
  · exact h
  rename_i hin
  split
  · exact h
  refine ⟨?_, h.bounded, h.lifetimes, h.default⟩
  intro e
  rw [mem_insert_iff, h.same e]
  refine ⟨?_, .inr⟩
  rintro (rfl | he)
  · exact not_not.mp hin
  · exact he

theorem write_error (s : Server) (now : Int) (endpoint : Bytes) (path : ObjectPath) (value : Bytes)
    (herr : errorOf (s.write now endpoint path value).1 = some e) :
    s.SameMaps (s.write now endpoint path value).2 := by
  unfold write at herr ⊢
  split
  · exact .refl s
  split
  · exact .refl s
  rename_i hin hro
  rw [if_neg hin, if_neg hro] at herr
  cases herr

/-! ### Commands -/

theorem Consistent.exec (h : s.Consistent) (walk : WalkOrder (Int × ObjectDefinition))
    (now since : Int) (c : Command) : (s.exec walk now since c).server.Consistent := by
  cases c with
  | register endpoint lifetime objects =>
    have hr := h.register now since endpoint lifetime objects
    dsimp only [Server.exec]
    split <;> (rename_i he; rw [he] at hr; exact hr)
  | update endpoint lifetime =>
    have hr := h.update now endpoint lifetime
    dsimp only [Server.exec]
    split <;> (rename_i he; rw [he] at hr; exact hr)
  | deregister endpoint => exact h.deregister endpoint
  | write endpoint raw path value =>
    have hr := h.write now endpoint path value
    dsimp only [Server.exec]
    split <;> (rename_i he; rw [he] at hr; exact hr)
  | read endpoint path =>
    dsimp only [Server.exec]
    split <;> exact h
  | discover =>
    dsimp only [Server.exec, handleDiscover]
    split <;> exact h

theorem exec_error (h : s.Consistent) {walk : WalkOrder (Int × ObjectDefinition)} {now since : Int}
    {c : Command} (herr : errorOf (s.exec walk now since c).result = some e) :
    s.SameMaps (s.exec walk now since c).server := by
  cases c with
  | register endpoint lifetime objects =>
    have hr := register_error (e := e) h now since endpoint lifetime objects
    dsimp only [exec] at herr ⊢
    split at herr <;> (rename_i he; rw [he] at hr; exact hr herr)
  | update endpoint lifetime =>
    have hr := update_error (e := e) s now endpoint lifetime
    dsimp only [exec] at herr ⊢
    split at herr <;> (rename_i he; rw [he] at hr; exact hr herr)
  | deregister endpoint => cases herr
  | write endpoint raw path value =>
    have hr := write_error (e := e) s now endpoint path value
    dsimp only [exec] at herr ⊢
    split at herr <;> (rename_i he; rw [he] at hr; exact hr herr)
  | read endpoint path =>
    dsimp only [exec]
    split <;> exact .refl s
  | discover =>
    dsimp only [exec, handleDiscover]
    split <;> exact .refl s

/-! ### Whole runs -/

theorem Consistent.call (h : s.Consistent) (c : RegistryCall) : (s.call c).2.Consistent := by
  cases c with
  | register now since endpoint lifetime objects =>
    exact h.register now since endpoint lifetime objects
  | update now endpoint lifetime => exact h.update now endpoint lifetime
  | deregister endpoint => exact h.deregister endpoint
  | write now endpoint path value => exact h.write now endpoint path value
  | sweepExpired now => exact h.sweepLocked now
  | handleCoAPPayload walk now since payload =>
    dsimp only [Server.call]
    rw [handleCoAPPayloadAt_eq]
    unfold run
    split
    · exact h
    · exact h.exec walk now since _
  | registerObject definition => exact ⟨h.same, h.bounded, h.lifetimes, h.default⟩

theorem call_error (h : s.Consistent) {c : RegistryCall} (herr : (s.call c).1 = some e) :
    s.SameMaps (s.call c).2 := by
  cases c with
  | register now since endpoint lifetime objects =>
    exact register_error h now since endpoint lifetime objects herr
  | update now endpoint lifetime => exact update_error s now endpoint lifetime herr
  | deregister endpoint => cases herr
  | write now endpoint path value => exact write_error s now endpoint path value herr
  | sweepExpired now => cases herr
  | handleCoAPPayload walk now since payload =>
    dsimp only [Server.call] at herr ⊢
    rw [handleCoAPPayloadAt_eq] at herr ⊢
    unfold run at herr ⊢
    split at herr
    · exact .refl s
    · exact exec_error h herr
  | registerObject definition => cases herr

end Server

def registry : Machine Server RegistryCall where
  init s := ∃ opts, s = newServer opts
  step s c := some (s.call c).2

theorem consistent_newServer (opts : List ServerOption) : (newServer opts).Consistent := by
  have hkeep : ∀ (opts : List ServerOption) (s : Server), s.registrations = ∅ → s.resources = ∅ →
      0 < s.defaultLife → (opts.foldl Server.configure s).Consistent := by
    intro opts
    induction opts with
    | nil =>
      intro s hregs hres hlife
      refine ⟨?_, ?_, ?_, hlife⟩
      · intro e
        rw [List.foldl_nil, hregs, hres]
        simp
      · rw [List.foldl_nil, hregs]
        exact Nat.zero_le _
      · intro e reg hreg
        rw [List.foldl_nil, hregs] at hreg
        simp at hreg
    | cons opt opts ih =>
      intro s hregs hres hlife
      rw [List.foldl_cons]
      cases opt with
      | maxRegistrations max =>
        unfold Server.configure
        dsimp only
        split
        · exact ih _ hregs hres hlife
        · exact ih s hregs hres hlife
      | defaultLifetime lifetime =>
        unfold Server.configure
        dsimp only
        split
        · rename_i hpos
          exact ih _ hregs hres hpos
        · exact ih s hregs hres hlife
  exact hkeep opts .new rfl rfl (by decide)

theorem consistent_of_reachable {s : Server} (h : registry.Reachable s) : s.Consistent := by
  refine Machine.Reaches.inv ?_ ?_ h
  · rintro s ⟨opts, rfl⟩
    exact consistent_newServer opts
  · intro s c t hs _ hst
    cases hst
    exact hs.call c

/-- **The registry is consistent.**  After any calls, with any endpoints, lifetimes
and clock readings: the endpoints with resources are the registered ones, there are
at most `maxRegistrations`, every lifetime is positive and at most thirty days, and a
call that fails leaves registrations and resources as they were. -/
theorem registry_consistent (s : Server) (h : registry.Reachable s) :
    (∀ e, e ∈ s.resources ↔ e ∈ s.registrations) ∧
    s.registrations.size ≤ s.maxRegistrations ∧
    (∀ (e : Bytes) (reg : Registration), s.registrations[e]? = some reg →
      0 < reg.lifetime ∧ reg.lifetime ≤ 30 * 24 * 3600 * second) ∧
    ∀ c err, (s.call c).1 = some err →
      (s.call c).2.registrations = s.registrations ∧ (s.call c).2.resources = s.resources := by
  have hs := consistent_of_reachable h
  exact ⟨hs.same, hs.bounded, hs.lifetimes, fun c err herr => Server.call_error hs herr⟩

/-- A table of one place, and a command that is refused while the first endpoint is
live. -/
def fullTable : List RegistryCall :=
  [.register 0 0 (ascii "a") (5 * second) [],
    .handleCoAPPayload .id second second (ascii "register b 60")]

theorem registry_consistent_fullTable :
    ∃ s, registry.Reachable s ∧ (s.call (.register second second (ascii "b") 0 [])).1 =
        some errRegistrationLimit ∧
      (s.call (.register second second (ascii "b") 0 [])).2.registrations = s.registrations ∧
      s.registrations.size ≤ s.maxRegistrations := by
  have hrun : ((registry.run (newServer [.maxRegistrations 1]) fullTable).map fun s =>
      (s.call (.register second second (ascii "b") 0 [])).1) = some (some errRegistrationLimit) := by
    decide +kernel
  obtain ⟨s, hreach, herr⟩ := Machine.exists_reachable hrun ⟨[.maxRegistrations 1], rfl⟩
  obtain ⟨-, hsize, -, hsame⟩ := registry_consistent s hreach
  exact ⟨s, hreach, herr, (hsame _ _ herr).1, hsize⟩

end SharkSocket.Lwm2m
