import SharkSocket.Lib.Machine
import SharkSocket.Lib.Pool

/-!
# `plugin/lifecycle.go`: starting and stopping a background goroutine

`begin`, `done` and `shutdown` each have one critical section under `mu`, so a run is an
interleaving of these sections, of the `wg.Done()` behind `done`'s and of the returns from
the `wg.Wait()` behind `shutdown`'s.  Every `begin` that succeeds starts a cycle: a stop
channel, a WaitGroup and a goroutine that calls `done` once, after it has seen its channel
closed.

`Inv` ties the fields of the plugin to the cycles: while `started` is set there is one live
cycle, and `stopCh` and `running` are its own.  Everything else follows
(`lifecycle_restartable`).
-/

namespace SharkSocket.Plugin

open Lib

/-- The fields under `mu`.  A channel and a WaitGroup are numbers. -/
structure Lifecycle where
  started : Bool
  closed : Bool
  stopCh : Option Nat
  running : Option Nat
  deriving DecidableEq, Repr

namespace Lifecycle

def zero : Lifecycle := ⟨false, false, none, none⟩

/-- `begin`, given the channel and the WaitGroup that it makes; `none` is `(nil, false)`. -/
def begin (l : Lifecycle) (stopCh wg : Nat) : Option Lifecycle :=
  if l.started then none else some ⟨true, false, some stopCh, some wg⟩

/-- The critical section of `done`, and the WaitGroup that it read. -/
def done (l : Lifecycle) : Lifecycle × Option Nat :=
  ({ l with running := none, started := false }, l.running)

/-- The critical section of `shutdown`: the channel it closes, if it closes one, and the
WaitGroup that it read; `none` if the plugin is not started. -/
def shutdown (l : Lifecycle) : Option (Lifecycle × Option (Option Nat) × Option Nat) :=
  if !l.started then none
  else if !l.closed then some ({ l with closed := true }, some l.stopCh, l.running)
  else some (l, none, l.running)

end Lifecycle

/-- Where the goroutine of a cycle is: before `done`, between its critical section and
`wg.Done()`, and behind that.  `wg` is the WaitGroup that `done` read. -/
inductive CyclePhase
  | live
  | cleared (wg : Option Nat)
  | ended (wg : Option Nat)
  deriving DecidableEq, Repr

/-- A `begin` that succeeded, with the channel and the WaitGroup that it made. -/
structure Cycle where
  stopCh : Nat
  wg : Nat
  phase : CyclePhase
  deriving DecidableEq, Repr

/-- A `shutdown` whose critical section is over.  `found` is the WaitGroup of the cycle
that it found, and `none` if the plugin was not started. -/
structure ShutdownCall where
  found : Option (Option Nat)
  returned : Bool
  deriving DecidableEq, Repr

/-- `closes` has the channels that `close` was called with, `wgs` the counters of the
WaitGroups. -/
structure Lives where
  lc : Lifecycle
  channels : Nat
  closes : List (Option Nat)
  wgs : List Int
  cycles : List Cycle
  shutdowns : List ShutdownCall
  deriving DecidableEq, Repr

inductive LifeAct
  | begin
  | shutdown
  | wake (n : Nat)
  | done (n : Nat)
  | release (n : Nat)
  deriving DecidableEq, Repr

namespace Lives

def init : Lives := ⟨.zero, 0, [], [], [], []⟩

/-- `wg.Wait()` returns; a nil WaitGroup is not waited for. -/
def Released (s : Lives) : Option Nat → Prop
  | none => True
  | some w => s.wgs[w]? = some 0

instance (s : Lives) : (wg : Option Nat) → Decidable (s.Released wg)
  | none => inferInstanceAs (Decidable True)
  | some w => inferInstanceAs (Decidable (s.wgs[w]? = some 0))

/-- `wg.Done()`, which is not called on a nil WaitGroup. -/
def doneOn (wgs : List Int) : Option Nat → List Int
  | none => wgs
  | some w => wgs.modify w (· - 1)

def step (s : Lives) : LifeAct → Option Lives
  | .begin =>
    match s.lc.begin s.channels s.wgs.length with
    | none => some s
    | some lc =>
      some { s with
        lc := lc, channels := s.channels + 1, wgs := s.wgs ++ [1]
        cycles := s.cycles ++ [⟨s.channels, s.wgs.length, .live⟩] }
  | .shutdown =>
    match s.lc.shutdown with
    | none => some { s with shutdowns := s.shutdowns ++ [⟨none, true⟩] }
    | some (lc, close, wg) =>
      some { s with
        lc := lc, closes := s.closes ++ close.toList
        shutdowns := s.shutdowns ++ [⟨some wg, false⟩] }
  | .wake n =>
    match s.shutdowns[n]? with
    | some ⟨some wg, false⟩ =>
      if s.Released wg then some { s with shutdowns := s.shutdowns.set n ⟨some wg, true⟩ } else none
    | _ => none
  | .done n =>
    match s.cycles[n]? with
    | some ⟨stopCh, wg, .live⟩ =>
      if some stopCh ∈ s.closes then
        some { s with
          lc := s.lc.done.1, cycles := s.cycles.set n ⟨stopCh, wg, .cleared s.lc.done.2⟩ }
      else none
    | _ => none
  | .release n =>
    match s.cycles[n]? with
    | some ⟨stopCh, wg, .cleared seen⟩ =>
      some { s with wgs := doneOn s.wgs seen, cycles := s.cycles.set n ⟨stopCh, wg, .ended seen⟩ }
    | _ => none

/-- What a step can do. -/
inductive Step (s : Lives) : LifeAct → Lives → Prop
  | refused : s.lc.started = true → Step s .begin s
  | began : s.lc.started = false →
      Step s .begin { s with
        lc := ⟨true, false, some s.channels, some s.wgs.length⟩, channels := s.channels + 1
        wgs := s.wgs ++ [1], cycles := s.cycles ++ [⟨s.channels, s.wgs.length, .live⟩] }
  | idle : s.lc.started = false →
      Step s .shutdown { s with shutdowns := s.shutdowns ++ [⟨none, true⟩] }
  | closing : s.lc.started = true → s.lc.closed = false →
      Step s .shutdown { s with
        lc := { s.lc with closed := true }, closes := s.closes ++ [s.lc.stopCh]
        shutdowns := s.shutdowns ++ [⟨some s.lc.running, false⟩] }
  | joined : s.lc.started = true → s.lc.closed = true →
      Step s .shutdown { s with shutdowns := s.shutdowns ++ [⟨some s.lc.running, false⟩] }
  | woke {n : Nat} {wg : Option Nat} : s.shutdowns[n]? = some ⟨some wg, false⟩ → s.Released wg →
      Step s (.wake n) { s with shutdowns := s.shutdowns.set n ⟨some wg, true⟩ }
  | cleared {n stopCh wg : Nat} : s.cycles[n]? = some ⟨stopCh, wg, .live⟩ →
      some stopCh ∈ s.closes →
      Step s (.done n) { s with
        lc := { s.lc with running := none, started := false }
        cycles := s.cycles.set n ⟨stopCh, wg, .cleared s.lc.running⟩ }
  | released {n stopCh wg : Nat} {seen : Option Nat} :
      s.cycles[n]? = some ⟨stopCh, wg, .cleared seen⟩ →
      Step s (.release n) { s with
        wgs := doneOn s.wgs seen, cycles := s.cycles.set n ⟨stopCh, wg, .ended seen⟩ }

theorem step_cases {s t : Lives} {a : LifeAct} (h : s.step a = some t) : Step s a t := by
  cases a with
  | begin =>
    cases hst : s.lc.started with
    | true =>
      rw [step, Lifecycle.begin, if_pos hst] at h
      cases h
      exact .refused hst
    | false =>
      rw [step, Lifecycle.begin, if_neg (by simp [hst])] at h
      cases h
      exact .began hst
  | shutdown =>
    cases hst : s.lc.started with
    | false =>
      rw [step, Lifecycle.shutdown, if_pos (by simp [hst])] at h
      cases h
      exact .idle hst
    | true =>
      cases hcl : s.lc.closed with
      | false =>
        rw [step, Lifecycle.shutdown, if_neg (by simp [hst]), if_pos (by simp [hcl])] at h
        cases h
        exact .closing hst hcl
      | true =>
        rw [step, Lifecycle.shutdown, if_neg (by simp [hst]), if_neg (by simp [hcl])] at h
        cases h
        simpa using Step.joined hst hcl
  | wake n =>
    rw [step] at h
    split at h
    · rename_i wg hn
      split at h
      · cases h
        exact .woke hn ‹_›
      · cases h
    · cases h
  | done n =>
    rw [step] at h
    split at h
    · rename_i stopCh wg hn
      split at h
      · cases h
        exact .cleared hn ‹_›
      · cases h
    · cases h
  | release n =>
    rw [step] at h
    split at h
    · rename_i stopCh wg seen hn
      cases h
      exact .released hn
    · cases h

end Lives

def lives : Machine Lives LifeAct where
  init s := s = .init
  step := Lives.step

/-! ### The invariant -/

/-- The counter of a cycle's WaitGroup. -/
def CyclePhase.count : CyclePhase → Int
  | live => 1
  | cleared _ => 1
  | ended _ => 0

namespace Lives

/-- The cycle at place `n` has the channel and the WaitGroup of that number.  When it is
live the plugin's fields are its own; when `done` has run, it has read its WaitGroup. -/
structure CycleOk (s : Lives) (n : Nat) (c : Cycle) : Prop where
  stopCh : c.stopCh = n
  wg : c.wg = n
  live : c.phase = .live →
    s.lc.started = true ∧ s.lc.stopCh = some n ∧ s.lc.running = some n
  seen : ∀ wg, c.phase = .cleared wg ∨ c.phase = .ended wg → wg = some n
  count : s.wgs[n]? = some c.phase.count

structure Inv (s : Lives) : Prop where
  channels : s.channels = s.cycles.length
  wgs : s.wgs.length = s.cycles.length
  cycle : ∀ (n : Nat) (c : Cycle), s.cycles[n]? = some c → CycleOk s n c
  live : s.lc.started = true → ∃ (n : Nat) (c : Cycle), s.cycles[n]? = some c ∧ c.phase = .live
  nodup : s.closes.Nodup
  made : ∀ o ∈ s.closes, ∃ n < s.cycles.length, o = some n
  unclosed : s.lc.started = true → s.lc.closed = false → s.lc.stopCh ∉ s.closes
  found : ∀ d ∈ s.shutdowns, ∀ o, d.found = some o → ∃ (n : Nat) (c : Cycle), o = some n ∧
    s.cycles[n]? = some c ∧ (d.returned = true → ∃ wg, c.phase = .ended wg)

theorem inv_init : Inv init where
  channels := rfl
  wgs := rfl
  cycle := by rintro n c ⟨⟩
  live := by rintro ⟨⟩
  nodup := List.nodup_nil
  made := by rintro o ⟨⟩
  unclosed := by rintro ⟨⟩
  found := by rintro d ⟨⟩

variable {s : Lives}

/-- A started plugin runs the cycle whose channel and WaitGroup it has. -/
theorem Inv.current (h : Inv s) (hst : s.lc.started = true) : ∃ (n : Nat) (c : Cycle),
    s.cycles[n]? = some c ∧ c.phase = .live ∧ s.lc.stopCh = some n ∧ s.lc.running = some n := by
  obtain ⟨n, c, hc, hlive⟩ := h.live hst
  obtain ⟨-, hch, hwg⟩ := (h.cycle n c hc).live hlive
  exact ⟨n, c, hc, hlive, hch, hwg⟩

variable {k n : Nat} {t : Lives}

section

variable (h : Inv s)
include h

/-- Only the current cycle is live. -/
theorem Inv.live_unique {m : Nat} {c d : Cycle} (hc : s.cycles[m]? = some c)
    (hd : s.cycles[n]? = some d) (hlive : c.phase = .live) (hlive' : d.phase = .live) : m = n := by
  have hm := ((h.cycle m c hc).live hlive).2.1
  have hn := ((h.cycle n d hd).live hlive').2.1
  rw [hm] at hn
  exact Option.some.inj hn

theorem Inv.began (hst : s.lc.started = false) :
    Inv { s with
      lc := ⟨true, false, some s.channels, some s.wgs.length⟩, channels := s.channels + 1
      wgs := s.wgs ++ [1], cycles := s.cycles ++ [⟨s.channels, s.wgs.length, .live⟩] } := by
  have hch := h.channels
  have hwgs := h.wgs
  refine ⟨?_, ?_, ?_, ?_, h.nodup, ?_, ?_, ?_⟩
  · simp [hch]
  · simp [hwgs]
  · intro n c hc
    rcases getElem?_concat_eq_some.mp hc with hc | ⟨rfl, rfl⟩
    · have hok := h.cycle n c hc
      have hlt : n < s.wgs.length := by
        rw [hwgs]
        exact (List.getElem?_eq_some_iff.mp hc).1
      refine ⟨hok.stopCh, hok.wg, ?_, hok.seen, ?_⟩
      · intro hlive
        rw [(hok.live hlive).1] at hst
        cases hst
      · show (s.wgs ++ [1])[n]? = _
        rw [List.getElem?_append_left hlt, hok.count]
    · refine ⟨hch, hwgs, fun _ => ⟨rfl, by simp [hch], by simp [hwgs]⟩, ?_, ?_⟩
      · rintro wg (hw | hw) <;> cases hw
      · show (s.wgs ++ [1])[s.cycles.length]? = some 1
        rw [← hwgs]
        simp
  · intro _
    exact ⟨s.cycles.length, _, List.getElem?_concat_length, rfl⟩
  · intro o ho
    obtain ⟨n, hn, rfl⟩ := h.made o ho
    exact ⟨n, by simp; omega, rfl⟩
  · intro _ _ hmem
    obtain ⟨n, hn, heq⟩ := h.made _ hmem
    rw [Option.some_inj] at heq
    omega
  · intro d hd o ho
    obtain ⟨n, c, rfl, hc, hret⟩ := h.found d hd o ho
    exact ⟨n, c, rfl, getElem?_concat_eq_some.mpr (.inl hc), hret⟩

/-- A shutdown that found the running cycle. -/
theorem Inv.found_concat (hst : s.lc.started = true) :
    ∀ d ∈ s.shutdowns ++ [⟨some s.lc.running, false⟩], ∀ o, d.found = some o →
      ∃ (n : Nat) (c : Cycle), o = some n ∧ s.cycles[n]? = some c ∧
        (d.returned = true → ∃ wg, c.phase = .ended wg) := by
  refine forall_mem_concat h.found ?_
  rintro o ⟨⟩
  obtain ⟨n, c, hc, -, -, hwg⟩ := h.current hst
  exact ⟨n, c, hwg, hc, by rintro ⟨⟩⟩

theorem Inv.closing (hst : s.lc.started = true) (hcl : s.lc.closed = false) :
    Inv { s with
      lc := { s.lc with closed := true }, closes := s.closes ++ [s.lc.stopCh]
      shutdowns := s.shutdowns ++ [⟨some s.lc.running, false⟩] } := by
  obtain ⟨n, c, hc, -, hch, -⟩ := h.current hst
  refine ⟨h.channels, h.wgs, ?_, h.live, ?_, ?_, by rintro _ ⟨⟩, h.found_concat hst⟩
  · intro m d hd
    have hok := h.cycle m d hd
    exact ⟨hok.stopCh, hok.wg, hok.live, hok.seen, hok.count⟩
  · rw [List.nodup_append_comm, List.singleton_append, List.nodup_cons]
    exact ⟨h.unclosed hst hcl, h.nodup⟩
  · exact forall_mem_concat h.made ⟨n, (List.getElem?_eq_some_iff.mp hc).1, hch⟩

theorem Inv.woke {wg : Option Nat} (hn : s.shutdowns[n]? = some ⟨some wg, false⟩)
    (hrel : s.Released wg) : Inv { s with shutdowns := s.shutdowns.set n ⟨some wg, true⟩ } := by
  refine ⟨h.channels, h.wgs, ?_, h.live, h.nodup, h.made, h.unclosed, ?_⟩
  · intro m d hd
    have hok := h.cycle m d hd
    exact ⟨hok.stopCh, hok.wg, hok.live, hok.seen, hok.count⟩
  · intro d hd o ho
    rcases List.mem_or_eq_of_mem_set hd with hd | rfl
    · exact h.found d hd o ho
    cases ho
    obtain ⟨m, c, rfl, hc, -⟩ := h.found _ (List.mem_of_getElem? hn) wg rfl
    refine ⟨m, c, rfl, hc, fun _ => ?_⟩
    -- the counter is zero, so the goroutine has called `wg.Done()`
    have hcount := (h.cycle m c hc).count
    have hzero : s.wgs[m]? = some 0 := hrel
    rw [hzero] at hcount
    cases hphase : c.phase with
    | live | cleared wg => rw [hphase] at hcount; cases hcount
    | ended wg => exact ⟨wg, rfl⟩

theorem Inv.cleared {stopCh wg : Nat} (hn : s.cycles[n]? = some ⟨stopCh, wg, .live⟩) :
    Inv { s with
      lc := { s.lc with running := none, started := false }
      cycles := s.cycles.set n ⟨stopCh, wg, .cleared s.lc.running⟩ } := by
  have hok := h.cycle n _ hn
  obtain ⟨-, hch, hwg⟩ := hok.live rfl
  refine ⟨?_, ?_, ?_, by rintro ⟨⟩, h.nodup, ?_, by rintro ⟨⟩, ?_⟩
  · rw [List.length_set]
    exact h.channels
  · rw [List.length_set]
    exact h.wgs
  · intro m d hd
    rcases getElem?_set_eq_some hd with ⟨rfl, rfl⟩ | ⟨hne, hd⟩
    · refine ⟨hok.stopCh, hok.wg, by rintro ⟨⟩, ?_, hok.count⟩
      rintro w (hw | hw)
      · cases hw
        exact hwg
      · cases hw
    have hok' := h.cycle m d hd
    refine ⟨hok'.stopCh, hok'.wg, ?_, hok'.seen, hok'.count⟩
    intro hlive
    exact absurd (h.live_unique hd hn hlive rfl) hne
  · intro o ho
    rw [List.length_set]
    exact h.made o ho
  · intro d hd o ho
    obtain ⟨m, c, rfl, hc, hret⟩ := h.found d hd o ho
    by_cases hmn : m = n
    · subst hmn
      rw [hn] at hc
      cases hc
      refine ⟨m, _, rfl, List.getElem?_set_self (List.getElem?_eq_some_iff.mp hn).1, ?_⟩
      intro hr
      obtain ⟨w, hw⟩ := hret hr
      cases hw
    · exact ⟨m, c, rfl, by rw [List.getElem?_set_ne (Ne.symm hmn), hc], hret⟩

theorem Inv.released {stopCh wg : Nat} {seen : Option Nat}
    (hn : s.cycles[n]? = some ⟨stopCh, wg, .cleared seen⟩) : Inv { s with
      wgs := doneOn s.wgs seen, cycles := s.cycles.set n ⟨stopCh, wg, .ended seen⟩ } := by
  have hok := h.cycle n _ hn
  obtain rfl : seen = some n := hok.seen seen (.inl rfl)
  have hlen : (doneOn s.wgs (some n)).length = s.wgs.length := List.length_modify ..
  refine ⟨?_, ?_, ?_, ?_, h.nodup, ?_, h.unclosed, ?_⟩
  · rw [List.length_set]
    exact h.channels
  · rw [List.length_set, ← h.wgs]
    exact hlen
  · intro m d hd
    rcases getElem?_set_eq_some hd with ⟨rfl, rfl⟩ | ⟨hne, hd⟩
    · refine ⟨hok.stopCh, hok.wg, by rintro ⟨⟩, ?_, ?_⟩
      · rintro w (hw | hw)
        · cases hw
        · cases hw
          rfl
      · show (s.wgs.modify m (· - 1))[m]? = some 0
        rw [List.getElem?_modify_eq, hok.count]
        rfl
    have hok' := h.cycle m d hd
    refine ⟨hok'.stopCh, hok'.wg, hok'.live, hok'.seen, ?_⟩
    show (s.wgs.modify n (· - 1))[m]? = _
    simp [Ne.symm hne, hok'.count]
  · intro hst
    obtain ⟨m, c, hc, hlive⟩ := h.live hst
    refine ⟨m, c, ?_, hlive⟩
    rw [List.getElem?_set_ne, hc]
    rintro rfl
    rw [hn] at hc
    cases hc
    cases hlive
  · intro o ho
    rw [List.length_set]
    exact h.made o ho
  · intro d hd o ho
    obtain ⟨m, c, rfl, hc, hret⟩ := h.found d hd o ho
    by_cases hmn : m = n
    · subst hmn
      exact ⟨m, _, rfl, List.getElem?_set_self (List.getElem?_eq_some_iff.mp hn).1,
        fun _ => ⟨_, rfl⟩⟩
    · exact ⟨m, c, rfl, by rw [List.getElem?_set_ne (Ne.symm hmn), hc], hret⟩

theorem inv_step {a : LifeAct} (hst : s.step a = some t) : Inv t := by
  cases step_cases hst with
  | refused => exact h
  | began hno => exact h.began hno
  | idle =>
    refine ⟨h.channels, h.wgs, ?_, h.live, h.nodup, h.made, h.unclosed, ?_⟩
    · intro n c hc
      have hok := h.cycle n c hc
      exact ⟨hok.stopCh, hok.wg, hok.live, hok.seen, hok.count⟩
    · exact forall_mem_concat h.found (by rintro o ⟨⟩)
  | closing hyes hopen => exact h.closing hyes hopen
  | joined hyes _ =>
    refine ⟨h.channels, h.wgs, ?_, h.live, h.nodup, h.made, h.unclosed, h.found_concat hyes⟩
    intro n c hc
    have hok := h.cycle n c hc
    exact ⟨hok.stopCh, hok.wg, hok.live, hok.seen, hok.count⟩
  | woke hn hrel => exact h.woke hn hrel
  | cleared hn _ => exact h.cleared hn
  | released hn => exact h.released hn

end

theorem inv_of_reachable {s : Lives} (h : lives.Reachable s) : Inv s := by
  refine Machine.Reaches.inv ?_ ?_ h
  · rintro s rfl
    exact inv_init
  · intro s a t hs _ hst
    exact inv_step hs hst

/-! ### The last call -/

/-- The cycle that is running was found by the shutdown at place `k`. -/
def Awaited (k : Nat) (s : Lives) : Prop :=
  s.lc.started = true → ∃ d, s.shutdowns[k]? = some d ∧ d.found = some s.lc.running

theorem awaited_shutdown (h : s.step .shutdown = some t) : Awaited s.shutdowns.length t := by
  cases step_cases h with
  | idle hno =>
    intro hyes
    rw [hno] at hyes
    cases hyes
  | closing | joined => exact fun _ => ⟨_, List.getElem?_concat_length, rfl⟩

theorem Awaited.concat (h : Awaited k s) (d : ShutdownCall) :
    s.lc.started = true → ∃ e, (s.shutdowns ++ [d])[k]? = some e ∧ e.found = some s.lc.running := by
  intro hyes
  obtain ⟨e, hk, hfound⟩ := h hyes
  exact ⟨e, getElem?_concat_eq_some.mpr (.inl hk), hfound⟩

theorem awaited_step (h : Awaited k s) {a : LifeAct} (ha : a ≠ .begin) (hst : s.step a = some t) :
    Awaited k t := by
  cases step_cases hst with
  | refused | began => exact absurd rfl ha
  | idle | closing | joined => exact h.concat _
  | @woke n wg hn _ =>
    intro hyes
    obtain ⟨d, hk, hfound⟩ := h hyes
    by_cases hkn : k = n
    · subst hkn
      rw [hn] at hk
      cases hk
      exact ⟨_, List.getElem?_set_self (List.getElem?_eq_some_iff.mp hn).1, hfound⟩
    · exact ⟨d, by rw [List.getElem?_set_ne (Ne.symm hkn), hk], hfound⟩
  | cleared => rintro ⟨⟩
  | released => exact h

/-- When the shutdown that found the running cycle has returned, there is none. -/
theorem Inv.stopped (h : Inv s) (hk : Awaited k s) (hret : ∀ d ∈ s.shutdowns, d.returned = true) :
    s.lc.started = false := by
  rw [← Bool.not_eq_true]
  intro hyes
  obtain ⟨d, hd, hfound⟩ := hk hyes
  have hmem := List.mem_of_getElem? hd
  obtain ⟨n, c, hwg, hc, hover⟩ := h.found d hmem _ hfound
  obtain ⟨wg, hphase⟩ := hover (hret d hmem)
  obtain ⟨m, c', hc', hlive, -, hwg'⟩ := h.current hyes
  rw [hwg, Option.some_inj] at hwg'
  subst hwg'
  rw [hc] at hc'
  cases hc'
  rw [hphase] at hlive
  cases hlive

end Lives

/-- **A plugin can be stopped and started again, from any number of goroutines.**  In every
run at most one cycle is live, and the plugin's flag, channel and WaitGroup are those of
that cycle; no channel is closed twice, and no nil one; each `done` reads the WaitGroup of
its own cycle, which is no other's; a `shutdown` that found a cycle returns after the
`done` of that cycle.  When a `shutdown` is the last call to take effect and all have
returned, `begin` succeeds. -/
theorem lifecycle_restartable :
    (∀ s, lives.Reachable s →
      (∀ (m n : Nat) (c d : Cycle), s.cycles[m]? = some c → s.cycles[n]? = some d →
        c.phase = .live → d.phase = .live → m = n) ∧
      (s.lc.started = true → ∃ c ∈ s.cycles, c.phase = .live ∧ s.lc.stopCh = some c.stopCh ∧
        s.lc.running = some c.wg) ∧
      (s.closes.Nodup ∧ none ∉ s.closes) ∧
      (∀ c ∈ s.cycles, ∀ wg, c.phase = .cleared wg ∨ c.phase = .ended wg → wg = some c.wg) ∧
      (∀ (m n : Nat) (c d : Cycle), s.cycles[m]? = some c → s.cycles[n]? = some d →
        c.wg = d.wg ∨ c.stopCh = d.stopCh → m = n) ∧
      ∀ d ∈ s.shutdowns, ∀ wg, d.found = some wg →
        ∃ c ∈ s.cycles, wg = some c.wg ∧ (d.returned = true → c.phase ≠ .live)) ∧
    ∀ front rest s, lives.run Lives.init (front ++ .shutdown :: rest) = some s → .begin ∉ rest →
      (∀ d ∈ s.shutdowns, d.returned = true) →
      ∃ l, s.lc.begin s.channels s.wgs.length = some l := by
  constructor
  · intro s hs
    have h := Lives.inv_of_reachable hs
    refine ⟨?_, ?_, ⟨h.nodup, ?_⟩, ?_, ?_, ?_⟩
    · intro m n c d hc hd hlive hlive'
      exact h.live_unique hc hd hlive hlive'
    · intro hyes
      obtain ⟨n, c, hc, hlive, hch, hwg⟩ := h.current hyes
      have hok := h.cycle n c hc
      exact ⟨c, List.mem_of_getElem? hc, hlive, by rw [hch, hok.stopCh], by rw [hwg, hok.wg]⟩
    · intro hnone
      obtain ⟨n, -, hn⟩ := h.made none hnone
      cases hn
    · intro c hc wg hphase
      obtain ⟨n, hn⟩ := List.mem_iff_getElem?.mp hc
      have hok := h.cycle n c hn
      rw [hok.seen wg hphase, hok.wg]
    · rintro m n c d hc hd (heq | heq)
      · rw [← (h.cycle m c hc).wg, heq, (h.cycle n d hd).wg]
      · rw [← (h.cycle m c hc).stopCh, heq, (h.cycle n d hd).stopCh]
    · intro d hd wg hfound
      obtain ⟨n, c, rfl, hc, hret⟩ := h.found d hd wg hfound
      refine ⟨c, List.mem_of_getElem? hc, by rw [(h.cycle n c hc).wg], ?_⟩
      intro hr hlive
      obtain ⟨w, hw⟩ := hret hr
      rw [hw] at hlive
      cases hlive
  · intro front rest s hrun hnot hret
    obtain ⟨mid, -, hrest⟩ := Machine.run_append hrun
    rw [Machine.run_cons, Option.bind_eq_some_iff] at hrest
    obtain ⟨t, hstep, hrest⟩ := hrest
    have hpath := Machine.path_of_run_forall (P := (· ≠ .begin)) hrest
      fun a ha heq => hnot (heq ▸ ha)
    have hawait : Lives.Awaited mid.shutdowns.length s :=
      hpath.inv
        (fun u a v hu ha hst => Lives.awaited_step hu ha hst) (Lives.awaited_shutdown hstep)
    have hinv := Lives.inv_of_reachable (Machine.reachable_of_run _ rfl hrun)
    have hno := hinv.stopped hawait hret
    exact ⟨_, by rw [Lifecycle.begin, if_neg (by simp [hno])]⟩

/-- Two cycles, the second one stopped from two goroutines. -/
def twoCycles : List LifeAct :=
  [.begin, .begin, .shutdown, .done 0, .begin, .release 0, .wake 0, .shutdown]

theorem lifecycle_restartable_twoCycles : ∃ s,
    lives.run Lives.init
      (twoCycles ++ .shutdown :: [.wake 2, .done 1, .release 1, .wake 1]) = none ∧
    lives.run Lives.init
      (twoCycles ++ .shutdown :: [.done 1, .release 1, .wake 1, .wake 2]) = some s ∧
    s.closes = [some 0, some 1] ∧ ∃ l, s.lc.begin s.channels s.wgs.length = some l := by
  have hrun : (lives.run Lives.init
      (twoCycles ++ .shutdown :: [.done 1, .release 1, .wake 1, .wake 2])).map
        (fun s => (s.closes, s.shutdowns.all (·.returned))) = some ([some 0, some 1], true) := by
    decide
  obtain ⟨s, hs, hfacts⟩ := Option.map_eq_some_iff.mp hrun
  rw [Prod.mk.injEq, List.all_eq_true] at hfacts
  exact ⟨s, by decide, hs, hfacts.1, lifecycle_restartable.2 _ _ s hs (by decide) hfacts.2⟩

end SharkSocket.Plugin
