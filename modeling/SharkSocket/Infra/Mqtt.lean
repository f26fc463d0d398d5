import SharkSocket.Lib.Machine
import SharkSocket.Lib.Pool

/-!
# `infra/mqtt/adapter.go`: one client at a time

`Start` makes a client, connects and subscribes it without the lock, and takes the lock
again to install it.  `Stop` takes the installed client away.  A generation counter
that every `Stop` raises tells a `Start` whether one ran while it dialled.

`adapter` runs any number of calls.  Whether a client is connected, how a dial or a
subscription ends and whether the context is done is up to the action.  The client of
the `k`-th `Start` is called `k`.

* `Tidy`: a client that has been disconnected is that of a `Start` that has returned,
  and the clients of those that have returned are disconnected, but for the installed
  one;
* `Captured`: a `Start` that still has the current generation entered after the last
  `Stop`, as long as the 64-bit counter has not come around;
* `adapter_tidy`: no client is leaked, and the adapter stays stopped.
-/

namespace SharkSocket.Infra.Mqtt

open Lib

/-- What a `Start` under way does next: make its client, wait for the connection, wait
for the subscription, or lock again. -/
inductive Phase
  | make
  | connect
  | subscribe
  | install
  deriving DecidableEq, Repr

inductive StartErr
  | connect
  | subscribe
  | context
  | stopped
  deriving DecidableEq, Repr

/-- `gen` is what a `Start` read in its first critical section, and `stops` how many
`Stop`s there had been, which the code does not know.  `made` says whether a client was
made. -/
inductive StartPc
  | called
  | running (phase : Phase) (gen : UInt64) (stops : Nat)
  | returned (made : Bool) (err : Option StartErr)
  deriving DecidableEq, Repr

/-- The critical sections that begin a `Start` and those of `Stop`. -/
inductive Event
  | enter (k : Nat)
  | stop
  deriving DecidableEq, Repr

structure Adapter where
  client : Option Nat
  gen : UInt64
  disconnected : Finset Nat
  starts : List StartPc
  log : List Event
  deriving DecidableEq

inductive Act
  | call
  | enter (k : Nat) (connected : Bool)
  | make (k : Nat)
  | connect (k : Nat) (ok : Bool)
  | subscribe (k : Nat) (ok : Bool)
  | install (k : Nat) (connected ctxDone : Bool)
  | stop
  deriving DecidableEq, Repr

namespace Adapter

variable (a : Adapter)

def new : Adapter := ⟨none, 0, ∅, [], []⟩

/-- The `Stop`s so far. -/
def stops : Nat := a.log.count .stop

def setStart (k : Nat) (pc : StartPc) : Adapter :=
  { a with starts := a.starts.set k pc }

def disconnect (k : Nat) : Adapter :=
  { a with disconnected := insert k a.disconnected }

/-- A critical section leaves its entry in the log. -/
def note (e : Event) : Adapter := { a with log := a.log ++ [e] }

/-- A `Start` gives its own client up. -/
def giveUp (k : Nat) (err : Option StartErr) : Adapter :=
  (a.disconnect k).setStart k (.returned true err)

/-- The last lines of `Start`. -/
def installClient (k : Nat) : Adapter :=
  match a.client with
  | none => { a with client := some k }.setStart k (.returned true none)
  | some old => { a.disconnect old with client := some k }.setStart k (.returned true none)

/-- `subscribes` says whether a topic and a handler are configured. -/
def step (subscribes : Bool) (a : Adapter) : Act → Option Adapter
  | .call => some { a with starts := a.starts ++ [.called] }
  | .enter k connected =>
    match a.starts[k]? with
    | some .called =>
      let pc : StartPc := if a.client.isSome && connected then .returned false none
        else .running .make a.gen a.stops
      some ((a.note (.enter k)).setStart k pc)
    | _ => none
  | .make k =>
    match a.starts[k]? with
    | some (.running .make gen n) => some (a.setStart k (.running .connect gen n))
    | _ => none
  | .connect k ok =>
    match a.starts[k]? with
    | some (.running .connect gen n) =>
      if ok then some (a.setStart k (.running (if subscribes then .subscribe else .install) gen n))
      else some (a.giveUp k (some .connect))
    | _ => none
  | .subscribe k ok =>
    match a.starts[k]? with
    | some (.running .subscribe gen n) =>
      if ok then some (a.setStart k (.running .install gen n))
      else some (a.giveUp k (some .subscribe))
    | _ => none
  | .install k connected ctxDone =>
    match a.starts[k]? with
    | some (.running .install gen _) =>
      if gen ≠ a.gen then some (a.giveUp k (some (if ctxDone then .context else .stopped)))
      else if a.client.isSome && connected then some (a.giveUp k none)
      else some (a.installClient k)
    | _ => none
  | .stop =>
    let a := { a.note .stop with gen := a.gen + 1 }
    match a.client with
    | none => some a
    | some old => some { a.disconnect old with client := none }

end Adapter

def adapter (subscribes : Bool) : Machine Adapter Act where
  init a := a = .new
  step := Adapter.step subscribes

namespace Adapter

variable {subscribes : Bool} {a a' : Adapter} {k : Nat}

/-- **Everything a step can do.** -/
inductive Moves (a : Adapter) : Act → Adapter → Prop
  | call : Moves a .call { a with starts := a.starts ++ [.called] }
  | already (k : Nat) (connected : Bool) (hk : a.starts[k]? = some .called) :
      Moves a (.enter k connected)
        ((a.note (.enter k)).setStart k (.returned false none))
  | enter (k : Nat) (connected : Bool) (hk : a.starts[k]? = some .called) :
      Moves a (.enter k connected)
        ((a.note (.enter k)).setStart k (.running .make a.gen a.stops))
  | advance {b : Act} (k : Nat) {phase next : Phase} {gen : UInt64} {n : Nat}
      (hk : a.starts[k]? = some (.running phase gen n)) :
      Moves a b (a.setStart k (.running next gen n))
  | giveUp {b : Act} (k : Nat) {phase : Phase} {gen : UInt64} {n : Nat} (err : Option StartErr)
      (hk : a.starts[k]? = some (.running phase gen n)) : Moves a b (a.giveUp k err)
  | install (k : Nat) (connected ctxDone : Bool) {n : Nat}
      (hk : a.starts[k]? = some (.running .install a.gen n)) :
      Moves a (.install k connected ctxDone) (a.installClient k)
  | stop (hnone : a.client = none) :
      Moves a .stop { a.note .stop with gen := a.gen + 1 }
  | stopClient (old : Nat) (hold : a.client = some old) :
      Moves a .stop { (a.note .stop).disconnect old with client := none, gen := a.gen + 1 }

variable {b : Act} {j : Nat} {pc : StartPc}

theorem moves_of_step (h : a.step subscribes b = some a') : Moves a b a' := by
  cases b with
  | call =>
    cases h
    exact .call
  | enter k connected =>
    simp only [step] at h
    split at h
    · rename_i hk
      cases h
      split
      · exact .already k connected hk
      · exact .enter k connected hk
    · cases h
  | make k =>
    simp only [step] at h
    split at h
    · rename_i hk
      cases h
      exact .advance k hk
    · cases h
  | connect k ok | subscribe k ok =>
    simp only [step] at h
    split at h
    · rename_i hk
      split at h
      · cases h
        exact .advance k hk
      cases h
      exact .giveUp k _ hk
    · cases h
  | install k connected ctxDone =>
    simp only [step] at h
    split at h
    · rename_i gen n hk
      split at h
      · cases h
        exact .giveUp k _ hk
      rename_i hgen
      rw [not_not] at hgen
      subst hgen
      split at h
      · cases h
        exact .giveUp k _ hk
      cases h
      exact .install k connected ctxDone hk
    · cases h
  | stop =>
    simp only [step] at h
    split at h
    · rename_i hnone
      cases h
      exact .stop hnone
    rename_i old hold
    cases h
    exact .stopClient old hold

/-! ### Clients -/

/-- Which clients are disconnected, and which one is installed. -/
structure Tidy (a : Adapter) : Prop where
  gone : ∀ k ∈ a.disconnected, ∃ err, a.starts[k]? = some (.returned true err)
  installed : ∀ k, a.client = some k → k ∉ a.disconnected ∧
    ∃ err, a.starts[k]? = some (.returned true err)
  kept : ∀ (k : Nat) (err : Option StartErr), a.starts[k]? = some (.returned true err) →
    k ∈ a.disconnected ∨ a.client = some k

theorem tidy_new : Tidy new where
  gone k hk := absurd hk (Finset.notMem_empty k)
  installed k hk := by cases hk
  kept k err hk := by cases hk

/-- A `Start` that has returned with a client stays so while another one moves. -/
theorem returned_set {l : List StartPc} {err : Option StartErr}
    (hk : l[k]? = some (.returned true err)) (hj : l[j]? ≠ some (.returned true err)) :
    (l.set j pc)[k]? = some (.returned true err) := by
  have hne : j ≠ k := by
    rintro rfl
    exact hj hk
  rw [List.getElem?_set_ne hne, hk]

/-- A step of a `Start` that leaves the clients alone. -/
theorem Tidy.setStart (h : Tidy a) {pc' : StartPc} (hj : a.starts[j]? = some pc)
    (hpc : ∀ err, pc ≠ .returned true err) (hpc' : ∀ err, pc' ≠ .returned true err) :
    Tidy (a.setStart j pc') where
  gone k hk := by
    obtain ⟨err, hret⟩ := h.gone k hk
    exact ⟨err, returned_set hret (by rw [hj]; exact fun he => hpc err (Option.some.inj he))⟩
  installed k hk := by
    obtain ⟨hnot, err, hret⟩ := h.installed k hk
    exact ⟨hnot, err, returned_set hret (by rw [hj]; exact fun he => hpc err (Option.some.inj he))⟩
  kept k err hk := by
    rcases getElem?_set_eq_some hk with ⟨-, heq⟩ | ⟨-, hk⟩
    · exact absurd heq.symm (hpc' err)
    · exact h.kept k err hk

/-- The log and the counter do not matter. -/
theorem Tidy.congr (h : Tidy a) (hclient : a'.client = a.client)
    (hgone : a'.disconnected = a.disconnected) (hstarts : a'.starts = a.starts) : Tidy a' where
  gone k hk := by
    rw [hgone] at hk
    rw [hstarts]
    exact h.gone k hk
  installed k hk := by
    rw [hclient] at hk
    rw [hgone, hstarts]
    exact h.installed k hk
  kept k err hk := by
    rw [hstarts] at hk
    rw [hgone, hclient]
    exact h.kept k err hk

theorem Tidy.call (h : Tidy a) : Tidy { a with starts := a.starts ++ [.called] } where
  gone k hk := by
    obtain ⟨err, hret⟩ := h.gone k hk
    exact ⟨err, getElem?_concat_eq_some.mpr (.inl hret)⟩
  installed k hk := by
    obtain ⟨hnot, err, hret⟩ := h.installed k hk
    exact ⟨hnot, err, getElem?_concat_eq_some.mpr (.inl hret)⟩
  kept k err hk := by
    rcases getElem?_concat_eq_some.mp hk with hk | ⟨-, hcalled⟩
    · exact h.kept k err hk
    · cases hcalled

variable {phase : Phase} {gen : UInt64} {n : Nat}

/-- A `Start` under way is none of those that `Tidy` speaks of. -/
theorem Tidy.fresh (h : Tidy a) (hk : a.starts[k]? = some (.running phase gen n)) :
    k ∉ a.disconnected ∧ a.client ≠ some k := by
  constructor
  · intro hmem
    obtain ⟨err, hret⟩ := h.gone k hmem
    rw [hk] at hret
    cases hret
  · intro hclient
    obtain ⟨-, err, hret⟩ := h.installed k hclient
    rw [hk] at hret
    cases hret

theorem Tidy.giveUp (h : Tidy a) {err : Option StartErr}
    (hk : a.starts[k]? = some (.running phase gen n)) : Tidy (a.giveUp k err) := by
  have hset : (a.starts.set k (.returned true err))[k]? = some (.returned true err) :=
    List.getElem?_set_self (List.getElem?_eq_some_iff.mp hk).1
  have hstay : ∀ (j : Nat) (err' : Option StartErr), a.starts[j]? = some (.returned true err') →
      (a.starts.set k (.returned true err))[j]? = some (.returned true err') := by
    intro j err' hj
    exact returned_set hj (by rw [hk]; nofun)
  refine ⟨?_, ?_, ?_⟩
  · intro j hj
    rcases Finset.mem_insert.mp hj with rfl | hj
    · exact ⟨err, hset⟩
    obtain ⟨err', hret⟩ := h.gone j hj
    exact ⟨err', hstay j err' hret⟩
  · intro j hj
    obtain ⟨hnot, err', hret⟩ := h.installed j hj
    have hne : j ≠ k := by
      rintro rfl
      exact (h.fresh hk).2 hj
    refine ⟨?_, err', hstay j err' hret⟩
    intro hmem
    rcases Finset.mem_insert.mp hmem with heq | hmem
    · exact hne heq
    · exact hnot hmem
  · intro j err' hj
    rcases getElem?_set_eq_some hj with ⟨rfl, -⟩ | ⟨-, hj⟩
    · exact .inl (Finset.mem_insert_self _ _)
    rcases h.kept j err' hj with hmem | hclient
    · exact .inl (Finset.mem_insert_of_mem hmem)
    · exact .inr hclient

/-- The installed client makes room: it is disconnected, and none is installed. -/
theorem Tidy.release (h : Tidy a) {old : Nat} (hold : a.client = some old) :
    Tidy { a.disconnect old with client := none } := by
  obtain ⟨-, err, hret⟩ := h.installed old hold
  refine ⟨?_, ?_, ?_⟩
  · intro k hk
    rcases Finset.mem_insert.mp hk with rfl | hk
    · exact ⟨err, hret⟩
    · exact h.gone k hk
  · intro k hk
    cases hk
  · intro k err' hk
    rcases h.kept k err' hk with hmem | hclient
    · exact .inl (Finset.mem_insert_of_mem hmem)
    rw [hold] at hclient
    cases hclient
    exact .inl (Finset.mem_insert_self _ _)

theorem Tidy.install (h : Tidy a) (hnone : a.client = none)
    (hk : a.starts[k]? = some (.running phase gen n)) :
    Tidy ({ a with client := some k }.setStart k (.returned true none)) := by
  have hset : (a.starts.set k (.returned true none))[k]? = some (.returned true none) :=
    List.getElem?_set_self (List.getElem?_eq_some_iff.mp hk).1
  refine ⟨?_, ?_, ?_⟩
  · intro j hj
    obtain ⟨err', hret⟩ := h.gone j hj
    exact ⟨err', returned_set hret (by rw [hk]; nofun)⟩
  · intro j hj
    cases hj
    exact ⟨(h.fresh hk).1, none, hset⟩
  · intro j err' hj
    rcases getElem?_set_eq_some hj with ⟨rfl, -⟩ | ⟨-, hj⟩
    · exact .inr rfl
    rcases h.kept j err' hj with hmem | hclient
    · exact .inl hmem
    rw [hnone] at hclient
    cases hclient

theorem Tidy.installClient (h : Tidy a) (hk : a.starts[k]? = some (.running phase gen n)) :
    Tidy (a.installClient k) := by
  unfold Adapter.installClient
  split
  · rename_i hnone
    exact h.install hnone hk
  rename_i old hold
  exact (h.release hold).install rfl hk

theorem Tidy.step (h : Tidy a) (hs : a.step subscribes b = some a') : Tidy a' := by
  cases moves_of_step hs with
  | call => exact h.call
  | already k connected hk =>
    have hset : Tidy (a.setStart k (.returned false none)) := h.setStart hk nofun nofun
    exact hset.congr rfl rfl rfl
  | enter k connected hk =>
    have hset : Tidy (a.setStart k (.running .make a.gen a.stops)) := h.setStart hk nofun nofun
    exact hset.congr rfl rfl rfl
  | advance k hk => exact h.setStart hk nofun nofun
  | giveUp k err hk => exact h.giveUp hk
  | install k connected ctxDone hk => exact h.installClient hk
  | stop hnone => exact h.congr rfl rfl rfl
  | stopClient old hold => exact (h.release hold).congr rfl rfl rfl

theorem tidy_of_reachable (h : (adapter subscribes).Reachable a) : Tidy a := by
  refine h.inv ?_ ?_
  · rintro a rfl
    exact tidy_new
  · intro a b a' ha _ hs
    exact ha.step hs

/-! ### Generations -/

/-- Fewer than 2^64 `Stop`s have run while this `Start` dialled. -/
def CounterHolds (a : Adapter) : Act → Prop
  | .install k _ _ =>
    match a.starts[k]? with
    | some (.running .install _ n) => a.stops < n + 2 ^ 64
    | _ => True
  | _ => True

instance (a : Adapter) : (b : Act) → Decidable (a.CounterHolds b)
  | .install k _ _ => by
    unfold CounterHolds
    dsimp only
    split <;> infer_instance
  | .call => .isTrue trivial
  | .enter _ _ => .isTrue trivial
  | .make _ => .isTrue trivial
  | .connect _ _ => .isTrue trivial
  | .subscribe _ _ => .isTrue trivial
  | .stop => .isTrue trivial

/-- The counter counts the `Stop`s; a `Start` that entered after the last of them, and
an installed client, have an entry of the log to show for it. -/
structure Captured (a : Adapter) : Prop where
  gen : a.gen = UInt64.ofNat a.stops
  running : ∀ (k : Nat) (phase : Phase) (g : UInt64) (n : Nat),
    a.starts[k]? = some (.running phase g n) →
      g = UInt64.ofNat n ∧ n ≤ a.stops ∧ (n = a.stops → a.log.getLast? ≠ some .stop)
  client : a.client ≠ none → a.log.getLast? ≠ some .stop

theorem captured_new : Captured new where
  gen := rfl
  running k phase g n hk := by cases hk
  client hne := absurd rfl hne

/-- The log and the counter stay, and no `Start` captures anything. -/
theorem Captured.later (h : Captured a) (hgen : a'.gen = a.gen) (hlog : a'.log = a.log)
    (hrunning : ∀ (k : Nat) (phase : Phase) (g : UInt64) (n : Nat),
      a'.starts[k]? = some (.running phase g n) →
        ∃ phase' : Phase, a.starts[k]? = some (.running phase' g n))
    (hclient : a'.client ≠ none → a.log.getLast? ≠ some .stop) : Captured a' := by
  have hstops : a'.stops = a.stops := by rw [stops, stops, hlog]
  refine ⟨by rw [hgen, hstops, h.gen], ?_, ?_⟩
  · intro k phase g n hk
    obtain ⟨phase', hk'⟩ := hrunning k phase g n hk
    rw [hstops, hlog]
    exact h.running k phase' g n hk'
  · rw [hlog]
    exact hclient

theorem running_of_set {l : List StartPc} {g : UInt64}
    (hpc : ∀ (phase : Phase) (g : UInt64) (n : Nat), pc ≠ .running phase g n)
    (hk : (l.set j pc)[k]? = some (.running phase g n)) : l[k]? = some (.running phase g n) := by
  rcases getElem?_set_eq_some hk with ⟨-, heq⟩ | ⟨-, hk⟩
  · exact absurd heq.symm (hpc phase g n)
  · exact hk

/-- A `Start` enters. -/
theorem Captured.enter (h : Captured a)
    (hpc : ∀ (phase : Phase) (g : UInt64) (n : Nat), pc = .running phase g n →
      g = a.gen ∧ n = a.stops) : Captured ((a.note (.enter k)).setStart k pc) := by
  have hstops : (a.log ++ [Event.enter k]).count .stop = a.stops := by
    rw [count_concat, if_neg nofun, Nat.add_zero, stops]
  have hlast : (a.log ++ [Event.enter k]).getLast? ≠ some .stop := by simp
  refine ⟨?_, ?_, fun _ => hlast⟩
  · show a.gen = UInt64.ofNat ((a.log ++ [Event.enter k]).count .stop)
    rw [hstops, h.gen]
  · intro j phase g n hj
    show g = UInt64.ofNat n ∧ n ≤ (a.log ++ [Event.enter k]).count .stop ∧ (_ → _)
    rw [hstops]
    rcases getElem?_set_eq_some hj with ⟨-, heq⟩ | ⟨-, hj⟩
    · obtain ⟨rfl, rfl⟩ := hpc phase g n heq.symm
      exact ⟨h.gen, le_rfl, fun _ => hlast⟩
    obtain ⟨hg, hn, -⟩ := h.running j phase g n hj
    exact ⟨hg, hn, fun _ => hlast⟩

/-- A `Stop`: whoever entered before it has an old generation. -/
theorem Captured.stop (h : Captured a) (hgen : a'.gen = a.gen + 1)
    (hlog : a'.log = a.log ++ [.stop]) (hstarts : a'.starts = a.starts)
    (hclient : a'.client = none) : Captured a' := by
  have hstops : a'.stops = a.stops + 1 := by rw [stops, hlog, count_concat, if_pos rfl, stops]
  refine ⟨?_, ?_, fun hne => absurd hclient hne⟩
  · rw [hgen, hstops, h.gen]
    simp
  · intro k phase g n hk
    rw [hstarts] at hk
    obtain ⟨hg, hn, -⟩ := h.running k phase g n hk
    exact ⟨hg, by omega, fun heq => by omega⟩

/-- Two numbers that are less than 2^64 apart and equal as 64-bit numbers are equal. -/
theorem eq_of_ofNat_eq {m n : Nat} (hle : n ≤ m) (hlt : m < n + 2 ^ 64)
    (h : UInt64.ofNat n = UInt64.ofNat m) : n = m := by
  have hmod : n % 2 ^ 64 = m % 2 ^ 64 := by
    have := congrArg UInt64.toNat h
    simpa using this
  omega

theorem Captured.step (h : Captured a) (hok : a.CounterHolds b) (hs : a.step subscribes b = some a') :
    Captured a' := by
  cases moves_of_step hs with
  | call =>
    refine h.later rfl rfl ?_ h.client
    intro k phase g n hk
    rcases getElem?_concat_eq_some.mp hk with hk | ⟨-, hcalled⟩
    · exact ⟨phase, hk⟩
    · cases hcalled
  | already k connected hk => exact h.enter nofun
  | enter k connected hk =>
    apply h.enter
    rintro phase g n heq
    cases heq
    exact ⟨rfl, rfl⟩
  | @advance _ k phase next gen n hk =>
    refine h.later rfl rfl ?_ h.client
    intro j phase' g' n' hj
    rcases getElem?_set_eq_some hj with ⟨rfl, heq⟩ | ⟨-, hj⟩
    · cases heq
      exact ⟨phase, hk⟩
    · exact ⟨phase', hj⟩
  | giveUp k err hk =>
    refine h.later rfl rfl ?_ h.client
    intro j phase' g' n' hj
    exact ⟨phase', running_of_set (fun _ _ _ he => by cases he) hj⟩
  | @install k connected ctxDone n hk =>
    -- the generation is the current one, so this call entered after the last stop
    obtain ⟨hg, hn, hlast⟩ := h.running k _ _ _ hk
    have hlt : a.stops < n + 2 ^ 64 := by simpa only [CounterHolds, hk] using hok
    have heq : n = a.stops := eq_of_ofNat_eq hn hlt (by rw [← hg, h.gen])
    have hstarts : (a.installClient k).starts = a.starts.set k (.returned true none) := by
      unfold installClient
      split <;> rfl
    have hgen : (a.installClient k).gen = a.gen ∧ (a.installClient k).log = a.log := by
      unfold installClient
      split <;> exact ⟨rfl, rfl⟩
    refine h.later hgen.1 hgen.2 ?_ fun _ => hlast heq
    intro j phase' g' n' hj
    rw [hstarts] at hj
    exact ⟨phase', running_of_set (fun _ _ _ he => by cases he) hj⟩
  | stop hnone => exact h.stop rfl rfl rfl hnone
  | stopClient old hold => exact h.stop rfl rfl rfl rfl

end Adapter

/-- The `k`-th `Start` has made its client. -/
def Adapter.Made (a : Adapter) (k : Nat) : Prop :=
  (∃ (phase : Phase) (gen : UInt64) (n : Nat), phase ≠ .make ∧
    a.starts[k]? = some (.running phase gen n)) ∨
    ∃ err : Option StartErr, a.starts[k]? = some (.returned true err)

/-- All calls have returned. -/
def Adapter.Quiet (a : Adapter) : Prop := ∀ pc ∈ a.starts, ∃ made err, pc = .returned made err

open Adapter

/-- The last entry of a log in which only `Stop`s follow a `Stop`. -/
theorem getLast?_of_no_enter {before after : List Event} (h : ∀ k, .enter k ∉ after) :
    (before ++ .stop :: after).getLast? = some .stop := by
  induction after using List.reverseRecOn with
  | nil => simp
  | append_singleton after e _ =>
    cases e with
    | enter k => exact absurd (List.mem_append_right after (List.mem_singleton_self _)) (h k)
    | stop => rw [← List.cons_append, ← List.append_assoc, List.getLast?_concat]

/-- **No client is leaked, and the adapter stays stopped.**  In every run the client of a
`Start` that has returned is disconnected exactly if it is not the installed one.  If the
64-bit counter does not come around while a `Start` dials, and no `Start` enters after
some `Stop`, then once all calls have returned no client is installed and every client
that was made is disconnected. -/
theorem adapter_tidy (subscribes : Bool) :
    (∀ a, (adapter subscribes).Reachable a → ∀ (k : Nat) (err : Option StartErr),
      a.starts[k]? = some (.returned true err) → (k ∈ a.disconnected ↔ a.client ≠ some k)) ∧
    ∀ a, (adapter subscribes).Reaches CounterHolds a → ∀ before after : List Event,
      a.log = before ++ .stop :: after → (∀ k, .enter k ∉ after) → a.Quiet →
        a.client = none ∧ ∀ k, a.Made k → k ∈ a.disconnected := by
  constructor
  · intro a h k err hk
    have htidy := tidy_of_reachable h
    constructor
    · intro hmem hclient
      exact (htidy.installed k hclient).1 hmem
    · intro hne
      exact (htidy.kept k err hk).resolve_right hne
  · intro a h before after hlog hnone hquiet
    have htidy := tidy_of_reachable h.reachable
    have hcaptured : Captured a := by
      refine h.inv ?_ ?_
      · rintro a rfl
        exact captured_new
      · intro a b a' ha hok hs
        exact ha.step hok hs
    have hclient : a.client = none := by
      by_contra hne
      apply hcaptured.client hne
      rw [hlog]
      exact getLast?_of_no_enter hnone
    refine ⟨hclient, ?_⟩
    rintro k (⟨phase, gen, n, -, hk⟩ | ⟨err, hk⟩)
    · obtain ⟨made, err, heq⟩ := hquiet _ (List.mem_of_getElem? hk)
      cases heq
    · apply (htidy.kept k err hk).resolve_right
      rw [hclient]
      nofun

/-! ### Two runs -/

/-- Two overlapping `Start`s: one installs its client, a `Stop` takes it away, and the
other one comes back too late. -/
def stoppedWhileDialling : List Act :=
  [.call, .call, .enter 0 false, .enter 1 false, .make 0, .make 1, .connect 0 true,
    .install 0 false false, .stop, .connect 1 true, .install 1 false false]

theorem adapter_tidy_stoppedWhileDialling :
    ∃ a, (adapter false).Reaches CounterHolds a ∧
      a.starts = [.returned true none, .returned true (some .stopped)] ∧ a.client = none ∧
      ∀ k, a.Made k → k ∈ a.disconnected := by
  have hrun : ((adapter false).runIf CounterHolds .new stoppedWhileDialling).map
      (fun a => (a.starts, a.log)) =
      some ([.returned true none, .returned true (some .stopped)],
        [.enter 0, .enter 1, .stop]) := by decide +kernel
  obtain ⟨a, hreach, heq⟩ := Machine.exists_reaches hrun rfl
  simp only [Prod.mk.injEq] at heq
  have hquiet : a.Quiet := by
    intro pc hpc
    rw [heq.1] at hpc
    rcases List.mem_pair.mp hpc with rfl | rfl <;> exact ⟨_, _, rfl⟩
  exact ⟨a, hreach, heq.1, (adapter_tidy false).2 a hreach [.enter 0, .enter 1] [] heq.2
    (fun k => List.not_mem_nil) hquiet⟩

/-- A `Start` that has entered before any `Stop` and is about to install its client,
after `n` of them. -/
def dialled (n : Nat) : Adapter :=
  ⟨none, UInt64.ofNat n, ∅, [.running .install 0 0], .enter 0 :: List.replicate n .stop⟩

theorem run_stops (n : Nat) : (adapter false).Reachable (dialled n) := by
  induction n with
  | zero =>
    exact Machine.reachable_of_run [.call, .enter 0 false, .make 0, .connect 0 true] rfl
      (by decide +kernel)
  | succ n ih =>
    have hstop : (adapter false).run (dialled n) [.stop] = some (dialled (n + 1)) := by
      simp [Machine.run, adapter, step, dialled, note, List.replicate_succ']
    exact Machine.Reaches.path ih (Machine.path_true_iff_run.mpr hstop)

/-- After 2^64 `Stop`s the counter is back at the value that the `Start` has read, and the
client is installed after all of them. -/
theorem installed_after_all_stops :
    ∃ a before, (adapter false).Reachable a ∧ a.log = before ++ [.stop] ∧ a.Quiet ∧
      a.client = some 0 ∧ a.disconnected = ∅ := by
  have hzero : UInt64.ofNat (2 ^ 64) = 0 := by decide
  have hrun : ∀ n, UInt64.ofNat n = 0 → (adapter false).run (dialled n) [.install 0 false false] =
      some ⟨some 0, 0, ∅, [.returned true none], .enter 0 :: List.replicate n .stop⟩ := by
    intro n hn
    simp [Machine.run, adapter, step, dialled, installClient, setStart, hn]
  have hlog : ∀ n, Event.enter 0 :: List.replicate (n + 1) .stop =
      (Event.enter 0 :: List.replicate n .stop) ++ [.stop] := by
    intro n
    rw [List.replicate_succ']
    rfl
  refine ⟨_, .enter 0 :: List.replicate (2 ^ 64 - 1) .stop, Machine.Reaches.path (run_stops _)
    (Machine.path_true_iff_run.mpr (hrun (2 ^ 64) hzero)), hlog (2 ^ 64 - 1), ?_, rfl, rfl⟩
  intro pc hpc
  obtain rfl := List.mem_singleton.mp hpc
  exact ⟨_, _, rfl⟩

end SharkSocket.Infra.Mqtt
