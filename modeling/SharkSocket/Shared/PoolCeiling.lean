import SharkSocket.Shared.PoolFloor

/-!
# The ceiling of the elastic pool

`addWorker` compares `maxWorker` with the size of the worker map.  A worker that is
asked to retire leaves the map at once and its goroutine when it gets back to its
`select`, which may be a long handler later.  In between there is room for a new
worker in the map.

`crew` refines `scalablePool`: it says which workers are in a handler, and a worker
takes a task and finishes it in two steps, as far apart as one likes.  Every run of the
pool is a run of the crew in which handlers return at once (`Crew.path_of_pool`).

* `running_le_max`: if no worker is added while a retired one is still running, there
  are never more than `maxWorker` goroutines, and never more handlers;
* `running_le_max_add_lingering`: in every run the ones above `maxWorker` are retired
  workers that have not ended;
* `three_handlers_of_two`: three handlers run at a time in a pool of at most two.
-/

namespace SharkSocket.Shared

open Lib

namespace Pool

variable {cfg : ScaleConfig} {p q : Pool}

/-! ### What a step does to the goroutines -/

/-- The step is the locked part of `addWorker`. -/
def adds (p : Pool) : PoolAct → Bool
  | .eval k _ => p.evals[k]? = some .addLock
  | .startStep =>
    match p.start with
    | .lock _ => true
    | _ => false
  | _ => false

/-- **Everything a step can do to the worker map and the goroutines.** -/
inductive Crewing (cfg : ScaleConfig) (p : Pool) (a : PoolAct) (q : Pool) : Prop
  | quiet (hrunning : q.running = p.running) (hworkers : q.workers ⊆ p.workers)
  | adds (hadds : p.adds a = true) (id : Nat) (hroom : p.workers.card < cfg.maxWorker)
      (hrunning : q.running = insert id p.running) (hworkers : q.workers = insert id p.workers)
  | leaves (id : Nat) (ha : a = .exit id) (hrunning : q.running = p.running.erase id)
      (hworkers : q.workers = p.workers.erase id)

theorem crewing_addWorkerLocked {a : PoolAct} (ha : p.adds a = true)
    (hrunning : q.running = (p.addWorkerLocked cfg).running)
    (hworkers : q.workers = (p.addWorkerLocked cfg).workers) : Crewing cfg p a q := by
  unfold addWorkerLocked at hrunning hworkers
  split at hrunning
  · rename_i hclosed
    rw [if_pos hclosed] at hworkers
    exact .quiet hrunning hworkers.subset
  rename_i hopen
  rw [if_neg hopen] at hworkers
  split at hrunning
  · rename_i hfull
    rw [if_pos hfull] at hworkers
    exact .quiet hrunning hworkers.subset
  rename_i hroom
  rw [if_neg hroom] at hworkers
  exact .adds ha _ (Nat.lt_of_not_le hroom) hrunning hworkers

theorem crewing_stepEval {k v : Nat} (hs : p.stepEval cfg k v = some q) :
    Crewing cfg p (.eval k v) q := by
  unfold stepEval at hs
  split at hs
  · cases hs
  rename_i pc hk
  cases pc with
  | addLock =>
    cases hs
    exact crewing_addWorkerLocked (decide_eq_true hk) rfl rfl
  | retire n =>
    simp only at hs
    split at hs
    · cases hs
      exact .quiet rfl subset_rfl
    split at hs
    · cases hs
      exact .quiet rfl (Finset.erase_subset _ _)
    · cases hs
  | returned => cases hs
  | closed | queue | count c | growReset | addCheck | streak n =>
      cases hs; exact .quiet rfl subset_rfl
  | shrinkReset n | closeRetire w | reset => cases hs; exact .quiet rfl subset_rfl

theorem crewing_stepStart (hs : p.stepStart cfg = some q) : Crewing cfg p .startStep q := by
  unfold stepStart at hs
  split at hs
  · cases hs
    exact .quiet rfl subset_rfl
  · cases hs
    exact .quiet rfl subset_rfl
  · rename_i left hlock
    cases hs
    have hadds : p.adds .startStep = true := by simp only [adds, hlock]
    exact crewing_addWorkerLocked hadds rfl rfl
  · cases hs

theorem step_crewing {a : PoolAct} (hs : p.step cfg a = some q) : Crewing cfg p a q := by
  cases a with
  | startStep => exact crewing_stepStart hs
  | eval k v => exact crewing_stepEval hs
  | beginClose =>
    cases hs
    exact .quiet rfl subset_rfl
  | start | submitted | submitFull | submitGivesUp | tick | handle =>
    simp only [step] at hs
    split at hs <;> cases hs
    exact .quiet rfl subset_rfl
  | exit id =>
    simp only [step] at hs
    split at hs <;> cases hs
    exact .leaves id rfl rfl rfl
  | stopRetire =>
    simp only [step] at hs
    split at hs <;> cases hs
    exact .quiet rfl (Finset.empty_subset _)

end Pool

/-! ### The crew -/

/-- `handling` are the workers inside `handle`. -/
structure Crew where
  pool : Pool
  handling : Finset Nat
  deriving DecidableEq

/-- A step of the pool, or a worker that takes a task or is done with it. -/
inductive CrewAct
  | pool (a : PoolAct)
  | take (id : Nat)
  | finish (id : Nat)
  deriving DecidableEq, Repr

namespace Crew

/-- A worker in a handler takes no other task and does not end; the pool's own
`handle`, a whole task in one step, is a `take` and a `finish` here. -/
def step (cfg : ScaleConfig) (c : Crew) : CrewAct → Option Crew
  | .pool a =>
    match a with
    | .handle => none
    | .exit id =>
      if id ∈ c.handling then none
      else (c.pool.step cfg (.exit id)).map fun p => { c with pool := p }
    | a => (c.pool.step cfg a).map fun p => { c with pool := p }
  | .take id =>
    if 0 < c.pool.queue ∧ id ∈ c.pool.running ∧ id ∉ c.handling then
      some ⟨{ c.pool with queue := c.pool.queue - 1 }, insert id c.handling⟩
    else none
  | .finish id =>
    if id ∈ c.handling then some { c with handling := c.handling.erase id } else none

end Crew

def crew (cfg : ScaleConfig) : Machine Crew CrewAct where
  init c := c = ⟨newScalablePool, ∅⟩
  step := Crew.step cfg

namespace Crew

variable {cfg : ScaleConfig} {c d : Crew}

/-- A step of the pool that is one of the crew as well. -/
theorem step_pool {a : PoolAct} {p : Pool} (hne : a ≠ .handle)
    (hexit : ∀ id, a = .exit id → id ∉ c.handling) (hs : c.pool.step cfg a = some p) :
    c.step cfg (.pool a) = some { c with pool := p } := by
  cases a with
  | handle => exact absurd rfl hne
  | exit id => simp only [step, if_neg (hexit id rfl), hs, Option.map_some]
  | start | startStep | submitted | submitFull | submitGivesUp | tick | beginClose | stopRetire =>
    simp only [step, hs, Option.map_some]
  | eval k v => simp only [step, hs, Option.map_some]

theorem pool_of_step {a : PoolAct} (hs : c.step cfg (.pool a) = some d) :
    c.pool.step cfg a = some d.pool ∧ d.handling = c.handling ∧
      ∀ id, a = .exit id → id ∉ c.handling := by
  have hmap : ∀ {b : PoolAct}, (c.pool.step cfg b).map (fun p => { c with pool := p }) = some d →
      c.pool.step cfg b = some d.pool ∧ d.handling = c.handling := by
    intro b hb
    obtain ⟨p, hp, rfl⟩ := Option.map_eq_some_iff.mp hb
    exact ⟨hp, rfl⟩
  cases a with
  | handle => cases hs
  | exit id =>
    simp only [step] at hs
    split at hs
    · cases hs
    rename_i hid
    obtain ⟨hp, hh⟩ := hmap hs
    refine ⟨hp, hh, ?_⟩
    intro id' heq
    cases heq
    exact hid
  | start | startStep | submitted | submitFull | submitGivesUp | tick | beginClose | stopRetire
  | eval k v =>
    simp only [step] at hs
    obtain ⟨hp, hh⟩ := hmap hs
    exact ⟨hp, hh, nofun⟩

/-- **A run of the pool is a run of the crew**: the workers of `handling` stay in their
handlers, and for each task of the run another worker takes it and finishes it. -/
theorem path_of_pool {ok : Pool → PoolAct → Prop} {handling : Finset Nat}
    (hidle : ∀ p, ok p .handle → p.running ≠ ∅ → ∃ id ∈ p.running, id ∉ handling)
    (hexit : ∀ p id, ok p (.exit id) → id ∉ handling) {p q : Pool} {as : List PoolAct}
    (h : (scalablePool cfg).Path ok p as q) :
    ∃ bs, (crew cfg).Path (fun _ _ => True) ⟨p, handling⟩ bs ⟨q, handling⟩ := by
  induction h with
  | nil p => exact ⟨[], .nil _⟩
  | @cons p t q a as hok hstep _ ih =>
    obtain ⟨bs, hbs⟩ := ih
    by_cases ha : a = .handle
    · subst ha
      have hguard : 0 < p.queue ∧ p.running ≠ ∅ := by
        by_contra hnot
        simp [scalablePool, Pool.step, hnot] at hstep
      obtain ⟨id, hid, hfree⟩ := hidle p hok hguard.2
      have ht : t = { p with queue := p.queue - 1 } := by
        simpa [scalablePool, Pool.step, hguard] using hstep.symm
      subst ht
      have htaken : (crew cfg).step ⟨p, handling⟩ (.take id) =
          some ⟨{ p with queue := p.queue - 1 }, insert id handling⟩ :=
        if_pos ⟨hguard.1, hid, hfree⟩
      refine ⟨.take id :: .finish id :: bs, .cons trivial htaken (.cons trivial ?_ hbs)⟩
      show (if id ∈ insert id handling then some (Crew.mk _ ((insert id handling).erase id))
        else none) = _
      rw [if_pos (Finset.mem_insert_self id handling), Finset.erase_insert hfree]
    · refine ⟨.pool a :: bs, .cons trivial (step_pool ha ?_ hstep) hbs⟩
      rintro id rfl
      exact hexit p id hok

/-! ### Goroutines and handlers -/

/-- A worker is added only when no retired worker is still running. -/
def NoneLingers (c : Crew) : CrewAct → Prop
  | .pool a => c.pool.adds a = true → c.pool.running ⊆ c.pool.workers
  | _ => True

instance (c : Crew) : (a : CrewAct) → Decidable (c.NoneLingers a)
  | .pool a => inferInstanceAs (Decidable (c.pool.adds a = true → c.pool.running ⊆ c.pool.workers))
  | .take _ => inferInstanceAs (Decidable True)
  | .finish _ => inferInstanceAs (Decidable True)

/-- What the steps preserve: `bound` is what is said of the goroutines, and only running
workers are in a handler. -/
structure Manned (bound : Pool → Prop) (c : Crew) : Prop where
  bound : bound c.pool
  handling : c.handling ⊆ c.pool.running

theorem Manned.step {bound : Pool → Prop} {a : CrewAct} (h : c.Manned bound)
    (hqueue : ∀ (p : Pool) (n : Nat), bound p → bound { p with queue := n })
    (hpool : ∀ b q, a = .pool b → c.pool.Crewing cfg b q → bound q)
    (hs : c.step cfg a = some d) : d.Manned bound := by
  cases a with
  | pool b =>
    obtain ⟨hstep, hsame, hexit⟩ := pool_of_step hs
    have hcrew := Pool.step_crewing hstep
    refine ⟨hpool b d.pool rfl hcrew, ?_⟩
    rw [hsame]
    cases hcrew with
    | quiet hrunning => rw [hrunning]; exact h.handling
    | adds _ id _ hrunning => rw [hrunning]; exact h.handling.trans (Finset.subset_insert _ _)
    | leaves id ha hrunning =>
      rw [hrunning]
      exact Finset.subset_erase.mpr ⟨h.handling, hexit id ha⟩
  | take id =>
    simp only [Crew.step] at hs
    split at hs
    · rename_i hid
      cases hs
      exact ⟨hqueue _ _ h.bound, Finset.insert_subset hid.2.1 h.handling⟩
    · cases hs
  | finish id =>
    simp only [Crew.step] at hs
    split at hs
    · cases hs
      exact ⟨h.bound, (Finset.erase_subset _ _).trans h.handling⟩
    · cases hs

/-- The goroutines while no worker lingers when one is added. -/
theorem running_le_of_crewing {p q : Pool} {a : PoolAct} (h : p.running.card ≤ cfg.maxWorker)
    (hlinger : p.adds a = true → p.running ⊆ p.workers) (hc : p.Crewing cfg a q) :
    q.running.card ≤ cfg.maxWorker := by
  cases hc with
  | quiet hrunning => rwa [hrunning]
  | adds hadds id hroom hrunning =>
    have hle : p.running.card ≤ p.workers.card := Finset.card_le_card (hlinger hadds)
    have hinsert := Finset.card_insert_le id p.running
    rw [hrunning]
    omega
  | leaves id _ hrunning =>
    rw [hrunning]
    exact (Finset.card_le_card (Finset.erase_subset _ _)).trans h

/-- The worker map stays within the limit. -/
theorem workers_le_of_crewing {p q : Pool} {a : PoolAct} (h : p.workers.card ≤ cfg.maxWorker)
    (hc : p.Crewing cfg a q) : q.workers.card ≤ cfg.maxWorker := by
  cases hc with
  | quiet _ hworkers => exact (Finset.card_le_card hworkers).trans h
  | adds _ id hroom _ hworkers =>
    have hinsert := Finset.card_insert_le id p.workers
    rw [hworkers]
    omega
  | leaves id _ _ hworkers =>
    rw [hworkers]
    exact (Finset.card_le_card (Finset.erase_subset _ _)).trans h

end Crew

open Crew

/-- **The ceiling.**  In every run in which no worker is added while a retired one is
still running, at most `maxWorker` goroutines execute `run`, and so at most that many
handlers run at a time. -/
theorem running_le_max (cfg : ScaleConfig) (c : Crew) (h : (crew cfg).Reaches NoneLingers c) :
    c.pool.running.card ≤ cfg.maxWorker ∧ c.handling ⊆ c.pool.running ∧
      c.handling.card ≤ cfg.maxWorker := by
  have hinv : c.Manned fun p => p.running.card ≤ cfg.maxWorker := by
    refine h.inv ?_ ?_
    · rintro c rfl
      exact ⟨by simp [newScalablePool], Finset.empty_subset _⟩
    · intro c a d hc hok hs
      refine hc.step (fun _ _ hp => hp) ?_ hs
      rintro b q rfl hcrew
      exact running_le_of_crewing hc.bound hok hcrew
  exact ⟨hinv.bound, hinv.handling, (Finset.card_le_card hinv.handling).trans hinv.bound⟩

/-- `Start`, and the one worker of the floor takes a task. -/
theorem running_le_max_oneHandler :
    ∃ c, (crew floorConfig).Reaches NoneLingers c ∧ c.handling = {1} ∧
      c.pool.running.card ≤ floorConfig.maxWorker ∧ c.handling ⊆ c.pool.running ∧
      c.handling.card ≤ floorConfig.maxWorker := by
  have hrun : ((crew floorConfig).runIf NoneLingers ⟨newScalablePool, ∅⟩
      [.pool .start, .pool .startStep, .pool .startStep, .pool .startStep, .pool .submitted,
        .take 1]).map Crew.handling = some {1} := by decide +kernel
  obtain ⟨c, hreach, hhandling⟩ := Machine.exists_reaches hrun rfl
  exact ⟨c, hreach, hhandling, running_le_max floorConfig c hreach⟩

/-- Worker 1 is retired and still in its handler. -/
def lingering (tick : Nat) : Crew where
  pool := ⟨{2}, {1}, {2, 1}, 2, 0, false, 0, 0, tick, .returned,
    [.returned, .returned, .returned, .returned]⟩
  handling := {1}

theorem reachable_lingering : (crew floorConfig).Reachable (lingering 4096) := by
  obtain ⟨p, as, rfl, hpath⟩ := reaches_beforeThird
  obtain ⟨bs, hbs⟩ := @path_of_pool floorConfig Pool.NotOvertaken ∅ (fun p _ hne => by
      obtain ⟨id, hid⟩ := Finset.nonempty_iff_ne_empty.mpr hne
      exact ⟨id, hid, Finset.notMem_empty id⟩)
    (fun _ id _ => Finset.notMem_empty id) _ _ _ hpath
  have hrun : (crew floorConfig).run ⟨beforeThird, ∅⟩
      ([.pool .submitted, .take 1, .pool .tick] ++ List.replicate 7 (.pool (.eval 3 1))) =
      some (lingering 4096) := by decide +kernel
  exact Machine.Reaches.path ⟨_, bs, rfl, hbs⟩ (Machine.path_true_iff_run.mpr hrun)

/-- More submits, handled by worker 2. -/
theorem reachable_lingering_later : (crew floorConfig).Reachable (lingering 5115) := by
  have hpath : (scalablePool floorConfig).Path (fun p a => 2 ∈ p.running ∧ ∀ id, a ≠ .exit id)
      (lingering 4096).pool (plainSubmits 1019) (lingering 5115).pool := by
    refine path_plainSubmits 1019 (lingering 4096).pool ?_ (by decide) rfl (by decide) (by decide)
    intro q hq
    have hmem : 2 ∈ q.running := by
      rw [hq]
      decide
    exact ⟨⟨hmem, nofun⟩, ⟨hmem, nofun⟩, ⟨hmem, nofun⟩⟩
  obtain ⟨bs, hbs⟩ := @path_of_pool floorConfig _ {1}
    (fun p hok _ => ⟨2, hok.1, by decide⟩) (fun p id hok => absurd rfl (hok.2 id)) _ _ _ hpath
  exact Machine.Reaches.path reachable_lingering hbs

/-- Worker 2 goes into a long handler too, the queue fills up, and the next evaluation
adds a worker in the place of the retired one. -/
theorem three_handlers_of_two :
    ∃ c, (crew floorConfig).Reachable c ∧ c.pool.closed = false ∧
      floorConfig.maxWorker < c.pool.running.card ∧ floorConfig.maxWorker < c.handling.card := by
  have hrun : ((crew floorConfig).run (lingering 5115)
      ([.pool .submitted, .take 2, .pool .tick] ++
        (List.replicate 4 [CrewAct.pool .submitted, .pool .tick]).flatten ++
        List.replicate 6 (.pool (.eval 4 0)) ++ [.take 3])).map
      (fun c => (c.pool.closed, c.pool.running.card, c.handling.card)) = some (false, 3, 3) := by
    decide +kernel
  obtain ⟨c, hc, heq⟩ := Option.map_eq_some_iff.mp hrun
  simp only [Prod.mk.injEq] at heq
  refine ⟨c, ?_, heq.1, by rw [heq.2.1]; decide, by rw [heq.2.2]; decide⟩
  exact Machine.Reaches.path reachable_lingering_later (Machine.path_true_iff_run.mpr hc)

end SharkSocket.Shared
