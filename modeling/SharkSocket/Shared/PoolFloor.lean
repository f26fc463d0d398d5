import SharkSocket.Shared.ScalablePool

/-!
# The floor of the elastic pool

An evaluation retires a worker if it read a worker count above `minWorker` and
the shrink streak has reached its hold.  The count is not read again when the
victim is taken, and two evaluations that add to the streak before either resets
it both go on to retire.  Each of them then lowers a count that only allowed for
one.

* `workers_ge_min`: in a run in which every evaluation that retires finds at least
  as many workers as it read, the pool has `minWorker` workers from the end of
  `Start` until `Stop` begins;
* `two_retire_below_min`: two evaluations that overlap take a pool of two workers,
  one of them above the floor, down to none.
-/

namespace SharkSocket.Shared

open Lib

namespace Pool

/-- Nobody else has lowered the worker count since this evaluation read it. -/
def NotOvertaken (p : Pool) : PoolAct → Prop
  | .eval k _ =>
    match p.evals[k]? with
    | some (.retire n) => n ≤ p.workers.card
    | _ => True
  | _ => True

instance (p : Pool) (a : PoolAct) : Decidable (p.NotOvertaken a) := by
  unfold NotOvertaken
  split
  · split <;> infer_instance
  · infer_instance

/-- The workers `Start` is still to add. -/
def toStart (cfg : ScaleConfig) : StartPc → Nat
  | .idle => cfg.minWorker
  | .next left => left
  | .lock left => left + 1
  | .returned => 0

/-- What holds of an evaluation: it shrinks on a count above the floor, and its
victim is out of the map. -/
def EvalOk (cfg : ScaleConfig) (p : Pool) : EvalPc → Prop
  | .streak n => cfg.minWorker < n
  | .shrinkReset n => cfg.minWorker < n
  | .retire n => cfg.minWorker < n
  | .closeRetire v => v ∉ p.workers ∧ v ≤ p.nextID
  | _ => True

structure Floor (cfg : ScaleConfig) (p : Pool) : Prop where
  known : ∀ id ∈ p.workers, id ≤ p.nextID
  out : ∀ id ∈ p.retired, id ∉ p.workers ∧ id ≤ p.nextID
  evals : ∀ pc ∈ p.evals, p.EvalOk cfg pc
  floor : p.closed = false → cfg.minWorker ≤ p.workers.card + toStart cfg p.start

variable {cfg : ScaleConfig} {p q : Pool}

theorem floor_new : Floor cfg newScalablePool where
  known id h := by simp [newScalablePool] at h
  out id h := by simp [newScalablePool] at h
  evals pc h := by simp [newScalablePool] at h
  floor _ := by simp [newScalablePool, toStart]

/-! ### What the steps do to the worker map -/

/-- Evaluations stay as they should when the map only loses workers or gains new ones. -/
theorem EvalOk.mono {pc : EvalPc} (h : p.EvalOk cfg pc) (hid : p.nextID ≤ q.nextID)
    (hw : ∀ id ∈ q.workers, id ∈ p.workers ∨ p.nextID < id) : q.EvalOk cfg pc := by
  cases pc with
  | closeRetire v =>
    refine ⟨fun hv => ?_, h.2.trans hid⟩
    rcases hw v hv with hv | hv
    · exact h.1 hv
    · exact absurd h.2 (by omega)
  | streak | shrinkReset | retire => exact h
  | _ => trivial

/-- The locked part of `addWorker` makes room for one worker fewer to start. -/
theorem addWorkerLocked_spec (h : p.Floor cfg) : p.nextID ≤ (p.addWorkerLocked cfg).nextID ∧
    (∀ id ∈ (p.addWorkerLocked cfg).workers, id ∈ p.workers ∨ p.nextID < id) ∧
    (∀ id ∈ (p.addWorkerLocked cfg).workers, id ≤ (p.addWorkerLocked cfg).nextID) ∧
    p.workers.card ≤ (p.addWorkerLocked cfg).workers.card ∧
    (p.closed = false → (p.addWorkerLocked cfg).workers.card = p.workers.card + 1 ∨
      cfg.maxWorker ≤ (p.addWorkerLocked cfg).workers.card) := by
  unfold addWorkerLocked
  split
  · rename_i hc
    exact ⟨le_refl _, fun _ hid => .inl hid, h.known, le_refl _, fun hn => by simp [hc] at hn⟩
  split
  · exact ⟨le_refl _, fun _ hid => .inl hid, h.known, le_refl _, fun _ => .inr ‹_›⟩
  have hnew : p.nextID + 1 ∉ p.workers := fun hmem => by
    have := h.known _ hmem
    omega
  refine ⟨Nat.le_succ _, ?_, ?_, ?_, ?_⟩
  · intro id hid
    rcases Finset.mem_insert.mp hid with rfl | hid
    · exact .inr (Nat.lt_succ_self _)
    · exact .inl hid
  · intro id hid
    rcases Finset.mem_insert.mp hid with rfl | hid
    · exact le_refl _
    · exact (h.known id hid).trans (Nat.le_succ _)
  · exact Finset.card_le_card (Finset.subset_insert _ _)
  · intro _
    exact .inl (Finset.card_insert_of_notMem hnew)

theorem Floor.later (h : p.Floor cfg) (hid : p.nextID ≤ q.nextID)
    (hw : ∀ id ∈ q.workers, id ∈ p.workers ∨ p.nextID < id)
    (hknown : ∀ id ∈ q.workers, id ≤ q.nextID)
    (hret : ∀ id ∈ q.retired, id ∈ p.retired ∨ (id ∉ q.workers ∧ id ≤ q.nextID))
    (hev : ∀ pc ∈ q.evals, pc ∈ p.evals ∨ q.EvalOk cfg pc)
    (hfloor : q.closed = false → cfg.minWorker ≤ q.workers.card + toStart cfg q.start) :
    q.Floor cfg where
  known := hknown
  out id hmem := by
    rcases hret id hmem with hmem | hout
    · obtain ⟨hout, hle⟩ := h.out id hmem
      refine ⟨fun hin => ?_, hle.trans hid⟩
      rcases hw id hin with hin | hlt
      · exact hout hin
      · omega
    · exact hout
  evals pc hpc := by
    rcases hev pc hpc with hpc | hok
    · exact (h.evals pc hpc).mono hid hw
    · exact hok
  floor := hfloor

/-- A step that leaves the worker map alone. -/
theorem Floor.quiet (h : p.Floor cfg) (hw : q.workers = p.workers) (hr : q.retired = p.retired)
    (hid : q.nextID = p.nextID) (hc : q.closed = p.closed) (hs : q.start = p.start)
    (hev : ∀ pc ∈ q.evals, pc ∈ p.evals ∨ q.EvalOk cfg pc) : q.Floor cfg := by
  refine h.later hid.ge (fun id hm => .inl (hw ▸ hm)) ?_ (fun id hm => .inl (hr ▸ hm)) hev ?_
  · intro id hm
    rw [hw] at hm
    rw [hid]
    exact h.known id hm
  · rw [hc, hw, hs]
    exact h.floor

theorem Floor.setStart (h : p.Floor cfg) (pc : StartPc)
    (hfloor : p.closed = false → cfg.minWorker ≤ p.workers.card + toStart cfg pc) :
    ({ p with start := pc } : Pool).Floor cfg :=
  h.later (le_refl _) (fun _ hm => .inl hm) h.known (fun _ hm => .inl hm)
    (fun _ hm => .inl hm) hfloor

/-- A worker that is not in the map any more, or a closed pool, loses nothing. -/
theorem Floor.removeWorker (h : p.Floor cfg) (id : Nat)
    (hfloor : p.closed = false → cfg.minWorker ≤ (p.workers.erase id).card + toStart cfg p.start) :
    (p.removeWorker id).Floor cfg :=
  h.later (le_refl _) (fun _ hm => .inl (Finset.mem_of_mem_erase hm))
    (fun j hm => h.known j (Finset.mem_of_mem_erase hm)) (fun _ hm => .inl hm)
    (fun _ hm => .inl hm) hfloor

theorem Floor.setEval {k : Nat} {pc : EvalPc} (h : p.Floor cfg) (hok : p.EvalOk cfg pc) :
    (p.setEval k pc).Floor cfg := by
  refine h.quiet rfl rfl rfl rfl rfl ?_
  intro pc' hmem
  rcases List.mem_or_eq_of_mem_set hmem with hmem | rfl
  · exact .inl hmem
  · exact .inr hok

theorem Floor.streak (h : p.Floor cfg) (n : Int) :
    ({ p with downStreak := n } : Pool).Floor cfg :=
  h.quiet rfl rfl rfl rfl rfl fun _ hm => .inl hm

theorem addWorkerLocked_frame (cfg : ScaleConfig) (p : Pool) :
    (p.addWorkerLocked cfg).retired = p.retired ∧ (p.addWorkerLocked cfg).evals = p.evals ∧
    (p.addWorkerLocked cfg).closed = p.closed ∧ (p.addWorkerLocked cfg).start = p.start := by
  unfold Pool.addWorkerLocked
  split
  · exact ⟨rfl, rfl, rfl, rfl⟩
  · split <;> exact ⟨rfl, rfl, rfl, rfl⟩

theorem Floor.addWorkerLocked (h : p.Floor cfg) : (p.addWorkerLocked cfg).Floor cfg := by
  obtain ⟨hid, hw, hknown, hcard, _⟩ := addWorkerLocked_spec h
  obtain ⟨hret, hev, hclosed, hstart⟩ := addWorkerLocked_frame cfg p
  refine h.later hid hw hknown (fun _ hm => .inl (hret ▸ hm)) (fun _ hm => .inl (hev ▸ hm)) ?_
  rw [hclosed, hstart]
  intro hc
  have hfloor := h.floor hc
  omega

theorem evalOk_scaleBranch (q n : Nat) : p.EvalOk cfg (scaleBranch cfg q n) := by
  unfold scaleBranch
  simp only
  split
  · trivial
  split
  · rename_i hlow
    exact hlow.2
  · trivial

/-- The victim of an evaluation that was not overtaken is above the floor. -/
theorem Floor.retire {k n v : Nat} (h : p.Floor cfg) (hk : p.evals[k]? = some (.retire n))
    (hv : v ∈ p.workers) (hn : n ≤ p.workers.card) :
    ((p.removeWorker v).setEval k (.closeRetire v)).Floor cfg := by
  have hmin : cfg.minWorker < n := h.evals _ (List.mem_of_getElem? hk)
  have hcard : (p.workers.erase v).card + 1 = p.workers.card := Finset.card_erase_add_one hv
  refine (h.removeWorker v fun _ => by omega).setEval ⟨?_, h.known v hv⟩
  exact Finset.notMem_erase v p.workers

theorem Floor.closeRetire {k v : Nat} (h : p.Floor cfg) (hk : p.evals[k]? = some (.closeRetire v)) :
    ({ p with retired := insert v p.retired }.setEval k .returned).Floor cfg := by
  have hv : v ∉ p.workers ∧ v ≤ p.nextID := h.evals _ (List.mem_of_getElem? hk)
  refine Floor.setEval (h.later (le_refl _) (fun _ hm => .inl hm) h.known ?_
    (fun _ hm => .inl hm) h.floor) trivial
  intro id hm
  rcases Finset.mem_insert.mp hm with rfl | hm
  · exact .inr hv
  · exact .inl hm

theorem Floor.stepEval {k v : Nat} (h : p.Floor cfg) (hok : p.NotOvertaken (.eval k v))
    (hs : p.stepEval cfg k v = some q) : q.Floor cfg := by
  unfold Pool.stepEval at hs
  split at hs
  · cases hs
  rename_i pc hk
  have hpc : p.EvalOk cfg pc := h.evals _ (List.mem_of_getElem? hk)
  cases pc with
  | closed | queue | addCheck =>
    cases hs
    exact h.setEval (by split <;> trivial)
  | count c =>
    cases hs
    exact h.setEval (evalOk_scaleBranch _ _)
  | growReset | reset =>
    cases hs
    exact (h.streak 0).setEval trivial
  | addLock =>
    cases hs
    exact h.addWorkerLocked.setEval trivial
  | streak n =>
    cases hs
    refine (h.streak _).setEval ?_
    split
    · exact hpc
    · trivial
  | shrinkReset n =>
    cases hs
    exact (h.streak 0).setEval hpc
  | retire n =>
    simp only at hs
    split at hs
    · cases hs
      exact h.setEval trivial
    split at hs
    · cases hs
      simp only [NotOvertaken, hk] at hok
      exact h.retire hk ‹_› hok
    · cases hs
  | closeRetire w =>
    cases hs
    exact h.closeRetire hk
  | returned => cases hs

theorem Floor.stepStart (h : p.Floor cfg) (hs : p.stepStart cfg = some q) : q.Floor cfg := by
  unfold Pool.stepStart at hs
  split at hs
  · rename_i hst
    cases hs
    refine h.setStart _ ?_
    intro hc
    have hfloor := h.floor hc
    rwa [hst] at hfloor
  · rename_i left hst
    cases hs
    refine h.setStart _ ?_
    intro hc
    have hfloor := h.floor hc
    rw [hst] at hfloor
    simpa [hc, toStart] using hfloor
  · rename_i left hst
    cases hs
    obtain ⟨_, _, _, _, hgrow⟩ := addWorkerLocked_spec h
    have hadd := h.addWorkerLocked
    refine ⟨hadd.known, hadd.out, hadd.evals, ?_⟩
    intro hc
    have hold : p.closed = false := (addWorkerLocked_frame cfg p).2.2.1.symm.trans hc
    have hfloor := h.floor hold
    have hbounds := cfg.min_le_max
    rw [hst] at hfloor
    simp only [toStart] at hfloor ⊢
    rcases hgrow hold with hcard | hcard <;> omega
  · cases hs

theorem Floor.step {a : PoolAct} (h : p.Floor cfg) (hok : p.NotOvertaken a)
    (hs : p.step cfg a = some q) : q.Floor cfg := by
  cases a with
  | start =>
    simp only [Pool.step] at hs
    split at hs <;> cases hs
    rename_i hst
    refine h.setStart _ ?_
    intro hc
    have hfloor := h.floor hc
    rwa [hst] at hfloor
  | startStep => exact h.stepStart hs
  | submitted | submitFull | submitGivesUp | handle =>
    simp only [Pool.step] at hs
    split at hs <;> cases hs
    exact h.quiet rfl rfl rfl rfl rfl fun _ hm => .inl hm
  | tick =>
    simp only [Pool.step] at hs
    split at hs <;> cases hs
    refine h.quiet rfl rfl rfl rfl rfl ?_
    intro pc hm
    split at hm
    · rcases List.mem_append.mp hm with hm | hm
      · exact .inl hm
      rw [List.mem_singleton] at hm
      subst hm
      exact .inr trivial
    · exact .inl hm
  | eval k v => exact h.stepEval hok hs
  | exit id =>
    simp only [Pool.step] at hs
    split at hs <;> cases hs
    rename_i hid
    have hr : (p.removeWorker id).Floor cfg := by
      refine h.removeWorker id ?_
      intro hc
      rcases hid.2 with hret | hclosed
      · rw [Finset.erase_eq_of_notMem (h.out id hret).1]
        exact h.floor hc
      rw [hclosed] at hc
      cases hc
    exact hr.quiet rfl rfl rfl rfl rfl fun _ hm => .inl hm
  | beginClose =>
    cases hs
    exact h.later (le_refl _) (fun _ hm => .inl hm) h.known (fun _ hm => .inl hm)
      (fun _ hm => .inl hm) (fun hc => by cases hc)
  | stopRetire =>
    simp only [Pool.step] at hs
    split at hs <;> cases hs
    rename_i hclosed
    refine h.later (le_refl _) (fun _ hm => by simp at hm) (fun _ hm => by simp at hm) ?_
      (fun _ hm => .inl hm) (fun hc => by simp [hclosed] at hc)
    intro id hm
    rcases Finset.mem_union.mp hm with hm | hm
    · exact .inl hm
    · exact .inr ⟨by simp, h.known id hm⟩

end Pool

/-- **The pool keeps its floor** from the end of `Start` until `Stop` begins, in
every run in which no evaluation retires a worker when there are fewer than it
counted. -/
theorem workers_ge_min (cfg : ScaleConfig) (p : Pool)
    (h : (scalablePool cfg).Reaches Pool.NotOvertaken p) (hstart : p.start = .returned)
    (hclosed : p.closed = false) : cfg.minWorker ≤ p.workers.card := by
  have hf : p.Floor cfg := by
    refine h.inv ?_ ?_
    · rintro p rfl
      exact Pool.floor_new
    · intro p a q hp hok hst
      exact hp.step hok hst
  have hfloor := hf.floor hclosed
  rw [hstart] at hfloor
  exact hfloor

/-! ### Two workers, one above the floor

The pool grows at its first evaluation and then has a streak of two low
readings.  Most of the 1024 submits between two evaluations change nothing but
the count. -/

def floorConfig : ScaleConfig where
  minWorker := 1
  maxWorker := 2
  min_pos := by decide
  min_le_max := by decide
  queueSize := 4
  policy := .drop
  scaleUpRatio := defaultScaleUpRatio
  scaleDownRatio := defaultScaleDownRatio

/-- A task that is handled before its `Submit` counts itself. -/
def plainSubmit : List PoolAct := [.submitted, .handle, .tick]

def plainSubmits (k : Nat) : List PoolAct := (List.replicate k plainSubmit).flatten

theorem path_plainSubmit {cfg : ScaleConfig} {ok : Pool → PoolAct → Prop} {p : Pool}
    (hok : ∀ q : Pool, q.running = p.running → ok q .submitted ∧ ok q .handle ∧ ok q .tick)
    (hq : p.queue < cfg.queueSize) (hsub : p.submits = 0) (hrun : p.running ≠ ∅)
    (htick : (p.submitTick + 1) % scaleCheckInterval ≠ 0) :
    (scalablePool cfg).Path ok p plainSubmit { p with submitTick := p.submitTick + 1 } := by
  have htaken := hok { p with queue := p.queue + 1, submits := 1 } rfl
  have hhandled := hok { p with submits := 1 } rfl
  refine .cons (hok p rfl).1 ?_ (.cons htaken.2.1 ?_ (.cons hhandled.2.2 ?_ (.nil _)))
  · simp [scalablePool, Pool.step, hq, hsub]
  · simp [scalablePool, Pool.step, hrun]
  · simp [scalablePool, Pool.step, htick, hsub]

theorem path_plainSubmits {cfg : ScaleConfig} {ok : Pool → PoolAct → Prop} : ∀ (k : Nat) (p : Pool),
      (∀ q : Pool, q.running = p.running → ok q .submitted ∧ ok q .handle ∧ ok q .tick) →
      p.queue < cfg.queueSize → p.submits = 0 → p.running ≠ ∅ →
      p.submitTick % scaleCheckInterval + k < scaleCheckInterval →
      (scalablePool cfg).Path ok p (plainSubmits k) { p with submitTick := p.submitTick + k } := by
  intro k
  induction k with
  | zero => intro p _ _ _ _ _; exact .nil _
  | succ k ih =>
    intro p hok hq hsub hrun htick
    have hnext : (p.submitTick + 1) % scaleCheckInterval ≠ 0 := by
      unfold scaleCheckInterval at htick ⊢
      omega
    have hrest := ih { p with submitTick := p.submitTick + 1 } hok hq hsub hrun (by
      unfold scaleCheckInterval at htick ⊢
      simp only
      omega)
    have hcount : p.submitTick + 1 + k = p.submitTick + (k + 1) := by omega
    simp only [hcount] at hrest
    exact (path_plainSubmit hok hq hsub hrun hnext).append hrest

theorem path_quiet (k : Nat) {p : Pool} (hq : p.queue < 4) (hsub : p.submits = 0)
    (hrun : p.running ≠ ∅) (htick : p.submitTick % 1024 + k < 1024) :
    (scalablePool floorConfig).Path Pool.NotOvertaken p (plainSubmits k)
      { p with submitTick := p.submitTick + k } :=
  path_plainSubmits k p (fun _ _ => ⟨trivial, trivial, trivial⟩) hq hsub hrun htick

def onePool (tick : Nat) : Pool := ⟨{1}, ∅, {1}, 1, 0, false, 0, 0, tick, .returned, []⟩

def pairPool (streak : Int) (tick : Nat) (evals : List EvalPc) : Pool :=
  ⟨{2, 1}, ∅, {2, 1}, 2, 0, false, streak, 0, tick, .returned, evals⟩

/-- Four tasks fill the queue, the 1024th submit evaluates, and the workers
empty the queue. -/
def growing : List PoolAct :=
  (List.replicate 4 [.submitted, .tick]).flatten ++ List.replicate 6 (.eval 0 0) ++
    List.replicate 4 .handle

/-- The 1024th submit evaluates at low water, with a streak that is too short. -/
def lowReading (k : Nat) : List PoolAct := plainSubmit ++ List.replicate 4 (.eval k 0)

/-- Its streak is two, and the next submit evaluates. -/
def beforeThird : Pool := pairPool 2 4095 [.returned, .returned, .returned]

theorem reaches_beforeThird : (scalablePool floorConfig).Reaches Pool.NotOvertaken beforeThird := by
  have h1 : (scalablePool floorConfig).Reaches Pool.NotOvertaken (onePool 0) :=
    Machine.reaches_of_runIf [.start, .startStep, .startStep, .startStep] rfl (by decide +kernel)
  have h2 : (scalablePool floorConfig).Reaches Pool.NotOvertaken (onePool 1020) :=
    h1.path (path_quiet 1020 (by decide) rfl (by decide) (by decide))
  have h3 : (scalablePool floorConfig).Reaches Pool.NotOvertaken (pairPool 0 1024 [.returned]) :=
    h2.runIf growing (by decide +kernel)
  have h4 : (scalablePool floorConfig).Reaches Pool.NotOvertaken (pairPool 0 2047 [.returned]) :=
    h3.path (path_quiet 1023 (by decide) rfl (by decide) (by decide))
  have h5 : (scalablePool floorConfig).Reaches Pool.NotOvertaken
      (pairPool 1 2048 [.returned, .returned]) :=
    h4.runIf (lowReading 1) (by decide +kernel)
  have h6 : (scalablePool floorConfig).Reaches Pool.NotOvertaken
      (pairPool 1 3071 [.returned, .returned]) :=
    h5.path (path_quiet 1023 (by decide) rfl (by decide) (by decide))
  have h7 : (scalablePool floorConfig).Reaches Pool.NotOvertaken
      (pairPool 2 3072 [.returned, .returned, .returned]) :=
    h6.runIf (lowReading 2) (by decide +kernel)
  exact h7.path (path_quiet 1023 (by decide) rfl (by decide) (by decide))

/-- The third low reading retires a worker, and the pool is at its floor. -/
theorem workers_ge_min_third_reading :
    ∃ p, (scalablePool floorConfig).Reaches Pool.NotOvertaken p ∧ p.start = .returned ∧
      p.closed = false ∧ p.workers = {2} ∧ floorConfig.minWorker ≤ p.workers.card := by
  have hrun : ((scalablePool floorConfig).runIf Pool.NotOvertaken beforeThird
      (plainSubmit ++ List.replicate 7 (.eval 3 1))).map (fun p => (p.start, p.closed, p.workers))
      = some (.returned, false, {2}) := by decide +kernel
  obtain ⟨p, hp, heq⟩ := Option.map_eq_some_iff.mp hrun
  simp only [Prod.mk.injEq] at heq
  have hreach := reaches_beforeThird.runIf _ hp
  exact ⟨p, hreach, heq.1, heq.2.1, heq.2.2, workers_ge_min floorConfig p hreach heq.1 heq.2.1⟩

/-- Two evaluations have counted two workers before either adds to the streak. -/
def overlapping : Pool := pairPool 2 5120 [.returned, .returned, .returned, .streak 2, .streak 2]

theorem reaches_overlapping : (scalablePool floorConfig).Reaches Pool.NotOvertaken overlapping := by
  have h1 : (scalablePool floorConfig).Reaches Pool.NotOvertaken
      (pairPool 2 4096 [.returned, .returned, .returned, .streak 2]) :=
    reaches_beforeThird.runIf (plainSubmit ++ List.replicate 3 (.eval 3 0)) (by decide +kernel)
  have h2 : (scalablePool floorConfig).Reaches Pool.NotOvertaken
      (pairPool 2 5119 [.returned, .returned, .returned, .streak 2]) :=
    h1.path (path_quiet 1023 (by decide) rfl (by decide) (by decide))
  exact h2.runIf (plainSubmit ++ List.replicate 3 (.eval 4 0)) (by decide +kernel)

/-- Both add to the streak before either resets it, and both retire. -/
theorem two_retire_below_min :
    ∃ p, (scalablePool floorConfig).Reachable p ∧ p.start = .returned ∧ p.closed = false ∧
      p.workers.card < floorConfig.minWorker := by
  have hrun : ((scalablePool floorConfig).run overlapping [.eval 3 0, .eval 4 0, .eval 3 0,
      .eval 3 1, .eval 4 0, .eval 4 2]).map (fun p => (p.start, p.closed, p.workers.card))
      = some (.returned, false, 0) := by decide +kernel
  obtain ⟨p, hp, heq⟩ := Option.map_eq_some_iff.mp hrun
  simp only [Prod.mk.injEq] at heq
  refine ⟨p, ?_, heq.1, heq.2.1, by rw [heq.2.2]; decide⟩
  exact Machine.Reaches.path reaches_overlapping.reachable (Machine.path_true_iff_run.mpr hp)

end SharkSocket.Shared
