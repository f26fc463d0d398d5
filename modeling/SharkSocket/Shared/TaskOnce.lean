import SharkSocket.Shared.TaskPool

/-!
# Every accepted task is handled once

`TaskStep` says what a step of a `TaskPool` can do.  The invariant has four parts:
every accepted task is in one place (`Flow`), a `Stop` that has the lock keeps
the others out (`Locking`), nothing is left when a `Stop` is done (`Emptied`),
and a channel that is still to be closed has not been closed yet (`Closing`).
-/

namespace SharkSocket.Shared

open Lib

/-! ### Steps -/

/-- What a `Submit` does before and after its channel send. -/
inductive SubmitMove (p : TaskPool) : SubmitPc → SubmitPc → Prop
  | rlock : (∀ pc ∈ p.stops, pc.writes = false) → SubmitMove p .enter .check
  | refused (e : Err) : SubmitMove p .check (.unlock (some e))
  | isOpen : p.closed = false → SubmitMove p .check .send
  | failed (e : Err) : SubmitMove p .send (.unlock (some e))
  | full : SubmitMove p .send .closeSession
  | closedSession (e : Err) : SubmitMove p .closeSession (.unlock (some e))
  | runlock (err : Option Err) : SubmitMove p (.unlock err) (.tick err)

/-- The call has put its task into the queue. -/
def SubmitPc.accepted : SubmitPc → Bool
  | .unlock none | .tick none | .returned none => true
  | _ => false

variable {p : TaskPool}

theorem SubmitMove.accepted_eq {a b : SubmitPc} (h : SubmitMove p a b) :
    b.accepted = a.accepted ∧ ∀ err, a ≠ .returned err := by
  cases h with
  | runlock err => cases err <;> exact ⟨rfl, by simp⟩
  | _ => exact ⟨rfl, by simp⟩

inductive WorkerMove : WorkerPc → WorkerPc → Prop
  | retire : WorkerMove .select .remove
  | done : WorkerMove .select .drain
  | drained : WorkerMove .drain .remove
  | exit : WorkerMove .remove .exited

theorem WorkerMove.task {a b : WorkerPc} (h : WorkerMove a b) : a.task = none ∧ b.task = none := by
  cases h <;> exact ⟨rfl, rfl⟩

/-- A worker before and in a call of `handle`. -/
inductive WorkerTask (t : Nat) : WorkerPc → WorkerPc → Prop
  | run : WorkerTask t .select (.handle t)
  | drain : WorkerTask t .drain (.drainHandle t)

variable {t : Nat} {a b : StopPc}

theorem WorkerTask.task {a b : WorkerPc} (h : WorkerTask t a b) :
    a.task = none ∧ b.task = some t := by
  cases h <;> exact ⟨rfl, rfl⟩

inductive ScaleMove : ScalePc → ScalePc → Prop
  | isOpen : ScaleMove .addCheck .addLock
  | addGivesUp : ScaleMove .addCheck .returned
  | added : ScaleMove .addLock .returned
  | nobody : ScaleMove .retireLock .returned

theorem ScaleMove.victim {a b : ScalePc} (h : ScaleMove a b) :
    a.victim = none ∧ b.victim = none := by
  cases h <;> exact ⟨rfl, rfl⟩

inductive StopMove (cfg : TaskConfig) (p : TaskPool) : StopPc → StopPc → Prop
  | already : p.closed = true → StopMove cfg p .begin (TaskPool.afterClose cfg)
  | lock : (∀ pc ∈ p.submits, pc.reads = false) → (∀ pc ∈ p.stops, pc.writes = false) →
      StopMove cfg p .lock .wait
  | waited : (∀ pc ∈ p.workers, pc = .exited) → StopMove cfg p .wait .drain
  | drained : p.queue = [] → StopMove cfg p .drain .unlock

theorem TaskPool.afterClose_eq (cfg : TaskConfig) :
    TaskPool.afterClose cfg = .lock ∨ TaskPool.afterClose cfg = .retire := by
  unfold TaskPool.afterClose
  split
  · exact .inl rfl
  · exact .inr rfl

theorem TaskPool.task_afterClose (cfg : TaskConfig) : (TaskPool.afterClose cfg).task = none := by
  rcases TaskPool.afterClose_eq cfg with h | h <;> rw [h] <;> rfl

theorem StopMove.task {cfg : TaskConfig} (h : StopMove cfg p a b) :
    a.task = none ∧ b.task = none := by
  cases h with
  | already => exact ⟨rfl, TaskPool.task_afterClose cfg⟩
  | _ => exact ⟨rfl, rfl⟩

variable (cfg : TaskConfig) (p : TaskPool) in
inductive TaskStep : TaskPool → Prop
  | start : (∀ pc ∈ p.stops, pc = .returned) → TaskStep { p with workers := p.workers ++ [.select] }
  | submit : TaskStep { p with submits := p.submits ++ [.enter] }
  | submitMove {k : Nat} {a b : SubmitPc} : p.submits[k]? = some a → SubmitMove p a b →
      TaskStep (p.setSubmit k b)
  | put {k : Nat} : p.submits[k]? = some .send → TaskStep (p.put k)
  | submitReturn {k : Nat} {err : Option Err} : p.submits[k]? = some (.tick err) →
      TaskStep ((p.setSubmit k (.returned err)).emit (.submitReturned k err))
  | workerMove {w : Nat} {a b : WorkerPc} {active : List Nat} : p.workers[w]? = some a →
      WorkerMove a b → active.Sublist p.active → TaskStep { p.setWorker w b with active := active }
  | workerTake {w t : Nat} {rest : List Nat} {a b : WorkerPc} : p.workers[w]? = some a →
      WorkerTask t a b → p.queue = t :: rest →
      TaskStep (({ p with queue := rest }.emit (.handling t)).setWorker w b)
  | workerHandled {w t : Nat} {a b : WorkerPc} : p.workers[w]? = some b → WorkerTask t a b →
      TaskStep ((p.setWorker w a).emit (.handled t))
  | scaler {pc : ScalePc} : pc.victim = none → TaskStep { p with scalers := p.scalers ++ [pc] }
  | scaleMove {n : Nat} {a b : ScalePc} : p.scalers[n]? = some a → ScaleMove a b →
      TaskStep (p.setScale n b)
  | added {n : Nat} : p.scalers[n]? = some .addLock → p.closed = false → TaskStep ({ p with
        workers := p.workers ++ [WorkerPc.select]
        active := p.active ++ [p.workers.length] }.setScale n .returned)
  | victim {n v : Nat} : p.scalers[n]? = some .retireLock → v ∈ p.active →
      TaskStep ({ p with active := p.active.erase v }.setScale n (.closeRetire v))
  | retired {n v : Nat} : p.scalers[n]? = some (.closeRetire v) →
      TaskStep ({ p with retireClosed := p.retireClosed ++ [v] }.setScale n .returned)
  | stop : TaskStep { p with stops := p.stops ++ [.begin] }
  | stopMove {n : Nat} {a b : StopPc} : p.stops[n]? = some a → StopMove cfg p a b →
      TaskStep (p.setStop n b)
  | close {n : Nat} : p.stops[n]? = some .begin → p.closed = false →
      TaskStep ({ p with closed := true }.setStop n .closeDone)
  | closeDone {n : Nat} : p.stops[n]? = some .closeDone →
      TaskStep ({ p with done := p.done + 1 }.setStop n (TaskPool.afterClose cfg))
  | retireAll {n : Nat} : p.stops[n]? = some .retire → TaskStep ({ p with
        active := []
        retireClosed := p.retireClosed ++ p.active }.setStop n .lock)
  | stopTake {n t : Nat} {rest : List Nat} : p.stops[n]? = some .drain → p.queue = t :: rest →
      TaskStep (({ p with queue := rest }.emit (.handling t)).setStop n (.handle t))
  | stopHandled {n t : Nat} : p.stops[n]? = some (.handle t) →
      TaskStep ((p.setStop n .drain).emit (.handled t))
  | stopReturn {n : Nat} : p.stops[n]? = some .unlock →
      TaskStep ((p.setStop n .returned).emit (.stopReturned n))

namespace TaskPool

theorem take_eq_none (h : p.take = none) : p.queue = [] := by
  unfold take at h
  split at h
  · assumption
  · cases h

theorem take_eq_some {q : TaskPool} (h : p.take = some (t, q)) :
    ∃ rest, p.queue = t :: rest ∧ q = { p with queue := rest }.emit (.handling t) := by
  unfold take at h
  split at h
  · cases h
  rename_i t' rest hq
  cases h
  exact ⟨rest, hq, rfl⟩

variable {cfg : TaskConfig} {p q : TaskPool}

theorem stepSubmit_cases {k : Nat} {c : SubmitCase} (h : p.stepSubmit cfg k c = some q) :
    TaskStep cfg p q := by
  unfold stepSubmit at h
  split at h <;> rename_i hk
  · -- enter
    split at h
    · cases h
    rename_i hfree
    cases h
    refine .submitMove hk (.rlock fun pc hpc => ?_)
    by_contra hw
    exact hfree ⟨pc, hpc, by simpa using hw⟩
  · -- check
    cases h
    split
    · exact .submitMove hk (.refused _)
    · exact .submitMove hk (.isOpen (by simpa using ‹¬p.closed = true›))
  · -- send
    split at h
    · cases h
      split
      · exact .put hk
      · exact .submitMove hk (.failed _)
    · cases h
      split
      · exact .put hk
      · exact .submitMove hk .full
    split at h
    · split at h
      · cases h
        exact .put hk
      · cases h
    · split at h
      · cases h
        exact .submitMove hk (.failed _)
      · cases h
    cases h
    exact .submitMove hk (.failed _)
  · cases h
    exact .submitMove hk (.closedSession _)
  · cases h
    exact .submitMove hk (.runlock _)
  · cases h
    exact .submitReturn hk
  · cases h
  · cases h

theorem stepWorker_cases {w : Nat} {c : RunCase} (h : p.stepWorker w c = some q) :
    TaskStep cfg p q := by
  unfold stepWorker at h
  split at h <;> rename_i hw
  · -- select
    split at h
    · obtain ⟨⟨t, r⟩, htake, rfl⟩ := Option.map_eq_some_iff.mp h
      obtain ⟨rest, hq, rfl⟩ := take_eq_some htake
      exact .workerTake hw .run hq
    · split at h
      · cases h
        exact .workerMove hw .retire (List.Sublist.refl _)
      · cases h
    split at h
    · cases h
      exact .workerMove hw .done (List.Sublist.refl _)
    · cases h
  · cases h
    exact .workerHandled hw .run
  · -- drain
    split at h
    · cases h
      exact .workerMove hw .drained (List.Sublist.refl _)
    rename_i t r htake
    obtain ⟨rest, hq, rfl⟩ := take_eq_some htake
    cases h
    exact .workerTake hw .drain hq
  · cases h
    exact .workerHandled hw .drain
  · cases h
    exact .workerMove hw .exit List.erase_sublist
  · cases h
  · cases h

theorem stepScale_cases {n victim : Nat} (h : p.stepScale cfg n victim = some q) :
    TaskStep cfg p q := by
  unfold stepScale at h
  split at h <;> rename_i hn
  · cases h
    split
    · exact .scaleMove hn .addGivesUp
    · exact .scaleMove hn .isOpen
  · -- addLock
    cases h
    unfold addWorkerLocked
    split
    · exact .scaleMove hn .added
    rename_i hclosed
    split
    · exact .scaleMove hn .added
    · exact .added hn (by simpa using hclosed)
  · -- retireLock
    split at h
    · cases h
      exact .scaleMove hn .nobody
    split at h
    · rename_i hv
      cases h
      exact .victim hn hv
    · cases h
  · cases h
    exact .retired hn
  · cases h
  · cases h

theorem stepStop_cases {n : Nat} (h : p.stepStop cfg n = some q) : TaskStep cfg p q := by
  unfold stepStop at h
  split at h <;> rename_i hn
  · -- begin
    cases h
    split
    · exact .stopMove hn (.already ‹_›)
    · exact .close hn (by simpa using ‹¬p.closed = true›)
  · cases h
    exact .closeDone hn
  · cases h
    exact .retireAll hn
  · -- lock
    split at h
    · cases h
    rename_i hfree
    cases h
    simp only [not_or, not_exists, not_and, Bool.not_eq_true] at hfree
    exact .stopMove hn (.lock hfree.1 hfree.2)
  · -- wait
    split at h
    · cases h
      exact .stopMove hn (.waited ‹_›)
    · cases h
  · -- drain
    split at h
    · rename_i htake
      cases h
      exact .stopMove hn (.drained (take_eq_none htake))
    rename_i t r htake
    obtain ⟨rest, hq, rfl⟩ := take_eq_some htake
    cases h
    exact .stopTake hn hq
  · cases h
    exact .stopHandled hn
  · cases h
    exact .stopReturn hn
  · cases h
  · cases h

theorem step_cases {a : TaskAct} (h : p.step cfg a = some q) : TaskStep cfg p q := by
  cases a with
  | start =>
    simp only [step] at h
    split at h
    · rename_i hs
      cases h
      exact .start hs.2
    · cases h
  | submit => cases h; exact .submit
  | submitStep k c => exact stepSubmit_cases h
  | workerStep w c => exact stepWorker_cases h
  | addWorker | retireOneWorker =>
    simp only [step] at h
    split at h
    · cases h
      exact .scaler rfl
    · cases h
  | scaleStep n victim => exact stepScale_cases h
  | stop => cases h; exact .stop
  | stopStep n => exact stepStop_cases h

end TaskPool

/-! ### Locks -/

/-- Has had the write lock, and perhaps still has it. -/
def StopPc.sealed : StopPc → Bool
  | .wait | .drain | .handle _ | .unlock | .returned => true
  | _ => false

/-- Has the write lock and has seen every worker leave. -/
def StopPc.alone : StopPc → Bool
  | .drain | .handle _ | .unlock => true
  | _ => false

namespace TaskPool

variable {cfg : TaskConfig} {p q : TaskPool}

structure Locking (p : TaskPool) : Prop where
  closed : ∀ pc ∈ p.stops, pc ≠ .begin → p.closed = true
  no_send : ∀ pc ∈ p.stops, pc.sealed = true → ∀ s ∈ p.submits, s ≠ .send
  no_reader : ∀ pc ∈ p.stops, pc.writes = true → ∀ s ∈ p.submits, s.reads = false
  one_writer : p.stops.countP StopPc.writes ≤ 1
  no_worker : ∀ pc ∈ p.stops, pc.alone = true → ∀ w ∈ p.workers, w = .exited

theorem locking_new : newTaskPool.Locking where
  closed := by simp [newTaskPool]
  no_send := by simp [newTaskPool]
  no_reader := by simp [newTaskPool]
  one_writer := by simp [newTaskPool]
  no_worker := by simp [newTaskPool]

theorem Locking.of_eq (h : p.Locking) (hclosed : q.closed = p.closed)
    (hsubmits : q.submits = p.submits) (hworkers : q.workers = p.workers)
    (hstops : q.stops = p.stops) : q.Locking where
  closed := by rw [hstops, hclosed]; exact h.closed
  no_send := by rw [hstops, hsubmits]; exact h.no_send
  no_reader := by rw [hstops, hsubmits]; exact h.no_reader
  one_writer := by rw [hstops]; exact h.one_writer
  no_worker := by rw [hstops, hworkers]; exact h.no_worker

/-- As long as the pool is open no `Stop` has got beyond its first step. -/
theorem Locking.eq_begin (h : p.Locking) (hopen : p.closed = false) {pc : StopPc}
    (hpc : pc ∈ p.stops) : pc = .begin := by
  by_contra hne
  rw [h.closed pc hpc hne] at hopen
  cases hopen

theorem Locking.setSubmit (h : p.Locking) {k : Nat} {a b : SubmitPc} (hk : p.submits[k]? = some a)
    (hsend : b = .send → p.closed = false)
    (hread : b.reads = true → a.reads = true ∨ ∀ pc ∈ p.stops, pc.writes = false) :
    (p.setSubmit k b).Locking where
  closed := h.closed
  no_send := by
    intro pc hpc hseal
    refine forall_mem_set (h.no_send pc hpc hseal) ?_
    rintro rfl
    rw [h.eq_begin (hsend rfl) hpc] at hseal
    cases hseal
  no_reader := by
    intro pc hpc hw
    refine forall_mem_set (h.no_reader pc hpc hw) ?_
    by_contra hb
    rcases hread (by simpa using hb) with ha | hfree
    · rw [h.no_reader pc hpc hw a (List.mem_of_getElem? hk)] at ha
      cases ha
    rw [hfree pc hpc] at hw
    cases hw
  one_writer := h.one_writer
  no_worker := h.no_worker

variable {n w : Nat}

theorem Locking.setWorker (h : p.Locking) {a : WorkerPc} (hw : p.workers[w]? = some a)
    (ha : a ≠ .exited) (b : WorkerPc) : (p.setWorker w b).Locking where
  closed := h.closed
  no_send := h.no_send
  no_reader := h.no_reader
  one_writer := h.one_writer
  no_worker := by
    intro pc hpc halone
    exact absurd (h.no_worker pc hpc halone a (List.mem_of_getElem? hw)) ha

theorem Locking.newWorker (h : p.Locking) (hnone : ∀ pc ∈ p.stops, pc.alone = false) :
    { p with workers := p.workers ++ [WorkerPc.select] }.Locking where
  closed := h.closed
  no_send := h.no_send
  no_reader := h.no_reader
  one_writer := h.one_writer
  no_worker := by
    intro pc hpc halone
    rw [hnone pc hpc] at halone
    cases halone

theorem Locking.setStop (h : p.Locking) (hn : p.stops[n]? = some a) (hclosed : p.closed = true)
    (hseal : b.sealed = true → a.sealed = true ∨ ∀ s ∈ p.submits, s.reads = false)
    (hwrite : b.writes = true → a.writes = true ∨
      (∀ s ∈ p.submits, s.reads = false) ∧ ∀ pc ∈ p.stops, pc.writes = false)
    (halone : b.alone = true → a.alone = true ∨ ∀ w ∈ p.workers, w = .exited) :
    (p.setStop n b).Locking where
  closed := fun _ _ _ => hclosed
  no_send := by
    refine forall_mem_set h.no_send fun hb => ?_
    rcases hseal hb with ha | hfree
    · exact h.no_send a (List.mem_of_getElem? hn) ha
    rintro s hs rfl
    cases hfree _ hs
  no_reader := by
    refine forall_mem_set h.no_reader fun hb => ?_
    rcases hwrite hb with ha | hfree
    · exact h.no_reader a (List.mem_of_getElem? hn) ha
    · exact hfree.1
  one_writer := by
    obtain ⟨rest, hl, hset⟩ := exists_perm_set hn
    have hold := h.one_writer
    rw [hl.countP_eq, List.countP_cons] at hold
    show (p.stops.set n b).countP StopPc.writes ≤ 1
    rw [(hset b).countP_eq, List.countP_cons]
    by_cases hb : b.writes = true
    · rcases hwrite hb with ha | hfree
      · rw [if_pos ha] at hold
        rwa [if_pos hb]
      have hrest : rest.countP StopPc.writes = 0 := by
        rw [List.countP_eq_zero]
        intro pc hpc
        have := hfree.2 pc (hl.mem_iff.mpr (List.mem_cons_of_mem _ hpc))
        simp [this]
      rw [if_pos hb, hrest]
    · rw [if_neg hb]
      omega
  no_worker := by
    refine forall_mem_set h.no_worker fun hb => ?_
    rcases halone hb with ha | hgone
    · exact h.no_worker a (List.mem_of_getElem? hn) ha
    · exact hgone

/-- The steps of `Stop` before it asks for the lock. -/
theorem Locking.beforeLock (h : p.Locking) (hn : p.stops[n]? = some a) (hclosed : p.closed = true)
    (hb : b.sealed = false) : (p.setStop n b).Locking := by
  have hwrite : b.writes = false := by cases b <;> first | rfl | cases hb
  have halone : b.alone = false := by cases b <;> first | rfl | cases hb
  exact h.setStop hn hclosed (by simp [hb]) (by simp [hwrite]) (by simp [halone])

theorem sealed_afterClose (cfg : TaskConfig) : (afterClose cfg).sealed = false := by
  rcases afterClose_eq cfg with h | h <;> rw [h] <;> rfl

theorem Locking.step (h : p.Locking) (hs : TaskStep cfg p q) : q.Locking := by
  cases hs with
  | start hret =>
    refine h.newWorker fun pc hpc => ?_
    rw [hret pc hpc]
    rfl
  | submit =>
    refine ⟨h.closed, ?_, ?_, h.one_writer, h.no_worker⟩
    · intro pc hpc hseal
      exact forall_mem_concat (h.no_send pc hpc hseal) SubmitPc.noConfusion
    · intro pc hpc hw
      exact forall_mem_concat (h.no_reader pc hpc hw) rfl
  | submitMove hk hmove =>
    cases hmove with
    | rlock hfree => exact h.setSubmit hk (by simp) fun _ => .inr hfree
    | isOpen hopen => exact h.setSubmit hk (fun _ => hopen) fun _ => .inl rfl
    | _ => exact h.setSubmit hk (by simp) fun _ => .inl rfl
  | put hk => exact (h.setSubmit hk (by simp) fun _ => .inl rfl).of_eq rfl rfl rfl rfl
  | @submitReturn k err hk =>
    have hset := h.setSubmit hk (b := .returned err) (by simp) (by simp [SubmitPc.reads])
    exact hset.of_eq rfl rfl rfl rfl
  | workerMove hw hmove _ =>
    exact (h.setWorker hw (by cases hmove <;> simp) _).of_eq rfl rfl rfl rfl
  | workerTake hw htask _ | workerHandled hw htask =>
    exact (h.setWorker hw (by cases htask <;> simp) _).of_eq rfl rfl rfl rfl
  | added _ hopen =>
    have hbegin : ∀ pc ∈ p.stops, pc.alone = false := by
      intro pc hpc
      rw [h.eq_begin hopen hpc]
      rfl
    exact (h.newWorker hbegin).of_eq rfl rfl rfl rfl
  | stop =>
    refine ⟨forall_mem_concat h.closed (absurd rfl), forall_mem_concat h.no_send (by rintro ⟨⟩),
      forall_mem_concat h.no_reader (by rintro ⟨⟩), ?_,
      forall_mem_concat h.no_worker (by rintro ⟨⟩)⟩
    show (p.stops ++ [StopPc.begin]).countP StopPc.writes ≤ 1
    rw [List.countP_append]
    exact h.one_writer
  | stopMove hn hmove =>
    have hclosed := h.closed _ (List.mem_of_getElem? hn)
    cases hmove with
    | already hshut => exact h.beforeLock hn hshut (sealed_afterClose cfg)
    | lock hread hwrite =>
      exact h.setStop hn (hclosed (by simp)) (fun _ => .inr hread) (fun _ => .inr ⟨hread, hwrite⟩)
        (by simp [StopPc.alone])
    | waited hgone =>
      exact h.setStop hn (hclosed (by simp)) (fun _ => .inl rfl) (fun _ => .inl rfl)
        fun _ => .inr hgone
    | drained =>
      exact h.setStop hn (hclosed (by simp)) (fun _ => .inl rfl) (fun _ => .inl rfl)
        fun _ => .inl rfl
  | close hn hopen =>
    have hclosed : { p with closed := true }.Locking :=
      ⟨fun _ _ _ => rfl, h.no_send, h.no_reader, h.one_writer, h.no_worker⟩
    exact hclosed.beforeLock hn rfl rfl
  | closeDone hn =>
    have hclosed := h.closed _ (List.mem_of_getElem? hn) (by simp)
    exact (h.beforeLock hn hclosed (sealed_afterClose cfg)).of_eq rfl rfl rfl rfl
  | retireAll hn =>
    have hclosed := h.closed _ (List.mem_of_getElem? hn) (by simp)
    exact (h.beforeLock hn hclosed rfl).of_eq rfl rfl rfl rfl
  | @stopTake n t rest hn hq | stopHandled hn =>
    exact (h.setStop hn (h.closed _ (List.mem_of_getElem? hn) (by simp))
      (fun _ => .inl rfl) (fun _ => .inl rfl) (fun _ => .inl rfl)).of_eq rfl rfl rfl rfl
  | stopReturn hn =>
    exact (h.setStop hn (h.closed _ (List.mem_of_getElem? hn) (by simp))
      (fun _ => .inl rfl) (by simp [StopPc.writes]) (by simp [StopPc.alone])).of_eq rfl rfl rfl rfl
  | _ => exact h.of_eq rfl rfl rfl rfl

/-! ### Where a task is -/

/-- What a call of `handle` is under way for. -/
def inHand (p : TaskPool) : Multiset Nat :=
  holdings WorkerPc.task p.workers + holdings StopPc.task p.stops

theorem inHand_setWorker {a : WorkerPc} (hw : p.workers[w]? = some a) (b : WorkerPc) :
    (p.setWorker w b).inHand + held a.task = p.inHand + held b.task := by
  have hset := holdings_set WorkerPc.task hw b
  show holdings WorkerPc.task (p.workers.set w b) + holdings StopPc.task p.stops + held a.task =
    holdings WorkerPc.task p.workers + holdings StopPc.task p.stops + held b.task
  rw [add_right_comm, hset]
  exact add_right_comm _ _ _

theorem inHand_setStop {a : StopPc} (hn : p.stops[n]? = some a) (b : StopPc) :
    (p.setStop n b).inHand + held a.task = p.inHand + held b.task := by
  have hset := holdings_set StopPc.task hn b
  show holdings WorkerPc.task p.workers + holdings StopPc.task (p.stops.set n b) + held a.task =
    holdings WorkerPc.task p.workers + holdings StopPc.task p.stops + held b.task
  rw [add_assoc, hset, add_assoc]

theorem inHand_setWorker_of_none {a b : WorkerPc} (hw : p.workers[w]? = some a)
    (h : a.task = none ∧ b.task = none) : (p.setWorker w b).inHand = p.inHand := by
  have hset := inHand_setWorker hw b
  rwa [h.1, h.2, held_none, add_zero, add_zero] at hset

theorem inHand_setStop_of_none (hn : p.stops[n]? = some a) (h : a.task = none ∧ b.task = none) :
    (p.setStop n b).inHand = p.inHand := by
  have hset := inHand_setStop hn b
  rwa [h.1, h.2, held_none, add_zero, add_zero] at hset

theorem inHand_newWorker (p : TaskPool) :
    { p with workers := p.workers ++ [WorkerPc.select] }.inHand = p.inHand := by
  simp [inHand, holdings_concat, WorkerPc.task]

theorem inHand_newStop (p : TaskPool) :
    { p with stops := p.stops ++ [StopPc.begin] }.inHand = p.inHand := by
  simp [inHand, holdings_concat, StopPc.task]

/-- A `Stop` that has swept the queue leaves nothing in anyone's hand. -/
theorem Locking.inHand_eq_zero (h : p.Locking) (hn : p.stops[n]? = some .drain) : p.inHand = 0 := by
  have hgone := h.no_worker .drain (List.mem_of_getElem? hn) rfl
  have hworkers : holdings WorkerPc.task p.workers = 0 := by
    rw [Multiset.eq_zero_iff_forall_notMem]
    intro t ht
    obtain ⟨pc, hpc, htask⟩ := mem_holdings.mp ht
    rw [hgone pc hpc] at htask
    cases htask
  have hstops : holdings StopPc.task p.stops = 0 := by
    rw [Multiset.eq_zero_iff_forall_notMem]
    intro t ht
    obtain ⟨pc, hpc, htask⟩ := mem_holdings.mp ht
    -- the one `Stop` with the lock is at `drain`, so nobody is at `handle`
    obtain ⟨rest, hl, -⟩ := exists_perm_set hn
    have hone := h.one_writer
    rw [hl.countP_eq, List.countP_cons, if_pos (by rfl)] at hone
    have hrest : rest.countP StopPc.writes = 0 := by omega
    rcases List.mem_cons.mp (hl.mem_iff.mp hpc) with rfl | hpc
    · cases htask
    have hno := List.countP_eq_zero.mp hrest pc hpc
    cases pc with
    | handle t => exact absurd rfl hno
    | _ => cases htask
  unfold inHand
  rw [hworkers, hstops]
  rfl

end TaskPool

/-- Has found the queue empty, with everyone else gone. -/
def StopPc.finished : StopPc → Bool
  | .unlock | .returned => true
  | _ => false

namespace TaskPool

variable {cfg : TaskConfig} {p q : TaskPool}

def Emptied (p : TaskPool) : Prop :=
  ∀ pc ∈ p.stops, pc.finished = true → p.queue = [] ∧ p.inHand = 0

theorem emptied_new : newTaskPool.Emptied := by
  simp [Emptied, newTaskPool]

theorem Emptied.of_eq (h : p.Emptied) (hstops : q.stops = p.stops) (hqueue : q.queue = p.queue)
    (hhand : q.inHand = p.inHand) : q.Emptied := by
  unfold Emptied
  rw [hstops, hqueue, hhand]
  exact h

theorem Emptied.of_unfinished (hnone : ∀ pc ∈ q.stops, pc.finished = false) : q.Emptied := by
  intro pc hpc hfin
  rw [hnone pc hpc] at hfin
  cases hfin

/-- While a task is queued or in someone's hand, no `Stop` is done. -/
theorem Emptied.unfinished (h : p.Emptied) (hleft : p.queue ≠ [] ∨ p.inHand ≠ 0) :
    ∀ pc ∈ p.stops, pc.finished = false := by
  intro pc hpc
  by_contra hfin
  obtain ⟨hq, hhand⟩ := h pc hpc (by simpa using hfin)
  rcases hleft with hne | hne
  · exact hne hq
  · exact hne hhand

theorem inHand_ne_zero (h : t ∈ holdings WorkerPc.task p.workers ∨ t ∈ holdings StopPc.task p.stops) :
    p.inHand ≠ 0 := by
  intro hzero
  have hmem : t ∈ p.inHand := Multiset.mem_add.mpr h
  rw [hzero] at hmem
  cases hmem

theorem inHand_ne_zero_of_worker {w t : Nat} {b : WorkerPc} (hw : p.workers[w]? = some b)
    (ht : b.task = some t) : p.inHand ≠ 0 :=
  inHand_ne_zero (.inl (mem_holdings.mpr ⟨b, List.mem_of_getElem? hw, ht⟩))

theorem inHand_ne_zero_of_stop {n t : Nat} (hn : p.stops[n]? = some (.handle t)) :
    p.inHand ≠ 0 :=
  inHand_ne_zero (.inr (mem_holdings.mpr ⟨_, List.mem_of_getElem? hn, rfl⟩))

variable {n : Nat} {k : Nat}

/-- A step of one `Stop` that leaves queue and hands as they are. -/
theorem Emptied.setStop (h : p.Emptied) (hn : p.stops[n]? = some a) (ha : a.task = none)
    (hb : b.task = none) (hfin : b.finished = true → p.queue = [] ∧ p.inHand = 0) :
    (p.setStop n b).Emptied := by
  have hhand := inHand_setStop_of_none hn ⟨ha, hb⟩
  unfold Emptied
  rw [hhand]
  exact forall_mem_set h hfin

theorem Emptied.beforeLock (h : p.Emptied) (hn : p.stops[n]? = some a) (ha : a.task = none)
    (hb : b.sealed = false) : (p.setStop n b).Emptied := by
  have htask : b.task = none := by cases b <;> first | rfl | cases hb
  have hfin : b.finished = false := by cases b <;> first | rfl | cases hb
  exact h.setStop hn ha htask (by simp [hfin])

theorem Emptied.step (h : p.Emptied) (hlock : p.Locking) (hs : TaskStep cfg p q) : q.Emptied := by
  cases hs with
  | start | added => exact h.of_eq rfl rfl (inHand_newWorker p)
  | put hk =>
    refine .of_unfinished fun pc hpc => ?_
    by_contra hfin
    have hseal : pc.sealed = true := by cases pc <;> simp_all [StopPc.finished, StopPc.sealed]
    exact hlock.no_send pc hpc hseal _ (List.mem_of_getElem? hk) rfl
  | workerMove hw hmove _ => exact h.of_eq rfl rfl (inHand_setWorker_of_none hw hmove.task)
  | workerTake _ _ hq => exact .of_unfinished (h.unfinished (.inl (by simp [hq])))
  | workerHandled hw htask =>
    have hne := inHand_ne_zero_of_worker hw (by cases htask <;> rfl)
    exact .of_unfinished (h.unfinished (.inr hne))
  | stop =>
    unfold Emptied
    rw [inHand_newStop]
    exact forall_mem_concat h (by rintro ⟨⟩)
  | stopMove hn hmove =>
    cases hmove with
    | already => exact h.beforeLock hn rfl (sealed_afterClose cfg)
    | drained hq => exact h.setStop hn rfl rfl fun _ => ⟨hq, hlock.inHand_eq_zero hn⟩
    | _ => exact h.setStop hn rfl rfl (by simp [StopPc.finished])
  | close hn | retireAll hn => exact (h.beforeLock hn rfl rfl).of_eq rfl rfl rfl
  | closeDone hn => exact (h.beforeLock hn rfl (sealed_afterClose cfg)).of_eq rfl rfl rfl
  | stopTake hn hq => exact .of_unfinished (forall_mem_set (h.unfinished (.inl (by simp [hq]))) rfl)
  | stopHandled hn =>
    exact .of_unfinished (forall_mem_set (h.unfinished (.inr (inHand_ne_zero_of_stop hn))) rfl)
  | stopReturn hn =>
    have hdone := h .unlock (List.mem_of_getElem? hn) rfl
    exact (h.setStop hn rfl rfl fun _ => hdone).of_eq rfl rfl rfl
  | _ => exact h.of_eq rfl rfl rfl

/-! ### Accounts -/

def accepted (p : TaskPool) (k : Nat) : Bool := (p.submits[k]?.map SubmitPc.accepted).getD false

theorem accepted_setSubmit {a : SubmitPc} (hk : p.submits[k]? = some a) (b : SubmitPc) (j : Nat) :
    (p.setSubmit k b).accepted j = if j = k then b.accepted else p.accepted j := by
  obtain ⟨hlt, -⟩ := List.getElem?_eq_some_iff.mp hk
  unfold accepted setSubmit
  by_cases hj : j = k
  · subst hj
    simp [List.getElem?_set_self hlt]
  · simp [List.getElem?_set_ne (Ne.symm hj), hj]

/-- Each accepted task is queued, in someone's hand, or handled. -/
structure Flow (p : TaskPool) : Prop where
  placed : ∀ k, p.queue.count k + p.inHand.count k + p.log.count (.handled k) =
    (p.accepted k).toNat
  started : ∀ k, p.log.count (.handling k) = p.inHand.count k + p.log.count (.handled k)
  returned : ∀ k err, .submitReturned k err ∈ p.log → p.submits[k]? = some (.returned err)

theorem flow_new : newTaskPool.Flow where
  placed := by simp [newTaskPool, inHand, accepted]
  started := by simp [newTaskPool, inHand]
  returned := by simp [newTaskPool]

theorem Flow.of_eq (h : p.Flow) (hqueue : q.queue = p.queue) (hhand : q.inHand = p.inHand)
    (hlog : q.log = p.log) (hsubmits : q.submits = p.submits) : q.Flow where
  placed := by
    unfold accepted
    rw [hqueue, hhand, hlog, hsubmits]
    exact h.placed
  started := by
    rw [hhand, hlog]
    exact h.started
  returned := by
    rw [hlog, hsubmits]
    exact h.returned

theorem Flow.setSubmit (h : p.Flow) {a b : SubmitPc} (hk : p.submits[k]? = some a)
    (hacc : b.accepted = a.accepted) (hret : ∀ err, a ≠ .returned err) :
    (p.setSubmit k b).Flow where
  placed := by
    intro j
    rw [accepted_setSubmit hk]
    split
    · rename_i hj
      subst hj
      rw [hacc]
      have := h.placed j
      rw [accepted, hk] at this
      exact this
    · exact h.placed j
  started := h.started
  returned := by
    intro j err hmem
    have hj := h.returned j err hmem
    have hne : k ≠ j := by
      rintro rfl
      rw [hk] at hj
      exact hret err (Option.some.inj hj)
    show (p.submits.set k b)[j]? = _
    rwa [List.getElem?_set_ne hne]

theorem Flow.put (h : p.Flow) (hk : p.submits[k]? = some .send) : (p.put k).Flow where
  placed := by
    intro j
    show (p.queue ++ [k]).count j + p.inHand.count j + p.log.count (.handled j) =
      ((p.setSubmit k (.unlock none)).accepted j).toNat
    rw [accepted_setSubmit hk, count_concat]
    have hj := h.placed j
    by_cases hjk : j = k
    · subst hjk
      have hnot : p.accepted j = false := by rw [accepted, hk]; rfl
      rw [hnot, Bool.toNat_false] at hj
      rw [if_pos rfl, if_pos rfl]
      show _ = 1
      omega
    rw [if_neg hjk, if_neg (Ne.symm hjk), ← hj]
    rfl
  started := h.started
  returned := by
    intro j err hmem
    have hj := h.returned j err hmem
    have hne : k ≠ j := by
      rintro rfl
      rw [hk] at hj
      cases hj
    show (p.submits.set k _)[j]? = _
    rwa [List.getElem?_set_ne hne]

variable {e : TaskEvent}

/-- An event goes with what moves out of the queue or out of a hand. -/
theorem Flow.emit (h : p.Flow) (hlog : q.log = p.log ++ [e]) (hsubmits : q.submits = p.submits)
    (hret : ∀ k err, e ≠ .submitReturned k err)
    (hplaced : ∀ k, q.queue.count k + q.inHand.count k + (if e = .handled k then 1 else 0) =
      p.queue.count k + p.inHand.count k)
    (hstarted : ∀ k, p.inHand.count k + (if e = .handling k then 1 else 0) =
      q.inHand.count k + if e = .handled k then 1 else 0) : q.Flow where
  placed := by
    intro k
    have hold := h.placed k
    have hk := hplaced k
    unfold accepted at hold ⊢
    rw [hlog, count_concat, hsubmits]
    omega
  started := by
    intro k
    have hold := h.started k
    have hk := hstarted k
    rw [hlog, count_concat, count_concat]
    omega
  returned := by
    rw [hlog, hsubmits]
    intro k err hmem
    rcases List.mem_append.mp hmem with hmem | hmem
    · exact h.returned k err hmem
    · exact absurd (List.mem_singleton.mp hmem).symm (hret k err)

theorem Flow.submitReturn (h : p.Flow) {err : Option Err} (hk : p.submits[k]? = some (.tick err)) :
    ((p.setSubmit k (.returned err)).emit (.submitReturned k err)).Flow := by
  have hset := h.setSubmit hk (b := .returned err) (by cases err <;> rfl) (by simp)
  refine ⟨?_, ?_, ?_⟩
  · intro j
    show _ + _ + (p.log ++ [_]).count _ = _
    rw [count_concat]
    exact hset.placed j
  · intro j
    show (p.log ++ [_]).count _ = _ + (p.log ++ [_]).count _
    rw [count_concat, count_concat]
    exact hset.started j
  · intro j e hmem
    rcases List.mem_append.mp hmem with hmem | hmem
    · exact hset.returned j e hmem
    cases List.mem_singleton.mp hmem
    exact List.getElem?_set_self (List.getElem?_eq_some_iff.mp hk).1

/-- A task goes from the queue into a hand. -/
theorem Flow.take (h : p.Flow) {rest : List Nat} (hq : p.queue = t :: rest)
    (hqueue : q.queue = rest) (hhand : q.inHand = p.inHand + {t})
    (hlog : q.log = p.log ++ [.handling t]) (hsubmits : q.submits = p.submits) : q.Flow := by
  refine h.emit hlog hsubmits (by simp) ?_ ?_
  · intro k
    rw [hq, hqueue, hhand, List.count_cons, Multiset.count_add, Multiset.count_singleton]
    simp only [beq_iff_eq, eq_comm (a := k), reduceCtorEq, if_false]
    omega
  · intro k
    rw [hhand, Multiset.count_add, Multiset.count_singleton]
    simp [eq_comm]

/-- A hand is done with its task. -/
theorem Flow.handled (h : p.Flow) (hqueue : q.queue = p.queue) (hhand : q.inHand + {t} = p.inHand)
    (hlog : q.log = p.log ++ [.handled t]) (hsubmits : q.submits = p.submits) : q.Flow := by
  refine h.emit hlog hsubmits (by simp) ?_ ?_
  · intro k
    rw [hqueue, ← hhand, Multiset.count_add, Multiset.count_singleton, ← add_assoc]
    simp [eq_comm]
  · intro k
    rw [← hhand, Multiset.count_add, Multiset.count_singleton]
    simp [eq_comm]

theorem Flow.step (h : p.Flow) (hs : TaskStep cfg p q) : q.Flow := by
  cases hs with
  | start | added => exact h.of_eq rfl (inHand_newWorker p) rfl rfl
  | submit =>
    refine ⟨?_, h.started, ?_⟩
    · intro k
      have hsame : { p with submits := p.submits ++ [SubmitPc.enter] }.accepted k =
          p.accepted k := by
        unfold accepted
        rcases Nat.lt_or_ge k p.submits.length with hk | hk
        · simp [List.getElem?_append_left hk]
        rw [List.getElem?_append_right hk, List.getElem?_eq_none_iff.mpr hk]
        cases k - p.submits.length <;> rfl
      rw [hsame]
      exact h.placed k
    · intro k err hmem
      have hk := h.returned k err hmem
      show (p.submits ++ [SubmitPc.enter])[k]? = _
      rwa [List.getElem?_append_left (List.getElem?_eq_some_iff.mp hk).1]
  | submitMove hk hmove => exact h.setSubmit hk hmove.accepted_eq.1 hmove.accepted_eq.2
  | put hk => exact h.put hk
  | submitReturn hk => exact h.submitReturn hk
  | workerMove hw hmove _ => exact h.of_eq rfl (inHand_setWorker_of_none hw hmove.task) rfl rfl
  | @workerTake w t rest a b hw htask hq =>
    have hset := inHand_setWorker hw b
    rw [htask.task.1, htask.task.2, held_none, add_zero] at hset
    exact h.take hq rfl hset rfl rfl
  | @workerHandled w t a b hw htask =>
    have hset := inHand_setWorker hw a
    rw [htask.task.1, htask.task.2, held_none, add_zero] at hset
    exact h.handled rfl hset rfl rfl
  | stop => exact h.of_eq rfl (inHand_newStop p) rfl rfl
  | stopMove hn hmove => exact h.of_eq rfl (inHand_setStop_of_none hn hmove.task) rfl rfl
  | close hn => exact h.of_eq rfl (inHand_setStop_of_none hn ⟨rfl, rfl⟩) rfl rfl
  | closeDone hn => exact h.of_eq rfl (inHand_setStop_of_none hn ⟨rfl, task_afterClose cfg⟩) rfl rfl
  | retireAll hn => exact h.of_eq rfl (inHand_setStop_of_none hn ⟨rfl, rfl⟩) rfl rfl
  | @stopTake n t rest hn hq =>
    have hset := inHand_setStop hn (.handle t)
    simp only [StopPc.task, held_none, add_zero] at hset
    exact h.take hq rfl hset rfl rfl
  | stopHandled hn =>
    have hset := inHand_setStop hn .drain
    simp only [StopPc.task, held_none, add_zero] at hset
    exact h.handled rfl hset rfl rfl
  | @stopReturn n hn =>
    have hset : (p.setStop n .returned).inHand = p.inHand :=
      inHand_setStop_of_none hn ⟨rfl, rfl⟩
    exact h.emit rfl rfl (by simp) (fun k => congrArg (p.queue.count k + ·.count k) hset)
      fun k => congrArg (·.count k) hset.symm
  | _ => exact h.of_eq rfl rfl rfl rfl

/-! ### After a `Stop` -/

structure History (p : TaskPool) : Prop where
  stopped : ∀ n, .stopReturned n ∈ p.log → p.stops[n]? = some .returned
  after : ∀ l m n, p.log = l ++ .stopReturned n :: m →
    ∀ k, .handling k ∉ m ∧ .handled k ∉ m

theorem history_new : newTaskPool.History where
  stopped := by simp [newTaskPool]
  after := by simp [newTaskPool]

section

variable (h : p.History)
include h

theorem History.of_eq (hlog : q.log = p.log) (hstops : q.stops = p.stops) :
    q.History where
  stopped := by rw [hlog, hstops]; exact h.stopped
  after := by rw [hlog]; exact h.after

theorem History.setStop {m : Nat} {a : StopPc} (hm : p.stops[m]? = some a)
    (ha : a ≠ .returned) (b : StopPc) : (p.setStop m b).History where
  stopped := by
    intro n hn
    have hret := h.stopped n hn
    have hne : m ≠ n := by
      rintro rfl
      rw [hm] at hret
      exact ha (Option.some.inj hret)
    show (p.stops.set m b)[n]? = _
    rwa [List.getElem?_set_ne hne]
  after := h.after

/-- A further event that is no `handling` or `handled`. -/
theorem History.emit (hing : ∀ k, e ≠ .handling k) (hed : ∀ k, e ≠ .handled k)
    (hstop : ∀ n, e = .stopReturned n → p.stops[n]? = some .returned) :
    (p.emit e).History where
  stopped := by
    intro n hn
    rcases List.mem_append.mp hn with hn | hn
    · exact h.stopped n hn
    · exact hstop n (List.mem_singleton.mp hn).symm
  after := by
    intro l m n hlog k
    rcases split_concat hlog with ⟨-, -, rfl⟩ | ⟨m', rfl, hold⟩
    · simp
    obtain ⟨h1, h2⟩ := h.after l m' n hold k
    refine ⟨?_, ?_⟩
    · rw [List.mem_append, List.mem_singleton]
      rintro (hm | hm)
      · exact h1 hm
      · exact hing k hm.symm
    · rw [List.mem_append, List.mem_singleton]
      rintro (hm | hm)
      · exact h2 hm
      · exact hed k hm.symm

/-- As long as a task is left, no `Stop` has returned. -/
theorem History.not_mem (hempty : p.Emptied)
    (hleft : p.queue ≠ [] ∨ p.inHand ≠ 0) (n : Nat) : .stopReturned n ∉ p.log := by
  intro hn
  have hret := hempty.unfinished hleft _ (List.mem_of_getElem? (h.stopped n hn))
  cases hret

theorem History.emit_of_left (hempty : p.Emptied)
    (hleft : p.queue ≠ [] ∨ p.inHand ≠ 0) (he : ∀ n, e ≠ .stopReturned n)
    (hlog : q.log = p.log ++ [e]) : q.History := by
  have hnone : ∀ n, .stopReturned n ∉ q.log := by
    intro n hn
    rw [hlog, List.mem_append, List.mem_singleton] at hn
    rcases hn with hn | hn
    · exact h.not_mem hempty hleft n hn
    · exact he n hn.symm
  refine ⟨fun n hn => absurd hn (hnone n), fun l m n hl => ?_⟩
  exact absurd (by rw [hl]; simp) (hnone n)

theorem History.step (hempty : p.Emptied) (hs : TaskStep cfg p q) : q.History := by
  cases hs with
  | @submitReturn k err hk =>
    have hset : (p.setSubmit k (.returned err)).History := h.of_eq rfl rfl
    exact hset.emit (by simp) (by simp) (by simp)
  | workerTake _ _ hq | stopTake hn hq =>
      exact h.emit_of_left hempty (.inl (by simp [hq])) (by simp) rfl
  | workerHandled hw htask =>
    exact h.emit_of_left hempty (.inr (inHand_ne_zero_of_worker hw htask.task.2)) (by simp) rfl
  | stop =>
    refine ⟨fun n hn => ?_, h.after⟩
    have hret := h.stopped n hn
    show (p.stops ++ [StopPc.begin])[n]? = _
    rwa [List.getElem?_append_left (List.getElem?_eq_some_iff.mp hret).1]
  | stopMove hn hmove => exact h.setStop hn (by cases hmove <;> simp) _
  | close hn | closeDone hn | retireAll hn => exact (h.setStop hn (by simp) _).of_eq rfl rfl
  | stopHandled hn => exact h.emit_of_left hempty (.inr (inHand_ne_zero_of_stop hn)) (by simp) rfl
  | @stopReturn n hn =>
    refine (h.setStop hn (by simp) .returned).emit (by simp) (by simp) ?_
    rintro m hm
    cases hm
    exact List.getElem?_set_self (List.getElem?_eq_some_iff.mp hn).1
  | _ => exact h.of_eq rfl rfl

end

/-! ### Channels -/

/-- Every `retire` channel that has been closed, can still be closed, or is
about to be. -/
def channels (p : TaskPool) : Multiset Nat :=
  (p.retireClosed : Multiset Nat) + (p.active : Multiset Nat) + holdings ScalePc.victim p.scalers

structure Closing (p : TaskPool) : Prop where
  done_eq : p.done + p.stops.count .closeDone = p.closed.toNat
  nodup : p.channels.Nodup
  known : ∀ w ∈ p.channels, w < p.workers.length

theorem closing_new : newTaskPool.Closing where
  done_eq := rfl
  nodup := by simp [newTaskPool, channels]
  known := by simp [newTaskPool, channels]

theorem Closing.of_eq (h : p.Closing) (hdone : q.done = p.done) (hclosed : q.closed = p.closed)
    (hcount : q.stops.count .closeDone = p.stops.count .closeDone)
    (hchannels : q.channels ≤ p.channels) (hlength : p.workers.length ≤ q.workers.length) :
    q.Closing where
  done_eq := by
    rw [hdone, hcount, hclosed]
    exact h.done_eq
  nodup := Multiset.nodup_of_le hchannels h.nodup
  known := fun w hw => (h.known w (Multiset.mem_of_le hchannels hw)).trans_le hlength

theorem count_setStop {a : StopPc} (hn : p.stops[n]? = some a) (b x : StopPc) :
    (p.stops.set n b).count x + (if a = x then 1 else 0) =
      p.stops.count x + if b = x then 1 else 0 := by
  obtain ⟨rest, hl, hset⟩ := exists_perm_set hn
  rw [(hset b).count_eq, hl.count_eq, List.count_cons, List.count_cons]
  simp only [beq_iff_eq]
  omega

theorem count_setStop_of_ne {a b x : StopPc} (hn : p.stops[n]? = some a) (ha : a ≠ x) (hb : b ≠ x) :
    (p.setStop n b).stops.count x = p.stops.count x := by
  have hset := count_setStop hn b x
  rwa [if_neg ha, if_neg hb] at hset

theorem channels_setScale {a : ScalePc} (hn : p.scalers[n]? = some a) (b : ScalePc) :
    (p.setScale n b).channels + held a.victim = p.channels + held b.victim := by
  have hset := holdings_set ScalePc.victim hn b
  unfold channels setScale
  rw [add_assoc, hset, ← add_assoc]

theorem afterClose_ne (cfg : TaskConfig) : afterClose cfg ≠ .closeDone := by
  rcases afterClose_eq cfg with h | h <;> rw [h] <;> exact StopPc.noConfusion

theorem Closing.added (h : p.Closing) (hn : p.scalers[n]? = some .addLock) :
    ({ p with
      workers := p.workers ++ [WorkerPc.select]
      active := p.active ++ [p.workers.length] }.setScale n .returned).Closing := by
  have hchannels : ({ p with
      workers := p.workers ++ [WorkerPc.select]
      active := p.active ++ [p.workers.length] }.setScale n .returned).channels =
      p.channels + {p.workers.length} := by
    have hset := channels_setScale hn .returned
    simp only [ScalePc.victim, held_none, add_zero] at hset
    rw [← hset]
    unfold channels setScale
    rw [← Multiset.coe_add, Multiset.coe_singleton]
    abel
  refine ⟨h.done_eq, ?_, ?_⟩
  · rw [hchannels, add_comm, Multiset.singleton_add, Multiset.nodup_cons]
    exact ⟨fun hw => (h.known _ hw).false, h.nodup⟩
  · intro w hw
    show w < (p.workers ++ [WorkerPc.select]).length
    rw [List.length_append, List.length_singleton]
    rw [hchannels, Multiset.mem_add, Multiset.mem_singleton] at hw
    rcases hw with hw | rfl
    · have := h.known w hw
      omega
    · omega

theorem Closing.step (h : p.Closing) (hs : TaskStep cfg p q) : q.Closing := by
  cases hs with
  | start => exact h.of_eq rfl rfl rfl le_rfl (by simp)
  | workerMove hw hmove hsub =>
    refine h.of_eq rfl rfl rfl ?_ (by simp [setWorker])
    exact add_le_add_left (add_le_add_right (Multiset.coe_le.mpr hsub.subperm) _) _
  | workerTake | workerHandled => exact h.of_eq rfl rfl rfl le_rfl (by simp [setWorker, emit])
  | scaler hnone =>
    refine h.of_eq rfl rfl rfl (le_of_eq ?_) le_rfl
    unfold channels
    rw [holdings_concat, hnone, held_none, add_zero]
  | @scaleMove n a b hn hmove =>
    have hset := channels_setScale hn b
    rw [hmove.victim.1, hmove.victim.2, held_none, add_zero, add_zero] at hset
    exact h.of_eq rfl rfl rfl (le_of_eq hset) le_rfl
  | added hn _ => exact h.added hn
  | @victim n v hn hv =>
    refine h.of_eq rfl rfl rfl (le_of_eq ?_) le_rfl
    have hset := holdings_set ScalePc.victim hn (.closeRetire v)
    have hactive : ((p.active.erase v) : Multiset Nat) + {v} = p.active := by
      rw [← Multiset.coe_erase, add_comm, Multiset.singleton_add]
      exact Multiset.cons_erase (by simpa using hv)
    simp only [ScalePc.victim, held_none, add_zero] at hset
    unfold channels setScale
    rw [hset, ← hactive]
    show _ + _ + (_ + {v}) = _
    abel
  | @retired n v hn =>
    refine h.of_eq rfl rfl rfl (le_of_eq ?_) le_rfl
    have hset := holdings_set ScalePc.victim hn .returned
    simp only [ScalePc.victim, held_none, add_zero] at hset
    unfold channels setScale
    rw [← hset, ← Multiset.coe_add]
    show _ + {v} + _ + _ = _ + _ + (_ + {v})
    abel
  | stop =>
    refine h.of_eq rfl rfl ?_ le_rfl le_rfl
    rw [count_concat, if_neg (by simp), add_zero]
  | stopMove hn hmove =>
    refine h.of_eq rfl rfl (count_setStop_of_ne hn ?_ ?_) le_rfl le_rfl
    · cases hmove <;> simp
    · cases hmove with
      | already => exact afterClose_ne cfg
      | _ => simp
  | @close n hn hopen =>
    refine ⟨?_, h.nodup, h.known⟩
    have hcount := count_setStop hn .closeDone .closeDone
    have hzero := h.done_eq
    rw [hopen] at hzero
    simp at hcount hzero
    show p.done + (p.stops.set n .closeDone).count .closeDone = 1
    omega
  | @closeDone n hn =>
    refine ⟨?_, h.nodup, h.known⟩
    have hcount := count_setStop hn (afterClose cfg) .closeDone
    rw [if_pos rfl, if_neg (afterClose_ne cfg)] at hcount
    have hone := h.done_eq
    show p.done + 1 + (p.stops.set n (afterClose cfg)).count .closeDone = p.closed.toNat
    omega
  | @retireAll n hn =>
    refine h.of_eq rfl rfl (count_setStop_of_ne hn (by simp) (by simp)) (le_of_eq ?_) le_rfl
    unfold channels setStop
    rw [← Multiset.coe_add, Multiset.coe_nil, add_zero]
  | stopTake hn | stopHandled hn | stopReturn hn =>
    exact h.of_eq rfl rfl (count_setStop_of_ne hn (by simp) (by simp)) le_rfl le_rfl
  | _ => exact h.of_eq rfl rfl rfl le_rfl le_rfl

/-! ### Runs -/

structure Inv (p : TaskPool) : Prop where
  locking : p.Locking
  emptied : p.Emptied
  flow : p.Flow
  history : p.History
  closing : p.Closing

theorem inv_of_reachable (h : (taskPool cfg).Reachable p) : p.Inv := by
  refine h.inv ?_ ?_
  · rintro _ rfl
    exact ⟨locking_new, emptied_new, flow_new, history_new, closing_new⟩
  · intro s a t hs _ hstep
    have hcases := step_cases hstep
    exact ⟨hs.locking.step hcases, hs.emptied.step hs.locking hcases, hs.flow.step hcases,
      hs.history.step hs.emptied hcases, hs.closing.step hcases⟩

end TaskPool

/-- What a log says about the tasks: none is handled twice, none that was
refused is handled at all, and when a `Stop` returns, every task accepted before
or since has been handled and no other call of `handle` follows. -/
structure HandledOnce (log : List TaskEvent) : Prop where
  once : ∀ k, log.count (.handling k) ≤ 1 ∧ log.count (.handled k) ≤ 1
  refused : ∀ k e, .submitReturned k (some e) ∈ log → .handling k ∉ log ∧ .handled k ∉ log
  accepted : ∀ l m n, log = l ++ .stopReturned n :: m → ∀ k, .submitReturned k none ∈ log →
    l.count (.handling k) = 1 ∧ l.count (.handled k) = 1
  silent : ∀ l m n, log = l ++ .stopReturned n :: m → ∀ k, .handling k ∉ m ∧ .handled k ∉ m

namespace TaskPool

variable {cfg : TaskConfig} {p q : TaskPool}

theorem Flow.handling_le (h : p.Flow) (k : Nat) :
    p.log.count (.handling k) ≤ (p.accepted k).toNat := by
  have hplaced := h.placed k
  have hstarted := h.started k
  omega

theorem Flow.handled_le (h : p.Flow) (k : Nat) :
    p.log.count (.handled k) ≤ (p.accepted k).toNat := by
  have hplaced := h.placed k
  omega

theorem Flow.accepted_of_returned (h : p.Flow) {k : Nat} {err : Option Err}
    (hmem : .submitReturned k err ∈ p.log) : p.accepted k = err.isNone := by
  rw [accepted, h.returned k err hmem]
  cases err <;> rfl

theorem Inv.handledOnce (h : p.Inv) : HandledOnce p.log where
  once := by
    intro k
    have hle : (p.accepted k).toNat ≤ 1 := Bool.toNat_le _
    exact ⟨(h.flow.handling_le k).trans hle, (h.flow.handled_le k).trans hle⟩
  refused := by
    intro k e hmem
    have hacc : p.accepted k = false := h.flow.accepted_of_returned hmem
    have hing := h.flow.handling_le k
    have hed := h.flow.handled_le k
    rw [hacc, Bool.toNat_false, Nat.le_zero] at hing hed
    exact ⟨List.count_eq_zero.mp hing, List.count_eq_zero.mp hed⟩
  accepted := by
    intro l m n hlog k hmem
    have hacc : p.accepted k = true := h.flow.accepted_of_returned hmem
    have hstop : p.stops[n]? = some .returned := h.history.stopped n (by rw [hlog]; simp)
    obtain ⟨hqueue, hhand⟩ := h.emptied _ (List.mem_of_getElem? hstop) rfl
    have hplaced := h.flow.placed k
    have hstarted := h.flow.started k
    obtain ⟨hing, hed⟩ := h.history.after l m n hlog k
    rw [hacc, hqueue, hhand, hlog] at hplaced
    rw [hhand, hlog] at hstarted
    simp only [List.count_append, List.count_cons, List.count_eq_zero.mpr hing,
      List.count_eq_zero.mpr hed, List.count_nil, Multiset.count_zero, Bool.toNat_true]
      at hplaced hstarted
    simp at hplaced hstarted
    exact ⟨hstarted.trans hplaced, hplaced⟩
  silent := h.history.after

theorem Closing.done_le_one (h : p.Closing) : p.done ≤ 1 := by
  have hle : p.closed.toNat ≤ 1 := Bool.toNat_le _
  have := h.done_eq
  omega

theorem Closing.nodup_retireClosed (h : p.Closing) : p.retireClosed.Nodup := by
  have hle : p.retireClosed ≤ p.channels := by
    unfold channels
    rw [add_assoc]
    exact Multiset.le_add_right _ _
  exact Multiset.coe_nodup.mp (Multiset.nodup_of_le hle h.nodup)

end TaskPool

/-- In every run of either pool, under each policy, every accepted task is
handled once before a `Stop` returns, a refused one never, nothing is handled
after a `Stop`, and no channel is closed twice. -/
theorem accepted_handled_once (cfg : TaskConfig) (p : TaskPool)
    (h : (taskPool cfg).Reachable p) :
    HandledOnce p.log ∧ p.done ≤ 1 ∧ p.retireClosed.Nodup :=
  have hinv := TaskPool.inv_of_reachable h
  ⟨hinv.handledOnce, hinv.closing.done_le_one, hinv.closing.nodup_retireClosed⟩

def oneSlot : TaskConfig := ⟨.scalable, 1, Nat.one_pos, .block, 2⟩

/-- The only worker is retired while a task is queued; the task is left to the
sweep of `Stop`. -/
def retiredBeforeTask : List TaskAct :=
  [.addWorker, .scaleStep 0 0, .scaleStep 0 0,
    .submit, .submitStep 0 .put, .submitStep 0 .put, .submitStep 0 .put,
    .retireOneWorker, .scaleStep 1 0, .scaleStep 1 0,
    .workerStep 0 .retire, .workerStep 0 .retire,
    .submitStep 0 .put, .submitStep 0 .put, .stop] ++ List.replicate 9 (.stopStep 0)

theorem accepted_handled_once_retiredBeforeTask :
    ∃ p, (taskPool oneSlot).Reachable p ∧
      p.log = [.submitReturned 0 none, .handling 0, .handled 0, .stopReturned 0] ∧
      HandledOnce p.log ∧ p.done ≤ 1 ∧ p.retireClosed.Nodup := by
  have hrun : ((taskPool oneSlot).run newTaskPool retiredBeforeTask).map TaskPool.log =
      some [.submitReturned 0 none, .handling 0, .handled 0, .stopReturned 0] := by
    decide +kernel
  obtain ⟨p, hreach, hlog⟩ := Machine.exists_reachable hrun rfl
  exact ⟨p, hreach, hlog, accepted_handled_once oneSlot p hreach⟩

end SharkSocket.Shared
