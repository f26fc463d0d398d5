import SharkSocket.Core
import SharkSocket.Shared.ScalablePool

/-!
# `shared/pool_core.go`: tasks from `Submit` to `handle`

`WorkerPool` and `ScalablePool` share the queue, `submit`, `beginClose` and
`drainQueue`.  A `TaskPool` is either of them with every call made on it so far:
`Submit` calls, workers, `Stop` calls, and the calls of `addWorker` and
`retireOneWorker`.  Task `k` is the task of the `k`-th `Submit`.

The scaling of `ScalablePool` (`Shared.ScalablePool`) decides when a worker is
added or retired; here it may happen at any time.  So may `Start` of a
`ScalablePool`, which is a sequence of `addWorker` calls.  `Start` of a
`WorkerPool` does not overlap a `Stop`: the server has started a pool before
anyone else can see it (`buildPool`).

Each access to an atomic, a channel, a lock or the wait group is a step.  What
runs under `mu` is one step.  A reader of `submitMu` waits for a writer that has
the lock, not for one that is waiting, so more orders are possible here than
with Go's lock.
-/

namespace SharkSocket.Shared

open Lib

inductive PoolKind
  | worker
  | scalable
  deriving DecidableEq, Repr

structure TaskConfig where
  kind : PoolKind
  queueSize : Nat
  queueSize_pos : 0 < queueSize
  policy : FullPolicy
  maxWorker : Nat

/-- A call of `Submit`: before `RLock`; before the load of `closed`; before the
channel send; in the `sess.Close` of `PolicyClose`; before `RUnlock`; and, with
the lock given back, before `Submit` itself returns. -/
inductive SubmitPc
  | enter
  | check
  | send
  | closeSession
  | unlock (err : Option Err)
  | tick (err : Option Err)
  | returned (err : Option Err)
  deriving DecidableEq, Repr

/-- A worker: at the `select` of `run`; in `handle`; in `drainQueue`, which it
enters when it sees `done`; before `removeWorker`; and gone. -/
inductive WorkerPc
  | select
  | handle (t : Nat)
  | drain
  | drainHandle (t : Nat)
  | remove
  | exited
  deriving DecidableEq, Repr

/-- `addWorker` before its first check and before `mu`, `retireOneWorker` before
`mu` and before it closes the channel of its victim. -/
inductive ScalePc
  | addCheck
  | addLock
  | retireLock
  | closeRetire (victim : Nat)
  | returned
  deriving DecidableEq, Repr

/-- `begin` and `closeDone` are the two halves of `beginClose`. -/
inductive StopPc
  | begin
  | closeDone
  | retire
  | lock
  | wait
  | drain
  | handle (t : Nat)
  | unlock
  | returned
  deriving DecidableEq, Repr

inductive TaskEvent
  | submitReturned (k : Nat) (err : Option Err)
  | handling (k : Nat)
  | handled (k : Nat)
  | stopReturned (n : Nat)
  deriving DecidableEq, Repr

/-- `done` counts how often the channel `done` has been closed, and
`retireClosed` lists the workers whose `retire` channel has been, once for each
time.  `active` is the map of `ScalablePool`; the worker with ID `w + 1` is the
`w`-th of `workers`. -/
structure TaskPool where
  queue : List Nat
  closed : Bool
  done : Nat
  submits : List SubmitPc
  workers : List WorkerPc
  active : List Nat
  retireClosed : List Nat
  scalers : List ScalePc
  stops : List StopPc
  log : List TaskEvent
  deriving DecidableEq, Repr

def newTaskPool : TaskPool := ⟨[], false, 0, [], [], [], [], [], [], []⟩

/-- The cases of the `select` in a blocking `submit`. -/
inductive SubmitCase
  | put
  | done
  | sessionDone
  deriving DecidableEq, Repr

/-- The cases of the `select` in `run`. -/
inductive RunCase
  | receive
  | retire
  | done
  deriving DecidableEq, Repr

inductive TaskAct
  | start
  | submit
  | submitStep (k : Nat) (c : SubmitCase)
  | workerStep (w : Nat) (c : RunCase)
  | addWorker
  | retireOneWorker
  | scaleStep (n victim : Nat)
  | stop
  | stopStep (n : Nat)
  deriving DecidableEq, Repr

/-- Between `RLock` and `RUnlock`. -/
def SubmitPc.reads : SubmitPc → Bool
  | .check | .send | .closeSession | .unlock _ => true
  | _ => false

/-- Between `Lock` and `Unlock`. -/
def StopPc.writes : StopPc → Bool
  | .wait | .drain | .handle _ | .unlock => true
  | _ => false

def WorkerPc.task : WorkerPc → Option Nat
  | .handle t | .drainHandle t => some t
  | _ => none

def StopPc.task : StopPc → Option Nat
  | .handle t => some t
  | _ => none

/-- The worker whose channel `retireOneWorker` is about to close. -/
def ScalePc.victim : ScalePc → Option Nat
  | .closeRetire w => some w
  | _ => none

namespace TaskPool

variable (cfg : TaskConfig) (p : TaskPool)

def emit (e : TaskEvent) : TaskPool := { p with log := p.log ++ [e] }

def setSubmit (k : Nat) (pc : SubmitPc) : TaskPool :=
  { p with submits := p.submits.set k pc }

def setWorker (w : Nat) (pc : WorkerPc) : TaskPool :=
  { p with workers := p.workers.set w pc }

def setScale (n : Nat) (pc : ScalePc) : TaskPool :=
  { p with scalers := p.scalers.set n pc }

def setStop (n : Nat) (pc : StopPc) : TaskPool :=
  { p with stops := p.stops.set n pc }

/-- A receive from the queue, into `handle`. -/
def take : Option (Nat × TaskPool) :=
  match p.queue with
  | [] => none
  | t :: rest => some (t, { p with queue := rest }.emit (.handling t))

def put (k : Nat) : TaskPool :=
  { p with queue := p.queue ++ [k] }.setSubmit k (.unlock none)

def stepSubmit (k : Nat) (c : SubmitCase) : Option TaskPool :=
  match p.submits[k]? with
  | some .enter =>
    if ∃ pc ∈ p.stops, pc.writes = true then none else some (p.setSubmit k .check)
  | some .check =>
    some (p.setSubmit k (if p.closed then .unlock (some .closed) else .send))
  | some .send =>
    match cfg.policy with
    | .drop =>
      some (if p.queue.length < cfg.queueSize then p.put k
        else p.setSubmit k (.unlock (some .writeQueueFull)))
    | .close =>
      some (if p.queue.length < cfg.queueSize then p.put k else p.setSubmit k .closeSession)
    | .block =>
      match c with
      | .put => if p.queue.length < cfg.queueSize then some (p.put k) else none
      | .done => if 0 < p.done then some (p.setSubmit k (.unlock (some .closed))) else none
      | .sessionDone => some (p.setSubmit k (.unlock (some .sessionClosed)))
  | some .closeSession => some (p.setSubmit k (.unlock (some .writeQueueFull)))
  | some (.unlock err) => some (p.setSubmit k (.tick err))
  | some (.tick err) => some ((p.setSubmit k (.returned err)).emit (.submitReturned k err))
  | some (.returned _) => none
  | none => none

def stepWorker (w : Nat) (c : RunCase) : Option TaskPool :=
  match p.workers[w]? with
  | some .select =>
    match c with
    | .receive => p.take.map fun (t, q) => q.setWorker w (.handle t)
    | .retire => if w ∈ p.retireClosed then some (p.setWorker w .remove) else none
    | .done => if 0 < p.done then some (p.setWorker w .drain) else none
  | some (.handle t) => some ((p.setWorker w .select).emit (.handled t))
  | some .drain =>
    match p.take with
    | none => some (p.setWorker w .remove)
    | some (t, q) => some (q.setWorker w (.drainHandle t))
  | some (.drainHandle t) => some ((p.setWorker w .drain).emit (.handled t))
  | some .remove => some { p.setWorker w .exited with active := p.active.erase w }
  | some .exited => none
  | none => none

/-- The locked part of `addWorker`. -/
def addWorkerLocked : TaskPool :=
  if p.closed then p
  else if cfg.maxWorker ≤ p.active.length then p
  else { p with
    workers := p.workers ++ [.select]
    active := p.active ++ [p.workers.length] }

def stepScale (n victim : Nat) : Option TaskPool :=
  match p.scalers[n]? with
  | some .addCheck => some (p.setScale n (if p.closed then .returned else .addLock))
  | some .addLock => some ((p.addWorkerLocked cfg).setScale n .returned)
  | some .retireLock =>
    if p.active = [] then some (p.setScale n .returned)
    else if victim ∈ p.active then
      some ({ p with active := p.active.erase victim }.setScale n (.closeRetire victim))
    else none
  | some (.closeRetire victim) =>
    some ({ p with retireClosed := p.retireClosed ++ [victim] }.setScale n .returned)
  | some .returned => none
  | none => none

/-- What `Stop` does after `beginClose`. -/
def afterClose : StopPc :=
  match cfg.kind with
  | .worker => .lock
  | .scalable => .retire

def stepStop (n : Nat) : Option TaskPool :=
  match p.stops[n]? with
  | some .begin =>
    some (if p.closed then p.setStop n (afterClose cfg)
      else { p with closed := true }.setStop n .closeDone)
  | some .closeDone => some ({ p with done := p.done + 1 }.setStop n (afterClose cfg))
  | some .retire =>
    some ({ p with active := [], retireClosed := p.retireClosed ++ p.active }.setStop n .lock)
  | some .lock =>
    if (∃ pc ∈ p.submits, pc.reads = true) ∨ ∃ pc ∈ p.stops, pc.writes = true then none
    else some (p.setStop n .wait)
  | some .wait => if ∀ pc ∈ p.workers, pc = .exited then some (p.setStop n .drain) else none
  | some .drain =>
    match p.take with
    | none => some (p.setStop n .unlock)
    | some (t, q) => some (q.setStop n (.handle t))
  | some (.handle t) => some ((p.setStop n .drain).emit (.handled t))
  | some .unlock => some ((p.setStop n .returned).emit (.stopReturned n))
  | some .returned => none
  | none => none

def step : TaskAct → Option TaskPool
  | .start =>
    if cfg.kind = .worker ∧ ∀ pc ∈ p.stops, pc = .returned then
      some { p with workers := p.workers ++ [.select] }
    else none
  | .submit => some { p with submits := p.submits ++ [.enter] }
  | .submitStep k c => p.stepSubmit cfg k c
  | .workerStep w c => p.stepWorker w c
  | .addWorker =>
    if cfg.kind = .scalable then some { p with scalers := p.scalers ++ [.addCheck] } else none
  | .retireOneWorker =>
    if cfg.kind = .scalable then some { p with scalers := p.scalers ++ [.retireLock] } else none
  | .scaleStep n victim => p.stepScale cfg n victim
  | .stop => some { p with stops := p.stops ++ [.begin] }
  | .stopStep n => p.stepStop cfg n

end TaskPool

def taskPool (cfg : TaskConfig) : Machine TaskPool TaskAct where
  init p := p = newTaskPool
  step := TaskPool.step cfg

end SharkSocket.Shared
