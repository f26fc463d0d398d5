import SharkSocket.Lib.Machine
import SharkSocket.Lib.Pool

/-!
# `shared/pool_scalable.go`: the elastic worker pool

`Submit` enqueues a task, counts itself, and on every 1024th count evaluates the
scaling: `maybeScale` reads the queue length and the worker count, and then adds
a worker, retires one, or does neither.  Submits run concurrently, so several
evaluations can be under way, each of them between two of its reads and writes.
A `Pool` has all of them in `evals`, the one `Start`, and the queue as its
length; each access to an atomic, to the queue or to the locked worker map is a
step.

The workers are the keys of the map `workers`.  A retired worker is out of the
map before its `retire` channel is closed (its ID is then in `retired`), and its
goroutine, one of `running`, goes on until it notices.
-/

namespace SharkSocket.Shared

open Lib

inductive FullPolicy
  | drop
  | close
  | block
  deriving DecidableEq, Repr

/-- `NewScalablePool` makes the bounds positive and ordered. -/
structure ScaleConfig where
  minWorker : Nat
  maxWorker : Nat
  min_pos : 0 < minWorker
  min_le_max : minWorker ≤ maxWorker
  queueSize : Nat
  policy : FullPolicy
  scaleUpRatio : ℚ
  scaleDownRatio : ℚ

def defaultScaleUpRatio : ℚ := 3 / 4

def defaultScaleDownRatio : ℚ := 1 / 4

def defaultScaleDownHold : Int := 3

def scaleCheckInterval : Nat := 1024

/-- Where a `maybeScale` is: before it loads `closed`, the queue length or the
worker count; before it stores to `downStreak` on the way to growing; in
`addWorker`, before its first check and before its lock; before it adds to
`downStreak`, resets it or retires, with the count it has read; before it closes
the victim's channel; or before it resets the streak and returns. -/
inductive EvalPc
  | closed
  | queue
  | count (q : Nat)
  | growReset
  | addCheck
  | addLock
  | streak (n : Nat)
  | shrinkReset (n : Nat)
  | retire (n : Nat)
  | closeRetire (victim : Nat)
  | reset
  | returned
  deriving DecidableEq, Repr

/-- `Start` has `left` calls of `addWorker` to go and is before one, or in one
behind its first check. -/
inductive StartPc
  | idle
  | next (left : Nat)
  | lock (left : Nat)
  | returned
  deriving DecidableEq, Repr

/-- `submits` counts the `Submit` calls that are back from `submit` and have not
counted themselves yet. -/
structure Pool where
  workers : Finset Nat
  retired : Finset Nat
  running : Finset Nat
  nextID : Nat
  queue : Nat
  closed : Bool
  downStreak : Int
  submits : Nat
  submitTick : Nat
  start : StartPc
  evals : List EvalPc
  deriving DecidableEq

def newScalablePool : Pool := ⟨∅, ∅, ∅, 0, 0, false, 0, 0, 0, .idle, []⟩

inductive PoolAct
  | start
  | startStep
  | submitted
  | submitFull
  | submitGivesUp
  | tick
  | eval (k victim : Nat)
  | handle
  | exit (id : Nat)
  | beginClose
  | stopRetire
  deriving DecidableEq, Repr

namespace Pool

variable (cfg : ScaleConfig) (p : Pool)

/-- The locked part of `addWorker`. -/
def addWorkerLocked : Pool :=
  if p.closed then p
  else if cfg.maxWorker ≤ p.workers.card then p
  else { p with
    workers := insert (p.nextID + 1) p.workers
    running := insert (p.nextID + 1) p.running
    nextID := p.nextID + 1 }

def removeWorker (id : Nat) : Pool := { p with workers := p.workers.erase id }

def setEval (k : Nat) (pc : EvalPc) : Pool := { p with evals := p.evals.set k pc }

/-- Which way `maybeScale` goes with queue length `q` and worker count `n`. -/
def scaleBranch (q n : Nat) : EvalPc :=
  let occupancy : ℚ := q / cfg.queueSize
  if cfg.scaleUpRatio ≤ occupancy ∧ n < cfg.maxWorker then .growReset
  else if occupancy ≤ cfg.scaleDownRatio ∧ cfg.minWorker < n then .streak n
  else .reset

/-- A step of the `k`-th `maybeScale`; `victim` is the worker that ranging over
the map hits first. -/
def stepEval (k victim : Nat) : Option Pool :=
  match p.evals[k]? with
  | none => none
  | some pc =>
    match pc with
    | .closed => some (p.setEval k (if p.closed then .returned else .queue))
    | .queue => some (p.setEval k (if cfg.queueSize = 0 then .returned else .count p.queue))
    | .count q => some (p.setEval k (scaleBranch cfg q p.workers.card))
    | .growReset => some ({ p with downStreak := 0 }.setEval k .addCheck)
    | .addCheck => some (p.setEval k (if p.closed then .returned else .addLock))
    | .addLock => some ((p.addWorkerLocked cfg).setEval k .returned)
    | .streak n =>
      some ({ p with downStreak := p.downStreak + 1 }.setEval k
        (if defaultScaleDownHold ≤ p.downStreak + 1 then .shrinkReset n else .returned))
    | .shrinkReset n => some ({ p with downStreak := 0 }.setEval k (.retire n))
    | .retire _ =>
      if p.workers = ∅ then some (p.setEval k .returned)
      else if victim ∈ p.workers then
        some ((p.removeWorker victim).setEval k (.closeRetire victim))
      else none
    | .closeRetire v => some ({ p with retired := insert v p.retired }.setEval k .returned)
    | .reset => some ({ p with downStreak := 0 }.setEval k .returned)
    | .returned => none

def stepStart : Option Pool :=
  match p.start with
  | .next 0 => some { p with start := .returned }
  | .next (left + 1) =>
    some { p with start := if p.closed then .next left else .lock left }
  | .lock left => some { p.addWorkerLocked cfg with start := .next left }
  | _ => none

def step : PoolAct → Option Pool
  | .start => if p.start = .idle then some { p with start := .next cfg.minWorker } else none
  | .startStep => p.stepStart cfg
  | .submitted =>
    if p.queue < cfg.queueSize then some { p with queue := p.queue + 1, submits := p.submits + 1 }
    else none
  | .submitFull =>
    if p.queue < cfg.queueSize ∨ cfg.policy = .block then none
    else some { p with submits := p.submits + 1 }
  | .submitGivesUp =>
    -- the pool is closed, or a blocked send sees the session end
    if p.closed ∨ cfg.policy = .block then some { p with submits := p.submits + 1 } else none
  | .tick =>
    if p.submits = 0 then none
    else some { p with
      submits := p.submits - 1
      submitTick := p.submitTick + 1
      evals :=
        if (p.submitTick + 1) % scaleCheckInterval = 0 then p.evals ++ [.closed] else p.evals }
  | .eval k victim => p.stepEval cfg k victim
  | .handle =>
    if 0 < p.queue ∧ p.running ≠ ∅ then some { p with queue := p.queue - 1 } else none
  | .exit id =>
    if id ∈ p.running ∧ (id ∈ p.retired ∨ p.closed) then
      some { p.removeWorker id with running := p.running.erase id }
    else none
  | .beginClose => some { p with closed := true }
  | .stopRetire =>
    if p.closed then some { p with workers := ∅, retired := p.retired ∪ p.workers } else none

end Pool

def scalablePool (cfg : ScaleConfig) : Machine Pool PoolAct where
  init p := p = newScalablePool
  step := Pool.step cfg

end SharkSocket.Shared
