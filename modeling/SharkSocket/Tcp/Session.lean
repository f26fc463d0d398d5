import SharkSocket.Core
import SharkSocket.Lib.Machine
import SharkSocket.Lib.Pool

/-!
# `tcp/session.go`: senders, the write loop and `Close`

A session's write queue is a Go channel.  Any number of `Send` and `SendShared`
calls put entries into it, `writeLoop` takes them out, and so does the drain in
`Close`.  A `Peer` is the session together with its write loop, the one `Close`
that `closeOnce` lets through, and every call of `Send` or `SendShared` made on
it so far; `Peer.step` is one step of one of them.  Each test of a shared
variable and each channel operation is a step of its own: the state check, the
high-water check and the `select` of a send, and the length check and the
receive of `writeBatch`.

A step that drops the reference of a shared frame says so in its result.
-/

namespace SharkSocket.Tcp

open Lib

def errSessionClosed : Err := .other "session closed"

/-- Frames are numbered by who follows their counts. -/
abbrev FrameID := Nat

structure PendingWrite where
  payload : Bytes
  frame : Option FrameID
  deriving DecidableEq, Repr

/-- `writeQueue` is the capacity of the channel, which `WithWriteQueue` keeps
positive; `buffered` and `timeout` say that `WriteBufferBytes` and
`WriteTimeout` are set. -/
structure Config where
  writeQueue : Nat
  writeQueue_pos : 0 < writeQueue
  writeQueueHighWater : ℚ
  buffered : Bool
  timeout : Bool

/-- The queue length from which on sends are refused. -/
def Config.threshold (cfg : Config) : Nat :=
  max 1 (cfg.writeQueue * cfg.writeQueueHighWater).floor.toNat

def Config.overWater (cfg : Config) (len : Nat) : Bool :=
  decide (0 < cfg.writeQueueHighWater) && decide (cfg.threshold ≤ len)

/-! ### A call of `Send` or `SendShared` -/

/-- `water` is the high-water check of `Send` itself, `enqueue` the one in
`enqueue`, `select` the `select` behind it.  A call that has returned is `done`
once its caller has gone on. -/
inductive SenderPc
  | check
  | water
  | enqueue
  | select
  | returned (err : Option Err)
  | done
  deriving DecidableEq, Repr

/-- A call of `Send`, or of `SendShared` if its entry has a frame. -/
structure Sender where
  entry : PendingWrite
  pc : SenderPc
  deriving DecidableEq, Repr

/-- Past the state check and not yet returned. -/
def SenderPc.pastCheck (pc : SenderPc) : Prop := pc = .water ∨ pc = .enqueue ∨ pc = .select

instance (pc : SenderPc) : Decidable pc.pastCheck := inferInstanceAs (Decidable (_ ∨ _ ∨ _))

/-! ### The write loop and `Close` -/

/-- Where `writeLoop` is: at its `select`, before `SetWriteDeadline`, before
`writeOne` (of the first entry of a batch or a later one), at the length check,
at the receive behind it, before `Flush`, in the deferred `Close`. -/
inductive LoopPc
  | unstarted
  | select
  | deadline (pw : PendingWrite)
  | write (pw : PendingWrite) (first : Bool)
  | check
  | receive
  | flush
  | closing
  | ended
  deriving DecidableEq, Repr

inductive ClosePc
  | idle
  | stored
  | draining
  | drained
  | finished
  deriving DecidableEq, Repr

structure Peer where
  state : SessionState
  ctxDone : Bool
  queue : List PendingWrite
  loop : LoopPc
  close : ClosePc
  senders : List Sender
  deriving DecidableEq, Repr

/-- `newSession`; `handleConn` starts the write loop later. -/
def Peer.new : Peer := ⟨.active, false, [], .unstarted, .idle, []⟩

/-- The case a `select` of a send takes. -/
inductive Pick
  | put
  | ctxDone
  | default
  deriving DecidableEq, Repr

inductive Act
  | call (entry : PendingWrite)
  | sender (n : Nat) (pick : Pick)
  | loopStart
  | loopRecv
  | loopCtxDone
  | setDeadline (ok : Bool)
  | writeOne (ok : Bool)
  | checkLen
  | recv
  | flush (ok : Bool)
  | loopEnd
  | closeStore
  | closeCancel
  | closeDrain
  | closeConn
  deriving DecidableEq, Repr

namespace Peer

def setSender (p : Peer) (n : Nat) (c : Sender) (pc : SenderPc) : Peer :=
  { p with senders := p.senders.set n { c with pc := pc } }

@[simp] theorem senders_setSender (p : Peer) (n : Nat) (c : Sender) (pc : SenderPc) :
    (p.setSender n c pc).senders = p.senders.set n { c with pc := pc } := rfl

/-- The `select` of `enqueue`: `default` is taken only if no other case is
ready. -/
def stepSelect (cfg : Config) (p : Peer) (n : Nat) (c : Sender) : Pick → Option Peer
  | .put =>
    if p.queue.length < cfg.writeQueue then
      some { p.setSender n c (.returned none) with queue := p.queue ++ [c.entry] }
    else none
  | .ctxDone =>
    if p.ctxDone then some (p.setSender n c (.returned (some errSessionClosed))) else none
  | .default =>
    if p.queue.length < cfg.writeQueue ∨ p.ctxDone then none
    else some (p.setSender n c (.returned (some .writeQueueFull)))

def stepSender (cfg : Config) (p : Peer) (n : Nat) (pick : Pick) : Option Peer :=
  match p.senders[n]? with
  | none => none
  | some c =>
    match c.pc with
    | .check =>
      if p.state = .active then
        some (p.setSender n c (if c.entry.frame.isSome then .enqueue else .water))
      else some (p.setSender n c (.returned (some errSessionClosed)))
    | .water =>
      if cfg.overWater p.queue.length then
        some (p.setSender n c (.returned (some .writeQueueFull)))
      else some (p.setSender n c .enqueue)
    | .enqueue =>
      if cfg.overWater p.queue.length then
        some (p.setSender n c (.returned (some .writeQueueFull)))
      else some (p.setSender n c .select)
    | .select => p.stepSelect cfg n c pick
    | .returned _ => none
    | .done => none

/-- What follows `writeOne` when it succeeded. -/
def afterWrite (cfg : Config) (first : Bool) : LoopPc :=
  if first && !cfg.buffered then .select else .check

/-- A step of the write loop, and the frame whose reference it drops. -/
def stepLoop (cfg : Config) (p : Peer) : Act → Option (Peer × Option FrameID)
  | .loopStart => if p.loop = .unstarted then some ({ p with loop := .select }, none) else none
  | .loopRecv =>
    match p.loop, p.queue with
    | .select, pw :: queue =>
      some ({ p with
        queue := queue
        loop := if cfg.timeout then .deadline pw else .write pw true }, none)
    | _, _ => none
  | .loopCtxDone =>
    if p.loop = .select ∧ p.ctxDone then some ({ p with loop := .closing }, none) else none
  | .setDeadline ok =>
    match p.loop with
    | .deadline pw =>
      -- on an error the entry is dropped as it is
      some ({ p with loop := if ok then .write pw true else .closing }, none)
    | _ => none
  | .writeOne ok =>
    match p.loop with
    | .write pw first =>
      some ({ p with loop := if ok then afterWrite cfg first else .closing }, pw.frame)
    | _ => none
  | .checkLen =>
    if p.loop = .check then
      some ({ p with loop := if 0 < p.queue.length then .receive else .flush }, none)
    else none
  | .recv =>
    match p.loop, p.queue with
    | .receive, pw :: queue => some ({ p with queue := queue, loop := .write pw false }, none)
    | _, _ => none
  | .flush ok =>
    if p.loop = .flush then some ({ p with loop := if ok then .select else .closing }, none)
    else none
  | .loopEnd =>
    -- `closeOnce.Do` returns when the one `Close` has finished
    if p.loop = .closing ∧ p.close = .finished then some ({ p with loop := .ended }, none) else none
  | _ => none

def stepClose (p : Peer) : Act → Option (Peer × Option FrameID)
  | .closeStore =>
    if p.close = .idle then some ({ p with state := .closed, close := .stored }, none) else none
  | .closeCancel =>
    if p.close = .stored then some ({ p with ctxDone := true, close := .draining }, none) else none
  | .closeDrain =>
    if p.close = .draining then
      match p.queue with
      | [] => some ({ p with close := .drained }, none)
      | pw :: queue => some ({ p with queue := queue }, pw.frame)
    else none
  | .closeConn => if p.close = .drained then some ({ p with close := .finished }, none) else none
  | _ => none

def step (cfg : Config) (p : Peer) : Act → Option (Peer × Option FrameID)
  | .call entry => some ({ p with senders := p.senders ++ [⟨entry, .check⟩] }, none)
  | .sender n pick => (p.stepSender cfg n pick).map fun q => (q, none)
  | .closeStore => p.stepClose .closeStore
  | .closeCancel => p.stepClose .closeCancel
  | .closeDrain => p.stepClose .closeDrain
  | .closeConn => p.stepClose .closeConn
  | a => p.stepLoop cfg a

/-! ### What a step can be -/

/-- Where a call that is not yet back can go without touching the queue: it
returns an error, or it is past the check, where only an active session lets it. -/
def SenderMove (p : Peer) (old new : SenderPc) : Prop :=
  (∃ e, new = .returned (some e)) ∨ (new.pastCheck ∧ (p.state = .active ∨ old.pastCheck))

variable (cfg : Config) (p : Peer)

/-- **The steps of a session**, one constructor for each way it can change. -/
inductive Step : Act → Peer → Option FrameID → Prop
  | call (entry) : Step (.call entry) { p with senders := p.senders ++ [⟨entry, .check⟩] } none
  | move {n pick c pc} (hc : p.senders[n]? = some c) (hold : c.pc = .check ∨ c.pc.pastCheck)
      (hpc : p.SenderMove c.pc pc) : Step (.sender n pick) (p.setSender n c pc) none
  | put {n c} (hc : p.senders[n]? = some c) (hpc : c.pc = .select)
      (room : p.queue.length < cfg.writeQueue) : Step (.sender n .put)
        { p.setSender n c (.returned none) with queue := p.queue ++ [c.entry] } none
  | loopStart (hl : p.loop = .unstarted) : Step .loopStart { p with loop := .select } none
  | loopRecv {pw queue pc} (hl : p.loop = .select) (hq : p.queue = pw :: queue)
      (hpc : pc = .deadline pw ∨ pc = .write pw true) :
      Step .loopRecv { p with queue := queue, loop := pc } none
  | loopCtxDone (hl : p.loop = .select) (hd : p.ctxDone = true) :
      Step .loopCtxDone { p with loop := .closing } none
  | setDeadline {pw} (hl : p.loop = .deadline pw) :
      Step (.setDeadline true) { p with loop := .write pw true } none
  | deadlineFailed {pw} (hl : p.loop = .deadline pw) :
      Step (.setDeadline false) { p with loop := .closing } none
  | writeOne {pw first ok pc} (hl : p.loop = .write pw first)
      (hpc : pc = .select ∨ pc = .check ∨ pc = .closing) :
      Step (.writeOne ok) { p with loop := pc } pw.frame
  | checkLen {pc} (hl : p.loop = .check)
      (hpc : (p.queue ≠ [] ∧ pc = .receive) ∨ (p.queue = [] ∧ pc = .flush)) :
      Step .checkLen { p with loop := pc } none
  | recv {pw queue} (hl : p.loop = .receive) (hq : p.queue = pw :: queue) :
      Step .recv { p with queue := queue, loop := .write pw false } none
  | flush {ok pc} (hl : p.loop = .flush) (hpc : pc = .select ∨ pc = .closing) :
      Step (.flush ok) { p with loop := pc } none
  | loopEnd (hl : p.loop = .closing) (hc : p.close = .finished) :
      Step .loopEnd { p with loop := .ended } none
  | closeStore (hc : p.close = .idle) :
      Step .closeStore { p with state := .closed, close := .stored } none
  | closeCancel (hc : p.close = .stored) :
      Step .closeCancel { p with ctxDone := true, close := .draining } none
  | drainOne {pw queue} (hc : p.close = .draining) (hq : p.queue = pw :: queue) :
      Step .closeDrain { p with queue := queue } pw.frame
  | drainEnd (hc : p.close = .draining) (hq : p.queue = []) :
      Step .closeDrain { p with close := .drained } none
  | closeConn (hc : p.close = .drained) : Step .closeConn { p with close := .finished } none

variable {cfg : Config} {p q : Peer}

theorem step_sender {n : Nat} {pick : Pick} (h : p.stepSender cfg n pick = some q) :
    Step cfg p (.sender n pick) q none := by
  unfold stepSender at h
  split at h
  · cases h
  rename_i c hc
  split at h
  · rename_i hpc
    split at h <;> cases h
    · refine .move hc (.inl hpc) (.inr ⟨?_, .inl ‹_›⟩)
      cases c.entry.frame.isSome <;> simp [SenderPc.pastCheck]
    · exact .move hc (.inl hpc) (.inl ⟨_, rfl⟩)
  · rename_i hpc
    have hold : c.pc.pastCheck := .inl hpc
    split at h <;> cases h
    · exact .move hc (.inr hold) (.inl ⟨_, rfl⟩)
    · exact .move hc (.inr hold) (.inr ⟨.inr (.inl rfl), .inr hold⟩)
  · rename_i hpc
    have hold : c.pc.pastCheck := .inr (.inl hpc)
    split at h <;> cases h
    · exact .move hc (.inr hold) (.inl ⟨_, rfl⟩)
    · exact .move hc (.inr hold) (.inr ⟨.inr (.inr rfl), .inr hold⟩)
  · rename_i hpc
    have hold : c.pc.pastCheck := .inr (.inr hpc)
    cases pick with
    | put =>
      simp only [stepSelect] at h
      split at h <;> cases h
      exact .put hc hpc ‹_›
    | ctxDone | default =>
      simp only [stepSelect] at h
      split at h <;> cases h
      exact .move hc (.inr hold) (.inl ⟨_, rfl⟩)
  · cases h
  · cases h

variable {a : Act} {r : Option FrameID}

theorem step_close (h : p.stepClose a = some (q, r)) : Step cfg p a q r := by
  unfold stepClose at h
  split at h
  · split at h <;> cases h
    exact .closeStore ‹_›
  · split at h <;> cases h
    exact .closeCancel ‹_›
  · split at h
    · split at h <;> cases h
      · exact .drainEnd ‹_› ‹_›
      · exact .drainOne ‹_› ‹_›
    · cases h
  · split at h <;> cases h
    exact .closeConn ‹_›
  · cases h

theorem step_loop (h : p.stepLoop cfg a = some (q, r)) : Step cfg p a q r := by
  unfold stepLoop at h
  split at h
  · split at h <;> cases h
    exact .loopStart ‹_›
  · split at h <;> cases h
    refine .loopRecv ‹_› ‹_› ?_
    cases cfg.timeout
    · exact .inr rfl
    · exact .inl rfl
  · split at h <;> cases h
    rename_i hl
    exact .loopCtxDone hl.1 hl.2
  · rename_i ok
    split at h <;> cases h
    cases ok
    · exact .deadlineFailed ‹_›
    · exact .setDeadline ‹_›
  · rename_i ok
    split at h <;> cases h
    refine .writeOne ‹_› ?_
    cases ok
    · exact .inr (.inr rfl)
    unfold afterWrite
    simp only [if_true]
    split
    · exact .inl rfl
    · exact .inr (.inl rfl)
  · split at h <;> cases h
    refine .checkLen ‹_› ?_
    by_cases hq : p.queue = []
    · exact .inr ⟨hq, by simp [hq]⟩
    · exact .inl ⟨hq, by simp [List.length_pos_iff, hq]⟩
  · split at h <;> cases h
    exact .recv ‹_› ‹_›
  · rename_i ok
    split at h <;> cases h
    refine .flush ‹_› ?_
    cases ok
    · exact .inr rfl
    · exact .inl rfl
  · split at h <;> cases h
    rename_i hl
    exact .loopEnd hl.1 hl.2
  · cases h

theorem step_cases (h : p.step cfg a = some (q, r)) : Step cfg p a q r := by
  unfold step at h
  split at h
  · cases h
    exact .call _
  · obtain ⟨q', hq', heq⟩ := Option.map_eq_some_iff.mp h
    cases heq
    exact step_sender hq'
  · exact step_close h
  · exact step_close h
  · exact step_close h
  · exact step_close h
  · exact step_loop h

end Peer

/-- One session on its own. -/
def session (cfg : Config) : Machine Peer Act where
  init p := p = .new
  step p a := (p.step cfg a).map Prod.fst

theorem session_step {cfg : Config} {p q : Peer} {a : Act} (h : (session cfg).step p a = some q) :
    ∃ r, Peer.Step cfg p a q r := by
  obtain ⟨⟨q', r⟩, hs, rfl⟩ := Option.map_eq_some_iff.mp h
  exact ⟨r, Peer.step_cases hs⟩

end SharkSocket.Tcp
