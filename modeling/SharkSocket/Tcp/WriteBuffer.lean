import SharkSocket.Tcp.Framer
import SharkSocket.Tcp.WriteLoop

/-!
# What reaches the connection

A `Wire` is a session with its writer: the connection, or a `bufio.Writer` in front of
it if `WriteBufferBytes` is set.  Its steps are those of the session; `writeOne` makes
the `Write` calls of the framer on the writer, and `flush` empties the buffer.  The
framer is any function from a payload to the `Write` calls its `WriteFrame` makes.

`InOrder` follows the payloads that were put into the queue: those written so far, the
one the loop holds and those still queued, in this order.  What has reached the
connection and what the buffer keeps are the encodings of the first part, so a loop that
is back at its `select` with nothing left in the queue has delivered them all
(`drained_delivers`), with whatever buffer.
-/

namespace SharkSocket.Tcp

open Lib

/-- The framer's encoding of a payload. -/
def encoding (writeFrame : WriteFrame) (payload : Bytes) : Bytes :=
  match writeFrame payload with
  | .ok writes => writes.flatten
  | .error _ => []

/-! ### The writer -/

/-- `bw` of the session, and what has reached the connection. -/
structure Outlet where
  bw : Option (BufWriter UInt8)
  conn : Bytes

namespace Outlet

variable (o : Outlet)

def new (writeBufferBytes : Nat) : Outlet :=
  ⟨if 0 < writeBufferBytes then some (.new writeBufferBytes) else none, []⟩

/-- What the buffer keeps. -/
def kept : Bytes :=
  match o.bw with
  | none => []
  | some bw => bw.buf

def write (p : Bytes) : Outlet :=
  match o.bw with
  | none => ⟨none, o.conn ++ p⟩
  | some bw => ⟨some (bw.write p).2, o.conn ++ (bw.write p).1⟩

def flush : Outlet :=
  match o.bw with
  | none => o
  | some bw => ⟨some bw.flush.2, o.conn ++ bw.flush.1⟩

/-- A write that fails when `out` bytes are through. -/
def fail (p : Bytes) (out : Nat) : Outlet := ⟨o.bw, o.conn ++ (o.kept ++ p).take out⟩

theorem write_append (p : Bytes) :
    (o.write p).conn ++ (o.write p).kept = o.conn ++ o.kept ++ p := by
  obtain ⟨bw, conn⟩ := o
  cases bw with
  | none => simp [write, kept]
  | some bw =>
    simp only [write, kept]
    rw [List.append_assoc, bw.write_append, ← List.append_assoc]

theorem isSome_write (p : Bytes) : (o.write p).bw.isSome = o.bw.isSome := by
  obtain ⟨bw, conn⟩ := o
  cases bw <;> rfl

theorem foldl_write (ps : List Bytes) :
    (ps.foldl write o).conn ++ (ps.foldl write o).kept = o.conn ++ o.kept ++ ps.flatten ∧
      (ps.foldl write o).bw.isSome = o.bw.isSome := by
  induction ps generalizing o with
  | nil => simp
  | cons p ps ih =>
    obtain ⟨hbytes, hbw⟩ := ih (o.write p)
    rw [List.foldl_cons, List.flatten_cons]
    exact ⟨by rw [hbytes, write_append, List.append_assoc], hbw.trans (isSome_write o p)⟩

theorem flush_append : o.flush.conn = o.conn ++ o.kept ∧ o.flush.kept = [] := by
  obtain ⟨bw, conn⟩ := o
  cases bw with
  | none => simp [flush, kept]
  | some bw => exact ⟨rfl, rfl⟩

theorem isSome_flush : o.flush.bw.isSome = o.bw.isSome := by
  obtain ⟨bw, conn⟩ := o
  cases bw <;> rfl

theorem kept_of_isSome_false {o : Outlet} (h : o.bw.isSome = false) : o.kept = [] := by
  obtain ⟨bw, conn⟩ := o
  cases bw with
  | none => rfl
  | some bw => cases h

end Outlet

/-! ### A session on its connection -/

/-- `accepted` lists the payloads in the order in which they were put into the queue. -/
structure Wire where
  peer : Peer
  outlet : Outlet
  accepted : List Bytes

/-- A step of the session; a write that fails lets `out` bytes through. -/
structure WireAct where
  act : Act
  out : Nat
  deriving DecidableEq, Repr

def Config.withBuffer (cfg : Config) (writeBufferBytes : Nat) : Config :=
  { cfg with buffered := 0 < writeBufferBytes }

/-- `writeOne`; a payload that the framer refuses cannot be written. -/
def writeOne (writeFrame : WriteFrame) (o : Outlet) (payload : Bytes) (ok : Bool) (out : Nat) :
    Option Outlet :=
  match writeFrame payload with
  | .ok writes => some (if ok then writes.foldl Outlet.write o else o.fail writes.flatten out)
  | .error _ => if ok then none else some o

namespace Wire

variable (cfg : Config) (writeFrame : WriteFrame)

def outletAfter (w : Wire) (a : WireAct) : Option Outlet :=
  match a.act, w.peer.loop with
  | .writeOne ok, .write pw _ => Tcp.writeOne writeFrame w.outlet pw.payload ok a.out
  | .flush ok, _ => some (if ok then w.outlet.flush else w.outlet.fail [] a.out)
  | _, _ => some w.outlet

def step (w : Wire) (a : WireAct) : Option Wire :=
  match w.peer.step cfg a.act, w.outletAfter writeFrame a with
  | some (q, _), some o =>
    -- a queue only grows at its end
    some ⟨q, o, w.accepted ++ (q.queue.drop w.peer.queue.length).map (·.payload)⟩
  | _, _ => none

end Wire

def wire (cfg : Config) (writeBufferBytes : Nat) (writeFrame : WriteFrame) :
    Machine Wire WireAct where
  init w := w = ⟨.new, .new writeBufferBytes, []⟩
  step w a := w.step (cfg.withBuffer writeBufferBytes) writeFrame a

/-- No write fails, and nobody calls `Close`. -/
def Undisturbed (_ : Wire) (a : WireAct) : Prop :=
  match a.act with
  | .setDeadline ok | .writeOne ok | .flush ok => ok = true
  | .closeStore | .closeCancel | .closeDrain | .closeConn => False
  | _ => True

instance (w : Wire) (a : WireAct) : Decidable (Undisturbed w a) :=
  match a with
  | ⟨.setDeadline ok, _⟩ | ⟨.writeOne ok, _⟩ | ⟨.flush ok, _⟩ => inferInstanceAs (Decidable (ok = true))
  | ⟨.closeStore, _⟩ | ⟨.closeCancel, _⟩ | ⟨.closeDrain, _⟩ | ⟨.closeConn, _⟩ =>
    inferInstanceAs (Decidable False)
  | ⟨.call _, _⟩ | ⟨.sender _ _, _⟩ | ⟨.loopStart, _⟩ | ⟨.loopRecv, _⟩ | ⟨.loopCtxDone, _⟩
  | ⟨.checkLen, _⟩ | ⟨.recv, _⟩ | ⟨.loopEnd, _⟩ => inferInstanceAs (Decidable True)

/-! ### The order of the payloads -/

/-- The entry the loop has taken and not yet written. -/
def LoopPc.inHand : LoopPc → List PendingWrite
  | .deadline pw => [pw]
  | .write pw _ => [pw]
  | _ => []

/-- Between the first write of a batch and its flush. -/
def LoopPc.inBatch : LoopPc → Bool
  | .write _ false => true
  | .check => true
  | .receive => true
  | .flush => true
  | _ => false

/-- The payload of a call that has returned `nil`. -/
def nilPayload (c : Sender) : Option Bytes :=
  if c.pc = .returned none then some c.entry.payload else none

/-- The entries between the writer and the senders, in order. -/
def Peer.waiting (p : Peer) : List PendingWrite := p.loop.inHand ++ p.queue

structure InOrder (cfg : Config) (writeFrame : WriteFrame) (w : Wire) : Prop where
  written : ∃ done : List Bytes, w.accepted = done ++ w.peer.waiting.map (·.payload) ∧
    (∀ p ∈ done, ∃ writes, writeFrame p = .ok writes) ∧
    w.outlet.conn ++ w.outlet.kept = (done.map (encoding writeFrame)).flatten
  buffered : w.outlet.bw.isSome = cfg.buffered
  flushed : w.peer.loop.inBatch = false → w.outlet.kept = []
  batch : w.peer.loop.inBatch = true → cfg.buffered = true
  returned : holdings nilPayload w.peer.senders = (w.accepted : Multiset Bytes)

/-! ### One step -/

section Step

variable {cfg : Config} {writeFrame : WriteFrame} {w w' : Wire}

theorem Wire.step_some {a : WireAct} (h : w.step cfg writeFrame a = some w') :
    ∃ q r o, w.peer.step cfg a.act = some (q, r) ∧ w.outletAfter writeFrame a = some o ∧
      w' = ⟨q, o, w.accepted ++ (q.queue.drop w.peer.queue.length).map (·.payload)⟩ := by
  unfold step at h
  split at h
  · rename_i q r o hq ho
    cases h
    exact ⟨q, r, o, hq, ho, rfl⟩
  · cases h

variable {p q : Peer} {c : Sender}

/-- Where the loop is after a write or a flush that succeeded. -/
theorem Peer.step_writeOne {r : Option FrameID} (h : p.step cfg (.writeOne true) = some (q, r)) :
    ∃ pw first, p.loop = .write pw first ∧ q = { p with loop := afterWrite cfg first } := by
  simp only [step, stepLoop] at h
  split at h
  · rename_i pw first hl
    cases h
    exact ⟨pw, first, hl, rfl⟩
  · cases h

theorem Peer.step_flush {r : Option FrameID} (h : p.step cfg (.flush true) = some (q, r)) :
    p.loop = .flush ∧ q = { p with loop := .select } := by
  simp only [step, stepLoop] at h
  split at h
  · rename_i hl
    cases h
    exact ⟨hl, rfl⟩
  · cases h

theorem nilPayload_unreturned (h : c.pc = .check ∨ c.pc.pastCheck) : nilPayload c = none := by
  unfold nilPayload
  rw [if_neg]
  rintro hret
  rw [hret] at h
  simp [SenderPc.pastCheck] at h

theorem nilPayload_of_move {old pc : SenderPc} (h : p.SenderMove old pc) :
    nilPayload { c with pc := pc } = none := by
  rcases h with ⟨e, rfl⟩ | ⟨hpast, -⟩
  · simp [nilPayload]
  · exact nilPayload_unreturned (.inr hpast)

namespace InOrder

variable (h : InOrder cfg writeFrame w)
include h

/-- A step that writes nothing and puts nothing into the queue. -/
theorem silent (hqueue : q.queue.length ≤ w.peer.queue.length)
    (hwait : q.waiting = w.peer.waiting) (hbatch : q.loop.inBatch = w.peer.loop.inBatch)
    (hret : holdings nilPayload q.senders = holdings nilPayload w.peer.senders) :
    InOrder cfg writeFrame
      ⟨q, w.outlet, w.accepted ++ (q.queue.drop w.peer.queue.length).map (·.payload)⟩ := by
  rw [List.drop_eq_nil_of_le hqueue, List.map_nil, List.append_nil]
  refine ⟨?_, h.buffered, ?_, ?_, hret.trans h.returned⟩
  · rw [hwait]
    exact h.written
  · rw [hbatch]
    exact h.flushed
  · rw [hbatch]
    exact h.batch

theorem put {n : Nat} (hc : w.peer.senders[n]? = some c) (hpc : c.pc = .select) :
    InOrder cfg writeFrame
      ⟨{ w.peer.setSender n c (.returned none) with queue := w.peer.queue ++ [c.entry] }, w.outlet,
        w.accepted ++ ((w.peer.queue ++ [c.entry]).drop w.peer.queue.length).map (·.payload)⟩ := by
  rw [List.drop_left]
  refine ⟨?_, h.buffered, h.flushed, h.batch, ?_⟩
  · obtain ⟨done, hall, hok, hbytes⟩ := h.written
    refine ⟨done, ?_, hok, hbytes⟩
    rw [hall]
    simp [Peer.waiting, Peer.setSender]
  · have hset := holdings_set nilPayload hc { c with pc := .returned none }
    have hold : nilPayload c = none := by simp [nilPayload, hpc]
    rw [hold, held_none, add_zero, h.returned] at hset
    exact hset

/-- The bytes of the entry in hand follow those that are out or in the buffer. -/
theorem write {pw : PendingWrite} {first : Bool} {writes : List Bytes}
    (hl : w.peer.loop = .write pw first) (hwrites : writeFrame pw.payload = .ok writes) :
    InOrder cfg writeFrame
      ⟨{ w.peer with loop := Peer.afterWrite cfg first }, writes.foldl Outlet.write w.outlet,
        w.accepted ++ (w.peer.queue.drop w.peer.queue.length).map (·.payload)⟩ := by
  obtain ⟨hbytes, hbw⟩ := w.outlet.foldl_write writes
  obtain ⟨done, hall, hok, hdone⟩ := h.written
  have hafter : (Peer.afterWrite cfg first).inHand = [] ∧
      ((Peer.afterWrite cfg first).inBatch = true ↔ (first && !cfg.buffered) = false) := by
    unfold Peer.afterWrite
    cases first && !cfg.buffered <;> simp [LoopPc.inHand, LoopPc.inBatch]
  rw [List.drop_length, List.map_nil, List.append_nil]
  refine ⟨⟨done ++ [pw.payload], ?_, ?_, ?_⟩, hbw.trans h.buffered, ?_, ?_, h.returned⟩
  · have hbefore : w.peer.waiting = pw :: w.peer.queue := by
      rw [Peer.waiting, hl]
      rfl
    rw [hall, hbefore, Peer.waiting, hafter.1, List.append_assoc]
    rfl
  · intro p hp
    rcases List.mem_append.mp hp with hp | hp
    · exact hok p hp
    rw [List.mem_singleton.mp hp]
    exact ⟨writes, hwrites⟩
  · rw [hbytes, hdone]
    simp [encoding, hwrites]
  · -- without a buffer nothing is kept
    intro hbatch
    have hplain : (first && !cfg.buffered) = true := by
      cases hb : first && !cfg.buffered with
      | true => rfl
      | false =>
        rw [hafter.2.mpr hb] at hbatch
        cases hbatch
    refine Outlet.kept_of_isSome_false (hbw.trans (h.buffered.trans ?_))
    simpa using (Bool.and_eq_true_iff.mp hplain).2
  · intro hbatch
    have hb := hafter.2.mp hbatch
    cases first with
    | true => simpa using hb
    | false => exact h.batch (by rw [hl]; rfl)

theorem flush (hl : w.peer.loop = .flush) :
    InOrder cfg writeFrame
      ⟨{ w.peer with loop := .select }, w.outlet.flush,
        w.accepted ++ (w.peer.queue.drop w.peer.queue.length).map (·.payload)⟩ := by
  obtain ⟨hconn, hkept⟩ := w.outlet.flush_append
  obtain ⟨done, hall, hok, hdone⟩ := h.written
  rw [List.drop_length, List.map_nil, List.append_nil]
  refine ⟨⟨done, ?_, hok, ?_⟩, w.outlet.isSome_flush.trans h.buffered, fun _ => hkept, ?_, h.returned⟩
  · rw [hall]
    simp [Peer.waiting, hl, LoopPc.inHand]
  · rw [hconn, hkept, List.append_nil, hdone]
  · intro hbatch
    cases hbatch

/-- **The order is kept** by every step of a run in which no write fails and nobody
closes. -/
theorem step {a : WireAct} (hok : Undisturbed w a)
    (hs : w.step cfg writeFrame a = some w') : InOrder cfg writeFrame w' := by
  obtain ⟨q, r, o, hq, ho, rfl⟩ := Wire.step_some hs
  obtain ⟨act, out⟩ := a
  cases Peer.step_cases hq with
  | call entry =>
    cases ho
    refine h.silent le_rfl rfl rfl ?_
    rw [holdings_concat]
    exact add_zero _
  | @move n pick c pc hc hold hpc =>
    cases ho
    refine h.silent le_rfl rfl rfl ?_
    have hset := holdings_set nilPayload hc { c with pc := pc }
    rwa [nilPayload_unreturned hold, nilPayload_of_move hpc, held_none, add_zero, add_zero] at hset
  | put hc hpc room =>
    cases ho
    exact h.put hc hpc
  | loopStart hl | loopCtxDone hl hd | setDeadline hl | loopEnd hl hc =>
    cases ho
    exact h.silent le_rfl (by simp [Peer.waiting, hl, LoopPc.inHand]) (by rw [hl]; rfl) rfl
  | loopRecv hl hqueue hpc =>
    cases ho
    refine h.silent (by rw [hqueue]; simp) ?_ ?_ rfl
    · rcases hpc with rfl | rfl <;> simp [Peer.waiting, hl, hqueue, LoopPc.inHand]
    · rcases hpc with rfl | rfl <;> rw [hl] <;> rfl
  | deadlineFailed hl => cases hok
  | @writeOne pw first ok pc hl hpc =>
    obtain rfl : ok = true := hok
    obtain ⟨pw', first', hl', hafter⟩ := Peer.step_writeOne hq
    obtain ⟨rfl, rfl⟩ : pw = pw' ∧ first = first' := by
      rw [hl] at hl'
      exact ⟨(LoopPc.write.inj hl').1, (LoopPc.write.inj hl').2⟩
    rw [hafter]
    simp only [Wire.outletAfter, hl, writeOne] at ho
    split at ho
    · rename_i writes hwrites
      cases ho
      exact h.write hl hwrites
    · cases ho
  | checkLen hl hpc =>
    cases ho
    refine h.silent le_rfl ?_ ?_ rfl
    · rcases hpc with ⟨-, rfl⟩ | ⟨-, rfl⟩ <;> simp [Peer.waiting, hl, LoopPc.inHand]
    · rcases hpc with ⟨-, rfl⟩ | ⟨-, rfl⟩ <;> rw [hl] <;> rfl
  | recv hl hqueue =>
    cases ho
    refine h.silent (by rw [hqueue]; simp) ?_ (by rw [hl]; rfl) rfl
    simp [Peer.waiting, hl, hqueue, LoopPc.inHand]
  | @flush ok pc hl hpc =>
    obtain rfl : ok = true := hok
    obtain ⟨-, hafter⟩ := Peer.step_flush hq
    cases ho
    rw [hafter]
    exact h.flush hl
  | closeStore | closeCancel | drainOne | drainEnd | closeConn => exact hok.elim

end InOrder

end Step

/-! ### A whole run -/

section Run

variable {cfg : Config} {writeBufferBytes : Nat} {writeFrame : WriteFrame} {w : Wire}

theorem inOrder_new (cfg : Config) (writeBufferBytes : Nat) (writeFrame : WriteFrame) :
    InOrder (cfg.withBuffer writeBufferBytes) writeFrame ⟨.new, .new writeBufferBytes, []⟩ := by
  have hkept : (Outlet.new writeBufferBytes).kept = [] := by
    unfold Outlet.new
    split <;> rfl
  refine ⟨⟨[], rfl, by simp, ?_⟩, ?_, fun _ => hkept, ?_, rfl⟩
  · rw [hkept]
    rfl
  · dsimp only [Outlet.new, Config.withBuffer]
    by_cases h : 0 < writeBufferBytes <;> simp [h]
  · intro h
    cases h

theorem inOrder_of_reaches (h : (wire cfg writeBufferBytes writeFrame).Reaches Undisturbed w) :
    InOrder (cfg.withBuffer writeBufferBytes) writeFrame w := by
  refine h.inv ?_ ?_
  · rintro w rfl
    exact inOrder_new cfg writeBufferBytes writeFrame
  · intro w a w' hw hok hs
    exact hw.step hok hs

/-- What has reached the connection is always the beginning of what was accepted. -/
theorem conn_le_accepted (h : (wire cfg writeBufferBytes writeFrame).Reaches Undisturbed w) :
    w.outlet.conn <+: (w.accepted.map (encoding writeFrame)).flatten := by
  obtain ⟨done, hall, -, hbytes⟩ := (inOrder_of_reaches h).written
  rw [hall, List.map_append, List.flatten_append, ← hbytes, List.append_assoc]
  exact List.prefix_append _ _

/-- **A drained loop has delivered every accepted payload, in order and encoded**, with
any write buffer or none. -/
theorem drained_delivers (cfg : Config) (writeBufferBytes : Nat) (writeFrame : WriteFrame)
    (w : Wire) (h : (wire cfg writeBufferBytes writeFrame).Reaches Undisturbed w)
    (hqueue : w.peer.queue = []) (hloop : w.peer.loop = .select) :
    w.outlet.conn = (w.accepted.map (encoding writeFrame)).flatten ∧
      (∀ p ∈ w.accepted, ∃ writes, writeFrame p = .ok writes) ∧
      holdings nilPayload w.peer.senders = (w.accepted : Multiset Bytes) := by
  have hw := inOrder_of_reaches h
  obtain ⟨done, hall, hok, hbytes⟩ := hw.written
  have hnone : w.peer.waiting = [] := by
    rw [Peer.waiting, hloop, hqueue]
    rfl
  have hkept : w.outlet.kept = [] := hw.flushed (by rw [hloop]; rfl)
  rw [hnone, List.map_nil, List.append_nil] at hall
  rw [hkept, List.append_nil] at hbytes
  rw [hall]
  exact ⟨hbytes, hok, hall ▸ hw.returned⟩

/-- Two sends that leave as one batch. -/
def batchOfTwo : List WireAct :=
  ([.loopStart] ++ sendOf 0 [1] ++ sendOf 1 [2, 3] ++
    [.loopRecv, .writeOne true, .checkLen, .recv, .writeOne true, .checkLen, .flush true] :
      List Act).map fun a => ⟨a, 0⟩

theorem drained_delivers_batchOfTwo :
    ∃ w, (wire bufferedConfig 8 (Framer.lengthPrefix ⟨0⟩).writeFrame).Reaches Undisturbed w ∧
      w.accepted = [[1], [2, 3]] ∧
      w.outlet.conn = ([[1], [2, 3]].map (encoding (Framer.lengthPrefix ⟨0⟩).writeFrame)).flatten := by
  have hrun : ((wire bufferedConfig 8 (Framer.lengthPrefix ⟨0⟩).writeFrame).runIf Undisturbed
      ⟨.new, .new 8, []⟩ batchOfTwo).map (fun w => (w.accepted, w.peer.queue, w.peer.loop)) =
        some ([[1], [2, 3]], [], .select) := by decide +kernel
  obtain ⟨w, hreach, heq⟩ := Machine.exists_reaches hrun rfl
  simp only [Prod.mk.injEq] at heq
  have hall := (drained_delivers _ _ _ w hreach heq.2.1 heq.2.2).1
  rw [heq.1] at hall
  exact ⟨w, hreach, heq.1, hall⟩

/-- The first of the two is in the buffer. -/
theorem conn_le_accepted_batchOfTwo : ∃ w : Wire, w.accepted = [[1], [2, 3]] ∧
    w.outlet.conn <+: (w.accepted.map (encoding (Framer.lengthPrefix ⟨0⟩).writeFrame)).flatten := by
  have hrun : ((wire bufferedConfig 8 (Framer.lengthPrefix ⟨0⟩).writeFrame).runIf Undisturbed
      ⟨.new, .new 8, []⟩ (batchOfTwo.take 13)).map Wire.accepted = some [[1], [2, 3]] := by
    decide +kernel
  obtain ⟨w, hreach, hall⟩ := Machine.exists_reaches hrun rfl
  exact ⟨w, hall, conn_le_accepted hreach⟩

end Run

end SharkSocket.Tcp
