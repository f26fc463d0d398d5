import SharkSocket.Core
import SharkSocket.Lib.Keys
import SharkSocket.Lib.Machine
import SharkSocket.Lib.Pool

/-!
# `infra/pubsub/pubsub.go`: topics, subscribers and drop counters

`Subscribe`, the function it returns to cancel, and the counter section of `Publish` hold
the write lock; the delivery section of `Publish` holds the read lock while it offers the
message to one subscriber after another.  A `Publish` that dropped something lets the read
lock go before it takes the write lock for its counter.

The last subscriber of a topic may leave in between.  It deletes the topic's counter, and
the `Publish` then writes a new one that nobody deletes (`dropped_leaks`).  When that does
not happen every counter belongs to a topic with subscribers (`dropped_has_subscriber`).
-/

namespace SharkSocket.Infra

open Lib
open Std (ExtTreeMap)

namespace PubSub

structure Message where
  topic : Bytes
  data : Bytes
  deriving DecidableEq, Repr

/-- The channel of a subscription, with the topic that `cancel` has in its closure:
what is in the buffer, and how many receivers are waiting. -/
structure Chan where
  topic : Bytes
  buffer : Nat
  queue : List Message
  waiting : Nat
  closed : Bool
  deriving DecidableEq, Repr

/-- The `select` of `Publish`: `none` is its default case. -/
def Chan.offer (c : Chan) (msg : Message) : Option Chan :=
  if 0 < c.waiting then some { c with waiting := c.waiting - 1 }
  else if c.queue.length < c.buffer then some { c with queue := c.queue ++ [msg] }
  else none

/-- A receive, which waits on an empty channel unless that is closed. -/
def Chan.receive (c : Chan) : Chan :=
  match c.queue with
  | _ :: queue => { c with queue := queue }
  | [] => if c.closed then c else { c with waiting := c.waiting + 1 }

/-- Where a `Publish` is: in its delivery section with the subscribers still to come,
before its counter section, or done. -/
inductive PublishPc
  | sending (rest : List Nat)
  | counting
  | returned
  deriving DecidableEq, Repr

structure PublishCall where
  topic : Bytes
  data : Bytes
  delivered : Nat
  dropped : Nat
  pc : PublishPc
  deriving DecidableEq, Repr

/-- The two maps of a `PubSub`, where a channel is its number, the channels, and the
`Publish` calls. -/
structure Broker where
  subs : ExtTreeMap Bytes (List Nat)
  dropped : ExtTreeMap Bytes UInt64
  chans : List Chan
  calls : List PublishCall

inductive Act
  | subscribe (topic : Bytes) (buffer : Nat)
  | cancel (k : Nat)
  | publish (topic data : Bytes)
  | send (n : Nat)
  | unlock (n : Nat)
  | count (n : Nat)
  | receive (k : Nat)
  deriving DecidableEq, Repr

namespace Broker

variable (s : Broker)

def new : Broker := ⟨∅, ∅, [], []⟩

def subscribers (topic : Bytes) : List Nat := s.subs[topic]?.getD []

/-- Some `Publish` holds the read lock. -/
def ReadLocked : Prop :=
  ∃ call ∈ s.calls, call.pc ≠ .counting ∧ call.pc ≠ .returned

instance (s : Broker) : Decidable s.ReadLocked := inferInstanceAs (Decidable (∃ call ∈ s.calls, _))

def subscribe (topic : Bytes) (buffer : Nat) : Broker :=
  { s with
    subs := s.subs.insert topic (s.subscribers topic ++ [s.chans.length])
    chans := s.chans ++ [⟨topic, buffer, [], 0, false⟩] }

/-- `cancel` of the channel `k`; the second call finds the channel no more. -/
def cancel (k : Nat) (c : Chan) : Broker :=
  if k ∈ s.subscribers c.topic then
    if (s.subscribers c.topic).length = 1 then
      { s with
        subs := s.subs.erase c.topic, dropped := s.dropped.erase c.topic
        chans := s.chans.set k { c with closed := true } }
    else
      { s with
        subs := s.subs.insert c.topic ((s.subscribers c.topic).erase k)
        chans := s.chans.set k { c with closed := true } }
  else s

/-- One turn of the loop of `Publish`. -/
def send (n : Nat) (call : PublishCall) (k : Nat) (rest : List Nat) (c : Chan) : Broker :=
  match c.offer ⟨call.topic, call.data⟩ with
  | some c =>
    { s with
      chans := s.chans.set k c
      calls := s.calls.set n { call with delivered := call.delivered + 1, pc := .sending rest } }
  | none =>
    { s with calls := s.calls.set n { call with dropped := call.dropped + 1, pc := .sending rest } }

def step : Act → Option Broker
  | .subscribe topic buffer => if s.ReadLocked then none else some (s.subscribe topic buffer)
  | .cancel k =>
    match s.chans[k]? with
    | none => none
    | some c => if s.ReadLocked then none else some (s.cancel k c)
  | .publish topic data =>
    some { s with calls := s.calls ++ [⟨topic, data, 0, 0, .sending (s.subscribers topic)⟩] }
  | .send n =>
    match s.calls[n]? with
    | some ⟨topic, data, delivered, dropped, .sending (k :: rest)⟩ =>
      match s.chans[k]? with
      | some c =>
        -- a send on a closed channel panics and ends the run
        if c.closed then none
        else some (s.send n ⟨topic, data, delivered, dropped, .sending (k :: rest)⟩ k rest c)
      | none => none
    | _ => none
  | .unlock n =>
    match s.calls[n]? with
    | some ⟨topic, data, delivered, dropped, .sending []⟩ =>
      some { s with
        calls := s.calls.set n
          ⟨topic, data, delivered, dropped, if 0 < dropped then .counting else .returned⟩ }
    | _ => none
  | .count n =>
    match s.calls[n]? with
    | some ⟨topic, data, delivered, dropped, .counting⟩ =>
      if s.ReadLocked then none
      else
        some { s with
          dropped := s.dropped.insert topic (s.dropped[topic]?.getD 0 + UInt64.ofNat dropped)
          calls := s.calls.set n ⟨topic, data, delivered, dropped, .returned⟩ }
    | _ => none
  | .receive k =>
    match s.chans[k]? with
    | none => none
    | some c => some { s with chans := s.chans.set k c.receive }

/-- What a step can do. -/
inductive Step (s : Broker) : Act → Broker → Prop
  | subscribed {topic : Bytes} {buffer : Nat} : ¬ s.ReadLocked →
      Step s (.subscribe topic buffer) (s.subscribe topic buffer)
  | cancelled {k : Nat} {c : Chan} : s.chans[k]? = some c → ¬ s.ReadLocked →
      Step s (.cancel k) (s.cancel k c)
  | published {topic data : Bytes} :
      Step s (.publish topic data)
        { s with calls := s.calls ++ [⟨topic, data, 0, 0, .sending (s.subscribers topic)⟩] }
  | sent {n k : Nat} {rest : List Nat} {call : PublishCall} {c : Chan} : s.calls[n]? = some call →
      call.pc = .sending (k :: rest) → s.chans[k]? = some c →
      Step s (.send n) (s.send n call k rest c)
  | unlocked {n : Nat} {call : PublishCall} : s.calls[n]? = some call → call.pc = .sending [] →
      Step s (.unlock n) { s with
        calls := s.calls.set n
          { call with pc := if 0 < call.dropped then .counting else .returned } }
  | counted {n : Nat} {call : PublishCall} : s.calls[n]? = some call → call.pc = .counting →
      Step s (.count n) { s with
        dropped := s.dropped.insert call.topic
          (s.dropped[call.topic]?.getD 0 + UInt64.ofNat call.dropped)
        calls := s.calls.set n { call with pc := .returned } }
  | received {k : Nat} {chans : List Chan} : Step s (.receive k) { s with chans := chans }

theorem step_cases {s t : Broker} {a : Act} (h : s.step a = some t) : Step s a t := by
  cases a with
  | subscribe topic buffer =>
    rw [step] at h
    split at h
    · cases h
    cases h
    exact .subscribed ‹_›
  | cancel k =>
    rw [step] at h
    split at h
    · cases h
    rename_i c hc
    split at h
    · cases h
    cases h
    exact .cancelled hc ‹_›
  | publish topic data =>
    cases h
    exact .published
  | send n =>
    rw [step] at h
    split at h
    · rename_i hn
      split at h
      · rename_i c hc
        split at h
        · cases h
        cases h
        exact .sent hn rfl hc
      · cases h
    · cases h
  | unlock n =>
    rw [step] at h
    split at h
    · rename_i hn
      cases h
      exact .unlocked hn rfl
    · cases h
  | count n =>
    rw [step] at h
    split at h
    · rename_i hn
      split at h
      · cases h
      cases h
      exact .counted hn rfl
    · cases h
  | receive k =>
    rw [step] at h
    split at h
    · cases h
    cases h
    exact .received

/-- The last subscriber of a topic does not leave between the two sections of a `Publish`
for that topic. -/
def KeepsTopic : Act → Prop
  | .cancel k =>
    match s.chans[k]? with
    | none => True
    | some c => (s.subscribers c.topic).length = 1 →
        ∀ call ∈ s.calls, call.topic = c.topic → call.pc ≠ .counting
  | _ => True

instance (s : Broker) : (a : Act) → Decidable (s.KeepsTopic a)
  | .cancel k =>
    match h : s.chans[k]? with
    | none => .isTrue (by rw [KeepsTopic, h]; trivial)
    | some c =>
      decidable_of_iff ((s.subscribers c.topic).length = 1 →
        ∀ call ∈ s.calls, call.topic = c.topic → call.pc ≠ .counting) (by rw [KeepsTopic, h])
  | .subscribe _ _ | .publish _ _ | .send _ | .unlock _ | .count _ | .receive _ =>
    inferInstanceAs (Decidable True)

end Broker

def broker : Machine Broker Act where
  init s := s = .new
  step := Broker.step

/-! ### The invariant -/

/-- The call will write a counter, or it may still come to that. -/
def PublishCall.Counts (call : PublishCall) : Prop :=
  call.pc = .counting ∨ ∃ rest, call.pc = .sending rest ∧ (rest ≠ [] ∨ 0 < call.dropped)

namespace Broker

structure Inv (s : Broker) : Prop where
  nonempty : ∀ (topic : Bytes) (subs : List Nat), s.subs[topic]? = some subs → subs ≠ []
  counters : ∀ topic : Bytes, topic ∈ s.dropped → s.subscribers topic ≠ []
  calls : ∀ call ∈ s.calls, call.Counts → s.subscribers call.topic ≠ []

variable {s : Broker}

theorem subscribers_insert (s : Broker) (topic : Bytes) (subs : List Nat) (t : Bytes) :
    (s.subs.insert topic subs)[t]?.getD [] = if topic = t then subs else s.subscribers t := by
  rw [ExtTreeMap.getElem?_insert]
  simp only [Std.compare_eq_iff_eq]
  split <;> rfl

theorem subscribers_erase (s : Broker) (topic t : Bytes) :
    (s.subs.erase topic)[t]?.getD [] = if topic = t then [] else s.subscribers t := by
  rw [ExtTreeMap.getElem?_erase]
  simp only [Std.compare_eq_iff_eq]
  split <;> rfl

/-- A new list for a topic that has subscribers, or gets one. -/
theorem Inv.insert (h : Inv s) {topic : Bytes} {subs : List Nat} (hne : subs ≠ [])
    (chans : List Chan) : Inv { s with subs := s.subs.insert topic subs, chans := chans } := by
  have hsubs : ∀ t, s.subscribers t ≠ [] →
      (s.subs.insert topic subs)[t]?.getD [] ≠ [] := by
    intro t ht
    rw [subscribers_insert]
    split
    · exact hne
    · exact ht
  exact ⟨forall_insert h.nonempty hne, fun t ht => hsubs t (h.counters t ht),
    fun call hc hcounts => hsubs call.topic (h.calls call hc hcounts)⟩

/-- The last subscriber leaves, and the counter goes with it. -/
theorem Inv.erase (h : Inv s) {topic : Bytes}
    (hcalls : ∀ call ∈ s.calls, call.topic = topic → ¬ call.Counts) (chans : List Chan) :
    Inv { s with
      subs := s.subs.erase topic, dropped := s.dropped.erase topic, chans := chans } := by
  refine ⟨forall_erase h.nonempty topic, ?_, ?_⟩
  · intro t ht
    rw [ExtTreeMap.mem_erase] at ht
    obtain ⟨hne, hmem⟩ := ht
    rw [ne_eq, Std.compare_eq_iff_eq] at hne
    show (s.subs.erase topic)[t]?.getD [] ≠ []
    rw [subscribers_erase, if_neg hne]
    exact h.counters t hmem
  · intro call hc hcounts
    have hne : topic ≠ call.topic := fun heq => hcalls call hc heq.symm hcounts
    show (s.subs.erase topic)[call.topic]?.getD [] ≠ []
    rw [subscribers_erase, if_neg hne]
    exact h.calls call hc hcounts

theorem Inv.cancel (h : Inv s) {k : Nat} {c : Chan} (hk : s.chans[k]? = some c)
    (hlock : ¬ s.ReadLocked) (hkeep : s.KeepsTopic (.cancel k)) : Inv (s.cancel k c) := by
  unfold Broker.cancel
  split
  · rename_i hmem
    split
    · rename_i hlast
      refine h.erase ?_ _
      rw [KeepsTopic, hk] at hkeep
      intro call hc htopic hcounts
      rcases hcounts with hcounting | ⟨rest, hsending, -⟩
      · exact hkeep hlast call hc htopic hcounting
      -- nobody is in a delivery section
      exact hlock ⟨call, hc, by rw [hsending]; exact ⟨by simp, by simp⟩⟩
    refine h.insert ?_ _
    intro hnil
    have hlen := List.length_erase_of_mem hmem
    rw [hnil, List.length_nil] at hlen
    have hpos := List.length_pos_of_mem hmem
    omega
  · exact h

/-- A call that moves leaves the tables as they are. -/
theorem Inv.setCall (h : Inv s) {n : Nat} {call call' : PublishCall} (hn : s.calls[n]? = some call)
    (htopic : call'.topic = call.topic) (hcounts : call'.Counts → call.Counts)
    (chans : List Chan) : Inv { s with chans := chans, calls := s.calls.set n call' } := by
  refine ⟨h.nonempty, h.counters, forall_mem_set h.calls fun hdc => ?_⟩
  rw [htopic]
  exact h.calls call (List.mem_of_getElem? hn) (hcounts hdc)

theorem Inv.send (h : Inv s) {n k : Nat} {rest : List Nat} {call : PublishCall} (c : Chan)
    (hn : s.calls[n]? = some call) (hpc : call.pc = .sending (k :: rest)) :
    Inv (s.send n call k rest c) := by
  have hcounts : call.Counts := .inr ⟨_, hpc, .inl (List.cons_ne_nil _ _)⟩
  unfold Broker.send
  split
  · refine h.setCall hn ?_ (fun _ => hcounts) _
    rfl
  refine h.setCall hn ?_ (fun _ => hcounts) s.chans
  rfl

theorem inv_step {a : Act} {t : Broker} (h : Inv s) (hkeep : s.KeepsTopic a)
    (hst : s.step a = some t) : Inv t := by
  cases step_cases hst with
  | subscribed _ => exact h.insert (by simp) _
  | cancelled hk hlock => exact h.cancel hk hlock hkeep
  | published =>
    refine ⟨h.nonempty, h.counters, forall_mem_concat h.calls fun hcounts => ?_⟩
    rcases hcounts with hcounting | ⟨rest, hsending, hrest⟩
    · cases hcounting
    cases hsending
    rcases hrest with hrest | hrest
    · exact hrest
    · exact absurd hrest (Nat.lt_irrefl 0)
  | sent hn hpc _ => exact h.send _ hn hpc
  | unlocked hn hpc =>
    refine h.setCall hn ?_ ?_ s.chans
    · rfl
    intro hcounts
    refine .inr ⟨[], hpc, .inr ?_⟩
    by_contra hzero
    rw [if_neg hzero] at hcounts
    rcases hcounts with hc | ⟨rest, hc, -⟩ <;> cases hc
  | @counted n call hn hpc =>
    have htopic := h.calls call (List.mem_of_getElem? hn) (.inl hpc)
    have hset : Inv { s with calls := s.calls.set n { call with pc := .returned } } := by
      refine h.setCall hn ?_ (fun _ => .inl hpc) s.chans
      rfl
    refine ⟨hset.nonempty, ?_, hset.calls⟩
    intro t ht
    rcases mem_insert_iff.mp ht with rfl | ht
    · exact htopic
    · exact h.counters t ht
  | received => exact ⟨h.nonempty, h.counters, h.calls⟩

theorem inv_of_reaches (h : broker.Reaches KeepsTopic s) : Inv s := by
  refine Machine.Reaches.inv ?_ ?_ h
  · rintro s rfl
    refine ⟨?_, ?_, ?_⟩
    · intro topic subs hs
      simp [new] at hs
    · intro topic ht
      simp [new] at ht
    · rintro call ⟨⟩
  · intro s a t hs hok hst
    exact inv_step hs hok hst

end Broker

/-- **Drop counters belong to subscribed topics**, if the last subscriber of a topic does
not leave between the two sections of a `Publish` for it (`dropped_leaks`): in every state,
whether calls are in progress or not, a topic with a counter has a subscriber, so there are
no more counters than topics that are subscribed to. -/
theorem dropped_has_subscriber (s : Broker) (h : broker.Reaches Broker.KeepsTopic s) :
    (∀ topic, topic ∈ s.dropped → ∃ k, k ∈ s.subscribers topic) ∧
      (∀ topic, topic ∈ s.subs → ∃ k, k ∈ s.subscribers topic) ∧
      s.dropped.size ≤ s.subs.size := by
  have hinv := Broker.inv_of_reaches h
  have hcounters : ∀ topic, topic ∈ s.dropped → ∃ k, k ∈ s.subscribers topic := fun topic ht =>
    List.exists_mem_of_ne_nil _ (hinv.counters topic ht)
  refine ⟨hcounters, ?_, ?_⟩
  · intro topic ht
    obtain ⟨subs, hs⟩ := mem_iff_getElem?.mp ht
    rw [Broker.subscribers, hs]
    exact List.exists_mem_of_ne_nil _ (hinv.nonempty topic subs hs)
  · refine size_le_size_of_subset fun topic ht => ?_
    obtain ⟨k, hk⟩ := hcounters topic ht
    by_contra hnot
    rw [Broker.subscribers, ExtTreeMap.getElem?_eq_none hnot] at hk
    cases hk

/-- The subscriber has no buffer and is not receiving, so the message is dropped. -/
def dropOne : List Act :=
  [.subscribe [0x74] 0, .publish [0x74] [1], .send 0, .unlock 0]

theorem dropped_has_subscriber_counted : ∃ s, broker.Reaches Broker.KeepsTopic s ∧
    s.dropped[([0x74] : Bytes)]? = some 1 ∧ ∃ k, k ∈ s.subscribers [0x74] := by
  have hrun : (broker.runIf Broker.KeepsTopic Broker.new (dropOne ++ [.count 0])).map
      (fun s => s.dropped[([0x74] : Bytes)]?) = some (some 1) := by
    decide
  obtain ⟨s, hreach, hcount⟩ := Machine.exists_reaches hrun rfl
  exact ⟨s, hreach, hcount, (dropped_has_subscriber s hreach).1 _
    (mem_iff_getElem?.mpr ⟨1, hcount⟩)⟩

/-- The subscriber leaves before the counter is written.  No call is in progress any more,
there is no subscriber, and the counter stays. -/
theorem dropped_leaks : ∃ s, broker.Reachable s ∧ (∀ call ∈ s.calls, call.pc = .returned) ∧
    s.dropped[([0x74] : Bytes)]? = some 1 ∧ s.subscribers [0x74] = [] ∧
      ¬ s.dropped.size ≤ s.subs.size := by
  have hrun : (broker.run Broker.new (dropOne ++ [.cancel 0, .count 0])).map
      (fun s => (s.calls.all (·.pc = .returned), s.dropped[([0x74] : Bytes)]?,
        s.subscribers [0x74], s.dropped.size, s.subs.size)) = some (true, some 1, [], 1, 0) := by
    decide
  obtain ⟨s, hreach, hfacts⟩ := Machine.exists_reachable hrun rfl
  simp only [Prod.mk.injEq, List.all_eq_true, decide_eq_true_eq] at hfacts
  obtain ⟨hcalls, hcount, hnone, hsize, hsize'⟩ := hfacts
  exact ⟨s, hreach, hcalls, hcount, hnone, by omega⟩

end PubSub

end SharkSocket.Infra
