import SharkSocket.Tcp.Session

/-!
# The references of a broadcast frame

`Broadcast` makes one frame with a reference for each recipient and passes it to
their `SendShared` one after the other.  From then on a reference is with a
recipient still to come, with the call under way, in a write queue, or in the
hand of a write loop.  `Peer.refs` collects the references a session has, its
calls included, and a step of the session moves them around (`refs_step`): what
it has after the step and what it dropped is what it had and what came in.

Two steps of the source break that.  `enqueue` may pick the channel send after
`Close` has drained the queue, and `writeBatch` forgets the entry in its hand
when `SetWriteDeadline` fails.

* `references_conserved`: in a run without those two steps the count of every
  frame is the number of references out, and it is zero once the broadcast has
  returned and all sessions have ended;
* `late_put_pins_frame`, `failed_deadline_pins_frame`: either step alone leaves
  the count above zero for good.
-/

namespace SharkSocket.Tcp

open Lib

/-! ### The references of one session -/

/-- A call holds its reference until it has put it into the queue; one that
failed holds it for the caller to release. -/
def Sender.ref (c : Sender) : Option FrameID :=
  if c.pc = .returned none ∨ c.pc = .done then none else c.entry.frame

def LoopPc.ref : LoopPc → Option FrameID
  | .deadline pw => pw.frame
  | .write pw _ => pw.frame
  | _ => none

namespace Peer

def refs (p : Peer) : Multiset FrameID :=
  holdings Sender.ref p.senders + holdings PendingWrite.frame p.queue + held p.loop.ref

/-- `Close` has emptied the queue. -/
def Drained (p : Peer) : Prop := p.close = .drained ∨ p.close = .finished

instance (p : Peer) : Decidable p.Drained := inferInstanceAs (Decidable (_ ∨ _))

/-- The step neither puts a frame behind the drain nor forgets one. -/
def KeepsRefs (p : Peer) : Act → Prop
  | .sender n .put =>
    ∀ c ∈ p.senders[n]?, c.pc = .select → c.entry.frame ≠ none → ¬ p.Drained
  | .setDeadline false => p.loop.ref = none
  | _ => True

instance (p : Peer) (a : Act) : Decidable (p.KeepsRefs a) := by
  unfold KeepsRefs
  split <;> infer_instance

end Peer

/-- The reference a call starts with. -/
def Act.brings : Act → Option FrameID
  | .call entry => entry.frame
  | _ => none

variable {c : Sender}

theorem ref_of_pastCheck (h : c.pc = .check ∨ c.pc.pastCheck) : c.ref = c.entry.frame := by
  rcases h with h | h | h | h <;> simp [Sender.ref, h]

namespace Peer

variable {cfg : Config} {p q : Peer} {a : Act} {r : Option FrameID}

theorem holdings_move {n : Nat} {pc : SenderPc} (hc : p.senders[n]? = some c)
    (hold : c.pc = .check ∨ c.pc.pastCheck) (hpc : p.SenderMove c.pc pc) :
    holdings Sender.ref (p.setSender n c pc).senders = holdings Sender.ref p.senders := by
  have href : ({ c with pc := pc }).ref = c.ref := by
    rw [ref_of_pastCheck hold]
    rcases hpc with ⟨e, rfl⟩ | ⟨hpast, _⟩
    · simp [Sender.ref]
    · exact ref_of_pastCheck (.inr hpast)
  have h := holdings_set Sender.ref hc { c with pc := pc }
  rw [href] at h
  exact add_right_cancel h

theorem holdings_put {n : Nat} (hc : p.senders[n]? = some c) (hpc : c.pc = .select) :
    holdings Sender.ref (p.setSender n c (.returned none)).senders + held c.entry.frame
      = holdings Sender.ref p.senders := by
  have h := holdings_set Sender.ref hc { c with pc := .returned none }
  rw [ref_of_pastCheck (.inr (.inr (.inr hpc)))] at h
  simpa [Sender.ref] using h

/-- **A step moves references.**  Unless it forgets one, what the session has
afterwards and what it dropped is what it had and what came in. -/
theorem refs_step (h : Step cfg p a q r) (hok : p.KeepsRefs a) :
    q.refs + held r = p.refs + held a.brings := by
  unfold refs
  cases h with
  | call entry =>
    rw [holdings_concat]
    simp only [Sender.ref, Act.brings, held_none]
    simp
    abel
  | move hc hold hpc =>
    rw [holdings_move hc hold hpc]
    rfl
  | @put n c hc hpc room =>
    rw [← holdings_put hc hpc, holdings_concat]
    abel
  | loopRecv hl hq hpc =>
    rw [hl, hq, holdings_cons]
    rcases hpc with rfl | rfl <;> simp [LoopPc.ref, Act.brings] <;> abel
  | setDeadline hl => simp [hl, LoopPc.ref, Act.brings]
  | deadlineFailed hl =>
    rw [show p.loop.ref = none from hok]
    rfl
  | writeOne hl hpc =>
    rw [hl]
    rcases hpc with rfl | rfl | rfl <;> simp [LoopPc.ref, Act.brings]
  | checkLen hl hpc =>
    rw [hl]
    rcases hpc with ⟨_, rfl⟩ | ⟨_, rfl⟩ <;> simp [LoopPc.ref, Act.brings]
  | recv hl hq =>
    rw [hl, hq, holdings_cons]
    abel
  | flush hl hpc =>
    rw [hl]
    rcases hpc with rfl | rfl <;> simp [LoopPc.ref, Act.brings]
  | drainOne hc hq =>
    rw [hq, holdings_cons]
    abel
  | loopStart hl | loopCtxDone hl | loopEnd hl => simp [hl, LoopPc.ref, Act.brings]
  | closeStore | closeCancel | drainEnd | closeConn => rfl

theorem refs_call (p : Peer) (entry : PendingWrite) :
    ({ p with senders := p.senders ++ [⟨entry, .check⟩] } : Peer).refs + held none
      = p.refs + held entry.frame :=
  refs_step (Step.call entry : Step ⟨1, Nat.one_pos, 0, false, false⟩ p _ _ _) trivial

/-- The caller of a `SendShared` that has returned takes what the call still holds. -/
theorem refs_done {n : Nat} (hc : p.senders[n]? = some c) :
    (p.setSender n c .done).refs + held c.ref = p.refs + held none := by
  have h := holdings_set Sender.ref hc { c with pc := .done }
  calc (p.setSender n c .done).refs + held c.ref
      = holdings Sender.ref (p.senders.set n { c with pc := .done }) + held c.ref
          + holdings PendingWrite.frame p.queue + held p.loop.ref := by
        unfold refs setSender
        abel
    _ = p.refs + held none := by
        rw [h]
        unfold refs
        abel

/-- Under the same condition a drained queue gets no frame. -/
theorem drained_step (h : Step cfg p a q r) (hok : p.KeepsRefs a)
    (hp : p.Drained → ∀ pw ∈ p.queue, pw.frame = none) :
    q.Drained → ∀ pw ∈ q.queue, pw.frame = none := by
  intro hq
  cases h with
  | @put n c hc hpc room =>
    refine forall_mem_concat (hp hq) ?_
    by_contra hframe
    exact hok c hc hpc hframe hq
  | loopRecv hl hqueue | recv hl hqueue | drainOne hl hqueue =>
    intro pw hmem
    exact hp hq pw (hqueue ▸ List.mem_cons_of_mem _ hmem)
  | drainEnd hc hqueue =>
    intro pw hmem
    rw [hqueue] at hmem
    cases hmem
  | closeConn hc => exact hp (.inl hc)
  | closeStore | closeCancel => exact absurd hq (by simp [Drained])
  | _ => exact hp hq

/-! ### Whose calls are under way -/

/-- The `n`-th call is a `SendShared` of `f` whose caller has not gone on. -/
def Calling (p : Peer) (n : Nat) (f : FrameID) : Prop :=
  ∃ c, p.senders[n]? = some c ∧ c.entry.frame = some f ∧ c.pc ≠ .done

theorem calling_setSender {m : Nat} (hc : p.senders[m]? = some c) (pc : SenderPc) (n : Nat)
    (f : FrameID) : (p.setSender m c pc).Calling n f ↔
      if n = m then c.entry.frame = some f ∧ pc ≠ .done else p.Calling n f := by
  have hm : m < p.senders.length := (List.getElem?_eq_some_iff.mp hc).1
  unfold Calling
  by_cases hn : n = m
  · subst hn
    simp [List.getElem?_set_self hm]
  · simp [hn, List.getElem?_set_ne (Ne.symm hn)]

theorem calling_call (entry : PendingWrite) (n : Nat) (f : FrameID) :
    ({ p with senders := p.senders ++ [⟨entry, .check⟩] } : Peer).Calling n f ↔
      p.Calling n f ∨ (n = p.senders.length ∧ entry.frame = some f) := by
  simp [Calling, getElem?_concat_eq_some, or_and_right, exists_or, and_assoc]

theorem calling_step (h : Step cfg p a q r) (ha : a.brings = none) (n : Nat) (f : FrameID) :
    q.Calling n f ↔ p.Calling n f := by
  have hset : ∀ {m c pc}, p.senders[m]? = some c → c.pc ≠ .done → pc ≠ .done →
      ((p.setSender m c pc).Calling n f ↔ p.Calling n f) := by
    intro m c pc hc hold hnew
    rw [calling_setSender hc]
    split
    · rename_i hn
      simp [Calling, hn, hc, hold, hnew]
    · rfl
  cases h with
  | call entry =>
    rw [calling_call]
    simp [show entry.frame = none from ha]
  | move hc hold hpc =>
    refine hset hc ?_ ?_
    · rcases hold with h | h | h | h <;> simp [h]
    · rcases hpc with ⟨e, rfl⟩ | ⟨rfl | rfl | rfl, _⟩ <;> simp
  | put hc hpc => exact hset hc (by simp [hpc]) (by simp)
  | _ => rfl

end Peer

/-! ### Broadcasts over several sessions -/

/-- A `Broadcast` that shares a frame: the recipients still to come, and the
session and number of the `SendShared` call under way. -/
structure Broadcast where
  frame : SharedFrame
  todo : List Nat
  call : Option (Nat × Nat)
  deriving DecidableEq, Repr

/-- Sessions are numbered as they were made, broadcasts and their frames too. -/
structure System where
  peers : List Peer
  broadcasts : List Broadcast
  deriving DecidableEq, Repr

inductive Action
  | accept
  | peer (i : Nat) (a : Act)
  | broadcast (data : Bytes) (recipients : List Nat)
  | sendShared (f : FrameID)
  | sharedReturned (f : FrameID)
  deriving DecidableEq, Repr

namespace System

def release (s : System) (r : Option FrameID) : System :=
  match r with
  | none => s
  | some f =>
    { s with broadcasts := s.broadcasts.modify f fun b => { b with frame := b.frame.release } }

/-- Only `Broadcast` calls `SendShared`, and it shares a frame only between two
or more recipients. -/
def step (cfg : Nat → Config) (s : System) : Action → Option System
  | .accept => some { s with peers := s.peers ++ [.new] }
  | .peer i a =>
    match s.peers[i]? with
    | none => none
    | some p =>
      match a.brings, p.step (cfg i) a with
      | none, some (q, r) => some (release { s with peers := s.peers.set i q } r)
      | _, _ => none
  | .broadcast data recipients =>
    if 1 < recipients.length ∧ ∀ i ∈ recipients, i < s.peers.length then
      some { s with broadcasts :=
        s.broadcasts ++ [⟨newSharedFrame data recipients.length, recipients, none⟩] }
    else none
  | .sendShared f =>
    match s.broadcasts[f]? with
    | some ⟨frame, i :: todo, none⟩ =>
      match s.peers[i]? with
      | none => none
      | some p =>
        some {
          peers := s.peers.set i
            { p with senders := p.senders ++ [⟨⟨frame.payload, some f⟩, .check⟩] }
          broadcasts := s.broadcasts.set f ⟨frame, todo, some (i, p.senders.length)⟩ }
    | _ => none
  | .sharedReturned f =>
    match s.broadcasts[f]? with
    | some ⟨frame, todo, some (i, n)⟩ =>
      match s.peers[i]? with
      | none => none
      | some p =>
        match p.senders[n]? with
        | none => none
        | some c =>
          match c.pc with
          | .returned err =>
            some {
              peers := s.peers.set i (p.setSender n c .done)
              broadcasts := s.broadcasts.set f
                ⟨if err.isSome then frame.release else frame, todo, none⟩ }
          | _ => none
    | _ => none

def KeepsRefs (s : System) : Action → Prop
  | .peer i a => ∀ p ∈ s.peers[i]?, p.KeepsRefs a
  | _ => True

instance (s : System) (a : Action) : Decidable (s.KeepsRefs a) := by
  unfold KeepsRefs
  split <;> infer_instance

end System

def broadcasting (cfg : Nat → Config) : Machine System Action where
  init s := s = ⟨[], []⟩
  step := System.step cfg

namespace System

/-- Every reference that is with a session. -/
def refs (s : System) : Multiset FrameID := (s.peers.map Peer.refs).sum

def Calling (s : System) (f : FrameID) (i n : Nat) : Prop :=
  ∃ p, s.peers[i]? = some p ∧ p.Calling n f

def callOf (s : System) (f : FrameID) : Option (Nat × Nat) := s.broadcasts[f]?.bind Broadcast.call

/-- **The accounts.**  A frame counts the recipients to come and the references
out; what is out belongs to a frame there is; the `SendShared` calls of a frame
are the one its broadcast has under way; and drained queues hold no frame. -/
structure Accounted (s : System) : Prop where
  count : ∀ f b, s.broadcasts[f]? = some b →
    b.frame.refs = ((b.todo.length + s.refs.count f : Nat) : Int)
  known : ∀ f ∈ s.refs, f < s.broadcasts.length
  calls : ∀ f i n, s.Calling f i n ↔ s.callOf f = some (i, n)
  drained : ∀ p ∈ s.peers, p.Drained → ∀ pw ∈ p.queue, pw.frame = none

theorem accounted_nil : Accounted ⟨[], []⟩ where
  count f b h := by simp at h
  known f h := by simp [refs] at h
  calls f i n := by simp [Calling, callOf]
  drained p h := by simp at h

variable {s : System} {i : Nat} {p q : Peer}

theorem refs_set (hp : s.peers[i]? = some p) {r b : Option FrameID}
    (h : q.refs + held r = p.refs + held b) (bs : List Broadcast) :
    (System.mk (s.peers.set i q) bs).refs + held r = s.refs + held b := by
  have hsum : (System.mk (s.peers.set i q) bs).refs + p.refs = s.refs + q.refs :=
    sum_map_set Peer.refs hp q
  refine add_right_cancel (b := p.refs) ?_
  calc (System.mk (s.peers.set i q) bs).refs + held r + p.refs
      = s.refs + q.refs + held r := by rw [← hsum]; abel
    _ = s.refs + (p.refs + held b) := by rw [add_assoc, h]
    _ = s.refs + held b + p.refs := by abel

theorem calling_iff (hp : s.peers[i]? = some p) (f : FrameID) (n : Nat) :
    s.Calling f i n ↔ p.Calling n f := by
  simp [Calling, hp]

theorem calling_set (hp : s.peers[i]? = some p) (bs : List Broadcast) (f : FrameID) (j n : Nat) :
    (System.mk (s.peers.set i q) bs).Calling f j n ↔
      if j = i then q.Calling n f else s.Calling f j n := by
  have hi : i < s.peers.length := (List.getElem?_eq_some_iff.mp hp).1
  unfold Calling
  by_cases hj : j = i
  · subst hj
    simp [List.getElem?_set_self hi]
  · simp [hj, List.getElem?_set_ne (Ne.symm hj)]

theorem drained_set (h : s.Accounted) (hq : q.Drained → ∀ pw ∈ q.queue, pw.frame = none) :
    ∀ p' ∈ s.peers.set i q, p'.Drained → ∀ pw ∈ p'.queue, pw.frame = none :=
  forall_mem_set h.drained hq

variable (s) (r : Option FrameID) (f : FrameID)

theorem peers_release : (s.release r).peers = s.peers := by
  cases r <;> rfl

theorem broadcasts_release : (s.release r).broadcasts[f]? = s.broadcasts[f]?.map fun b =>
      { b with frame := if r = some f then b.frame.release else b.frame } := by
  cases r with
  | none => simp [release]
  | some g =>
    simp only [release, List.getElem?_modify, Option.some.injEq]
    cases s.broadcasts[f]? with
    | none => rfl
    | some b =>
      split <;> rfl

theorem length_release : (s.release r).broadcasts.length = s.broadcasts.length := by
  cases r with
  | none => rfl
  | some g => exact List.length_modify ..

theorem calling_release (i n : Nat) : (s.release r).Calling f i n ↔ s.Calling f i n := by
  unfold Calling
  rw [peers_release]

theorem callOf_release : (s.release r).callOf f = s.callOf f := by
  unfold callOf
  rw [broadcasts_release]
  cases s.broadcasts[f]? <;> rfl

/-! ### One step keeps the accounts -/

variable {s}

theorem accounted_accept (h : s.Accounted) : Accounted { s with peers := s.peers ++ [.new] } := by
  have hrefs : (System.mk (s.peers ++ [Peer.new]) s.broadcasts).refs = s.refs := by
    simp [refs, Peer.refs, Peer.new, LoopPc.ref]
  refine ⟨?_, ?_, ?_, ?_⟩
  · rw [hrefs]
    exact h.count
  · rw [hrefs]
    exact h.known
  · intro f i n
    rw [show callOf ⟨s.peers ++ [Peer.new], s.broadcasts⟩ f = s.callOf f from rfl, ← h.calls]
    simp [Calling, getElem?_concat_eq_some, or_and_right, exists_or, Peer.Calling, Peer.new]
  · exact forall_mem_concat h.drained fun hd => by simp [Peer.Drained, Peer.new] at hd

theorem accounted_peer {cfg : Config} {a : Act} {r : Option FrameID} (h : s.Accounted)
    (hp : s.peers[i]? = some p) (hstep : Peer.Step cfg p a q r) (ha : a.brings = none)
    (hok : p.KeepsRefs a) : Accounted (release ⟨s.peers.set i q, s.broadcasts⟩ r) := by
  have hrefs : (release ⟨s.peers.set i q, s.broadcasts⟩ r).refs + held r = s.refs := by
    have h1 := refs_set hp (Peer.refs_step hstep hok) s.broadcasts
    rw [ha, held_none, add_zero] at h1
    rw [← h1]
    unfold refs
    rw [peers_release]
  refine ⟨?_, ?_, ?_, ?_⟩
  · intro f b hb
    rw [broadcasts_release] at hb
    obtain ⟨b, hold, rfl⟩ := Option.map_eq_some_iff.mp hb
    have hcount := h.count f b hold
    rw [← hrefs, Multiset.count_add, count_held] at hcount
    split
    · rename_i hr
      simp only [SharedFrame.release, hcount, hr, if_true]
      omega
    rename_i hr
    simp only [hcount, hr, if_false, add_zero]
  · intro f hf
    rw [length_release]
    exact h.known f (hrefs ▸ Multiset.mem_add.mpr (.inl hf))
  · intro f j n
    rw [callOf_release, show callOf ⟨s.peers.set i q, s.broadcasts⟩ f = s.callOf f from rfl,
      ← h.calls, calling_release, calling_set hp]
    split
    · rename_i hj
      rw [hj, calling_iff hp]
      exact Peer.calling_step hstep ha n f
    · rfl
  · rw [peers_release]
    exact drained_set h (Peer.drained_step hstep hok (h.drained p (List.mem_of_getElem? hp)))

theorem accounted_broadcast (h : s.Accounted) (data : Bytes) {recipients : List Nat}
    (hlen : 1 < recipients.length) :
    Accounted { s with broadcasts :=
      s.broadcasts ++ [⟨newSharedFrame data recipients.length, recipients, none⟩] } := by
  refine ⟨?_, ?_, ?_, h.drained⟩
  · intro f b hb
    rcases getElem?_concat_eq_some.mp hb with hb | ⟨rfl, rfl⟩
    · exact h.count f b hb
    have hfresh : s.refs.count s.broadcasts.length = 0 :=
      Multiset.count_eq_zero.mpr fun hmem => (h.known _ hmem).ne rfl
    change (newSharedFrame data recipients.length).refs
      = ((recipients.length + s.refs.count s.broadcasts.length))
    rw [hfresh, newSharedFrame, if_neg (by omega)]
    rfl
  · intro f hf
    rw [List.length_append]
    exact Nat.lt_add_right _ (h.known f hf)
  · intro f i n
    refine (h.calls f i n).trans ?_
    simp only [callOf, Option.bind_eq_some_iff, getElem?_concat_eq_some, or_and_right, exists_or]
    constructor
    · exact .inl
    · rintro (h | ⟨b, ⟨_, rfl⟩, hcall⟩)
      · exact h
      · cases hcall

variable {f : FrameID}

theorem callOf_set {b₀ : Broadcast} (hb : s.broadcasts[f]? = some b₀) (ps : List Peer)
    (b : Broadcast) (g : FrameID) :
    callOf ⟨ps, s.broadcasts.set f b⟩ g = if g = f then b.call else s.callOf g := by
  have hf : f < s.broadcasts.length := (List.getElem?_eq_some_iff.mp hb).1
  unfold callOf
  by_cases hg : g = f
  · subst hg
    simp [List.getElem?_set_self hf]
  · simp [hg, List.getElem?_set_ne (Ne.symm hg)]

section Change

variable {f : FrameID} {b₀ b : Broadcast} {ps : List Peer} {r t : Option FrameID}
  (h : s.Accounted) (hb : s.broadcasts[f]? = some b₀)
  (hrefs : (System.mk ps (s.broadcasts.set f b)).refs + held r = s.refs + held t)

include h hb hrefs

/-- The counts when one broadcast changes and the references of its frame with it. -/
theorem count_set (hother : ∀ g, g ≠ f → (held r).count g = (held t).count g)
    (hcount : b.frame.refs + ((held r).count f + b₀.todo.length : Nat)
      = b₀.frame.refs + ((held t).count f + b.todo.length : Nat)) :
    ∀ g b', (s.broadcasts.set f b)[g]? = some b' → b'.frame.refs
        = ((b'.todo.length + (System.mk ps (s.broadcasts.set f b)).refs.count g : Nat) : Int) := by
  have hf : f < s.broadcasts.length := (List.getElem?_eq_some_iff.mp hb).1
  intro g b' hb'
  have hg := congrArg (Multiset.count g) hrefs
  rw [Multiset.count_add, Multiset.count_add] at hg
  by_cases hgf : g = f
  · subst hgf
    rw [List.getElem?_set_self hf] at hb'
    cases hb'
    rw [h.count g b₀ hb] at hcount
    omega
  rw [List.getElem?_set_ne (Ne.symm hgf)] at hb'
  rw [hother g hgf] at hg
  rw [h.count g b' hb', add_right_cancel hg]

theorem known_set (ht : ∀ g, t = some g → g = f) :
    ∀ g ∈ (System.mk ps (s.broadcasts.set f b)).refs, g < (s.broadcasts.set f b).length := by
  intro g hg
  rw [List.length_set]
  have hmem : g ∈ s.refs + held t := hrefs ▸ Multiset.mem_add.mpr (.inl hg)
  rcases Multiset.mem_add.mp hmem with hmem | hmem
  · exact h.known g hmem
  rw [mem_held] at hmem
  rw [ht g hmem]
  exact (List.getElem?_eq_some_iff.mp hb).1

end Change

theorem accounted_sendShared {frame : SharedFrame} {todo : List Nat} (h : s.Accounted)
    (hb : s.broadcasts[f]? = some ⟨frame, i :: todo, none⟩) (hp : s.peers[i]? = some p) :
    Accounted ⟨s.peers.set i { p with senders := p.senders ++ [⟨⟨frame.payload, some f⟩, .check⟩] },
      s.broadcasts.set f ⟨frame, todo, some (i, p.senders.length)⟩⟩ := by
  have hrefs := refs_set hp (Peer.refs_call p ⟨frame.payload, some f⟩)
    (s.broadcasts.set f ⟨frame, todo, some (i, p.senders.length)⟩)
  have hidle : s.callOf f = none := by simp [callOf, hb]
  refine ⟨?_, known_set h hb hrefs (by simp), ?_, ?_⟩
  · refine count_set h hb hrefs ?_ ?_
    · intro g hg
      simp [Ne.symm hg]
    · simp
      omega
  · intro g j m
    rw [callOf_set hb, calling_set hp, Peer.calling_call, ← calling_iff hp]
    by_cases hg : g = f
    · subst hg
      have hnot : ∀ j m, ¬ s.Calling g j m := by
        intro j m hcall
        rw [h.calls, hidle] at hcall
        cases hcall
      simp [hnot, eq_comm, and_comm]
    have hne : ¬ some f = some g := by simpa using Ne.symm hg
    simp only [hne, and_false, or_false, if_neg hg, ← h.calls]
    split
    · rename_i hj
      rw [hj]
    · rfl
  · exact drained_set h (h.drained p (List.mem_of_getElem? hp))

theorem accounted_sharedReturned {frame : SharedFrame} {todo : List Nat} {n : Nat}
    {err : Option Err} (h : s.Accounted) (hb : s.broadcasts[f]? = some ⟨frame, todo, some (i, n)⟩)
    (hp : s.peers[i]? = some p) (hc : p.senders[n]? = some c) (hpc : c.pc = .returned err) :
    Accounted ⟨s.peers.set i (p.setSender n c .done),
      s.broadcasts.set f ⟨if err.isSome then frame.release else frame, todo, none⟩⟩ := by
  have hcall : s.callOf f = some (i, n) := by simp [callOf, hb]
  have hframe : c.entry.frame = some f := by
    obtain ⟨c', hc', hf, _⟩ := (calling_iff hp f n).mp ((h.calls f i n).mpr hcall)
    rw [hc] at hc'
    cases hc'
    exact hf
  have href : c.ref = if err.isSome then some f else none := by
    cases err <;> simp [Sender.ref, hpc, hframe]
  have hrefs := refs_set hp (Peer.refs_done hc)
    (s.broadcasts.set f ⟨if err.isSome then frame.release else frame, todo, none⟩)
  rw [href] at hrefs
  refine ⟨?_, known_set h hb hrefs (by simp), ?_, ?_⟩
  · refine count_set h hb hrefs ?_ ?_
    · intro g hg
      cases err <;> simp [Ne.symm hg]
    · cases err with
      | none => simp
      | some e =>
        simp [SharedFrame.release]
        omega
  · intro g j m
    have hrest : (if j = i then (p.setSender n c .done).Calling m g else s.Calling g j m) ↔
        s.Calling g j m ∧ ¬ (j = i ∧ m = n) := by
      rw [Peer.calling_setSender hc]
      by_cases hj : j = i
      · subst hj
        by_cases hm : m = n <;> simp [hm, calling_iff hp]
      · simp [hj]
    rw [callOf_set hb, calling_set hp, hrest, h.calls]
    by_cases hg : g = f
    · subst hg
      rw [hcall]
      simp [eq_comm]
    rw [if_neg hg, and_iff_left_iff_imp]
    rintro hother ⟨rfl, rfl⟩
    obtain ⟨c', hc', hframe', _⟩ := (calling_iff hp g m).mp ((h.calls g j m).mpr hother)
    rw [hc] at hc'
    cases hc'
    rw [hframe] at hframe'
    exact hg (Option.some.inj hframe').symm
  · exact drained_set h (h.drained p (List.mem_of_getElem? hp))

theorem accounted_step {cfg : Nat → Config} {a : Action} {t : System} (h : s.Accounted)
    (hok : s.KeepsRefs a) (hs : s.step cfg a = some t) : t.Accounted := by
  unfold step at hs
  split at hs
  · cases hs
    exact accounted_accept h
  · split at hs
    · cases hs
    rename_i p hp
    split at hs
    · rename_i q r ha hstep
      cases hs
      exact accounted_peer h hp (Peer.step_cases hstep) ha (hok p hp)
    · cases hs
  · split at hs
    · rename_i hlen
      cases hs
      exact accounted_broadcast h _ hlen.1
    · cases hs
  · split at hs
    · split at hs <;> cases hs
      exact accounted_sendShared h ‹_› ‹_›
    · cases hs
  split at hs
  · split at hs
    · cases hs
    split at hs
    · cases hs
    split at hs <;> cases hs
    exact accounted_sharedReturned h ‹_› ‹_› ‹_› ‹_›
  · cases hs

theorem accounted_of_reaches {cfg : Nat → Config} (h : (broadcasting cfg).Reaches KeepsRefs s) :
    s.Accounted := by
  refine h.inv ?_ ?_
  · rintro s rfl
    exact accounted_nil
  · intro s a t hs hok hst
    exact accounted_step hs hok hst

end System

/-! ### The end of a frame -/

def Broadcast.Returned (b : Broadcast) : Prop := b.todo = [] ∧ b.call = none

/-- `Close` has finished, and the write loop has ended or was never started. -/
def Peer.Ended (p : Peer) : Prop := p.close = .finished ∧ (p.loop = .ended ∨ p.loop = .unstarted)

instance (b : Broadcast) : Decidable b.Returned := inferInstanceAs (Decidable (_ ∧ _))

instance (p : Peer) : Decidable p.Ended := inferInstanceAs (Decidable (_ ∧ _))

/-- An ended session has only what its calls hold: the queue was drained, and
the loop has nothing in its hand. -/
theorem Peer.Ended.exists_calling {p : Peer} (h : p.Ended)
    (hdrained : p.Drained → ∀ pw ∈ p.queue, pw.frame = none) {f : FrameID} (hf : f ∈ p.refs) :
    ∃ n, p.Calling n f := by
  obtain ⟨hclose, hloop⟩ := h
  have hlref : p.loop.ref = none := by rcases hloop with hl | hl <;> rw [hl] <;> rfl
  simp only [Peer.refs, Multiset.mem_add, mem_holdings, hlref, held_none, Multiset.notMem_zero,
    or_false] at hf
  rcases hf with ⟨c, hc, href⟩ | ⟨pw, hpw, hframe⟩
  · obtain ⟨n, hn⟩ := List.mem_iff_getElem?.mp hc
    unfold Sender.ref at href
    split at href
    · cases href
    rename_i hpc
    exact ⟨n, c, hn, href, fun hdone => hpc (.inr hdone)⟩
  rw [hdrained (.inr hclose) pw hpw] at hframe
  cases hframe

theorem System.Accounted.count_eq_zero {s : System} (h : s.Accounted) {f : FrameID}
    {b : Broadcast} (hb : s.broadcasts[f]? = some b) (hreturned : b.Returned)
    (hended : ∀ p ∈ s.peers, p.Ended) : s.refs.count f = 0 := by
  rw [Multiset.count_eq_zero]
  intro hmem
  obtain ⟨p, hp, hf⟩ := mem_sum_map.mp hmem
  obtain ⟨n, hn⟩ := (hended p hp).exists_calling (h.drained p hp) hf
  obtain ⟨i, hi⟩ := List.mem_iff_getElem?.mp hp
  have hcall := (h.calls f i n).mp ⟨p, hi, hn⟩
  simp [callOf, hb, hreturned.2] at hcall

/-- **References are conserved.**  In a run that neither puts a frame behind the
drain of `Close` nor forgets one in `writeBatch`, a frame counts exactly the
references out, and none is left when its broadcast and all sessions are over. -/
theorem references_conserved (cfg : Nat → Config) (s : System)
    (h : (broadcasting cfg).Reaches System.KeepsRefs s) (f : FrameID) (b : Broadcast)
    (hb : s.broadcasts[f]? = some b) :
    b.frame.refs = ((b.todo.length + s.refs.count f : Nat) : Int) ∧
      (b.Returned → (∀ p ∈ s.peers, p.Ended) → b.frame.refs = 0) := by
  have hacc := System.accounted_of_reaches h
  refine ⟨hacc.count f b hb, ?_⟩
  intro hreturned hended
  rw [hacc.count f b hb, hreturned.1, hacc.count_eq_zero hb hreturned hended]
  rfl

/-! ### Three runs with two recipients -/

def pairConfig (_ : Nat) : Config := ⟨2, Nat.two_pos, 0, false, true⟩

/-- Two sessions with their write loops, and a broadcast to both. -/
def twoSessions : List Action :=
  [.accept, .accept, .peer 0 .loopStart, .peer 1 .loopStart, .broadcast [7] [0, 1]]

/-- `SendShared` of the next recipient, up to the `select` of `enqueue`. -/
def upToSelect (i : Nat) : List Action :=
  [.sendShared 0, .peer i (.sender 0 .put), .peer i (.sender 0 .put)]

/-- The `select` takes the channel send and the call returns to `Broadcast`. -/
def putShared (i : Nat) : List Action := [.peer i (.sender 0 .put), .sharedReturned 0]

def closeIdle (i : Nat) : List Action :=
  [.peer i .closeStore, .peer i .closeCancel, .peer i .closeDrain, .peer i .closeConn,
   .peer i .loopCtxDone, .peer i .loopEnd]

def writeNext (i : Nat) : List Action :=
  [.peer i .loopRecv, .peer i (.setDeadline true), .peer i (.writeOne true)]

/-- The second recipient writes the frame and ends. -/
def secondRecipient : List Action := upToSelect 1 ++ putShared 1 ++ writeNext 1 ++ closeIdle 1

/-- All is over, and this is the count of the frame. -/
def System.EndsWith (s : System) (refs : Int) : Prop :=
  (∀ p ∈ s.peers, p.Ended) ∧ ∃ b ∈ s.broadcasts[0]?, b.Returned ∧ b.frame.refs = refs

instance (s : System) (refs : Int) : Decidable (s.EndsWith refs) :=
  inferInstanceAs (Decidable (_ ∧ _))

/-- The first recipient closes with the frame in its queue and drains it. -/
def drainedRun : List Action :=
  twoSessions ++ upToSelect 0 ++ putShared 0 ++ [.peer 0 .closeStore, .peer 0 .closeCancel,
    .peer 0 .closeDrain, .peer 0 .closeDrain, .peer 0 .closeConn, .peer 0 .loopCtxDone,
    .peer 0 .loopEnd] ++ secondRecipient

theorem references_conserved_drainedRun :
    ∃ s b, (broadcasting pairConfig).Reaches System.KeepsRefs s ∧ s.broadcasts[0]? = some b ∧
      b.Returned ∧ (∀ p ∈ s.peers, p.Ended) ∧ s.peers.length = 2 ∧ b.frame.refs = 0 := by
  have hrun : ((broadcasting pairConfig).runIf System.KeepsRefs ⟨[], []⟩ drainedRun).map
      (fun s => decide (s.EndsWith 0 ∧ s.peers.length = 2)) = some true := by decide +kernel
  obtain ⟨s, hreach, hdec⟩ := Machine.exists_reaches hrun rfl
  obtain ⟨⟨hended, b, hb, hreturned, _⟩, hlen⟩ := of_decide_eq_true hdec
  exact ⟨s, b, hreach, hb, hreturned, hended, hlen,
    (references_conserved pairConfig s hreach 0 b hb).2 hreturned hended⟩

/-- The first recipient is closed, drained and ended while its `SendShared`
stands at the `select`, which then takes the channel send. -/
theorem late_put_pins_frame :
    ∃ s, (broadcasting pairConfig).Reachable s ∧ s.EndsWith 1 := by
  have hrun : ((broadcasting pairConfig).run ⟨[], []⟩ (twoSessions ++ upToSelect 0 ++ closeIdle 0 ++
      putShared 0 ++ secondRecipient)).map (fun s => decide (s.EndsWith 1)) = some true := by
    decide +kernel
  obtain ⟨s, hreach, hdec⟩ := Machine.exists_reachable hrun rfl
  exact ⟨s, hreach, of_decide_eq_true hdec⟩

/-- The first recipient is closed with the frame in the hand of its write loop,
and `SetWriteDeadline` fails on the closed connection. -/
theorem failed_deadline_pins_frame : ∃ s, (broadcasting pairConfig).Reachable s ∧ s.EndsWith 1 := by
  have hrun : ((broadcasting pairConfig).run ⟨[], []⟩ (twoSessions ++ upToSelect 0 ++ putShared 0 ++
      [Action.peer 0 .loopRecv, .peer 0 .closeStore, .peer 0 .closeCancel, .peer 0 .closeDrain,
       .peer 0 .closeConn, .peer 0 (.setDeadline false), .peer 0 .loopEnd] ++
      secondRecipient)).map (fun s => decide (s.EndsWith 1)) = some true := by
    decide +kernel
  obtain ⟨s, hreach, hdec⟩ := Machine.exists_reachable hrun rfl
  exact ⟨s, hreach, of_decide_eq_true hdec⟩

end SharkSocket.Tcp
