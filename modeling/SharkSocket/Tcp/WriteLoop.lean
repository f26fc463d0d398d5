import SharkSocket.Tcp.Session

/-!
# The receive inside `writeBatch`

`writeBatch` tests `len(writeCh) > 0` and then receives without a `select`.
That is safe as long as nobody else takes the entry it saw.  `Close` does: its
drain receives from the same channel.

A peer is *starved* when its write loop stands at that receive and the queue is
empty, and *hung* when moreover the session is closed and no sender is left that
could still put an entry into the queue.

* `starves_iff`: exactly one step starves a loop that is not starved, the drain
  taking the last entry while the loop is at the receive;
* `not_hung_of_sparesLast`: a run without that step never reaches a hung peer;
* `hung_forever`: a hung peer stays hung, so `writeLoop` never ends;
* `drain_takes_last`: two sends and a `Close` get there.
-/

namespace SharkSocket.Tcp

open Lib

def Peer.Starved (p : Peer) : Prop := p.loop = .receive ∧ p.queue = []

def Peer.Hung (p : Peer) : Prop :=
  p.state = .closed ∧ p.queue = [] ∧ (∀ c ∈ p.senders, ¬ c.pc.pastCheck) ∧ p.loop = .receive

instance (p : Peer) : Decidable p.Hung := inferInstanceAs (Decidable (_ ∧ _ ∧ _ ∧ _))

/-- The drain does not take the last entry from a loop that has seen it. -/
def SparesLast (p : Peer) (a : Act) : Prop :=
  a = .closeDrain → p.close = .draining → p.loop = .receive → p.queue.length ≠ 1

instance (p : Peer) (a : Act) : Decidable (SparesLast p a) :=
  inferInstanceAs (Decidable (_ → _ → _ → _))

variable {cfg : Config} {p q : Peer} {a : Act} {r : Option FrameID}

/-- **Only the drain starves the loop.** -/
theorem starves_iff (h : Peer.Step cfg p a q r) (hp : ¬ p.Starved) :
    q.Starved ↔ ¬ SparesLast p a := by
  unfold Peer.Starved at hp ⊢
  unfold SparesLast
  cases h with
  | drainOne hc hq =>
    rw [hq]
    simp [hc, List.length_eq_zero_iff]
  | drainEnd hc hq => simpa [hq] using hp
  | loopRecv hl hq hpc => rcases hpc with rfl | rfl <;> simp
  | checkLen hl hpc =>
    rcases hpc with ⟨hq, rfl⟩ | ⟨_, rfl⟩
    · simp [hq]
    · simp
  | writeOne hl hpc => rcases hpc with rfl | rfl | rfl <;> simp
  | flush hl hpc => rcases hpc with rfl | rfl <;> simp
  | put => simp
  | call | move => simpa [Peer.setSender] using hp
  | closeStore | closeCancel | closeConn => simpa using hp
  | loopStart | loopCtxDone | setDeadline | deadlineFailed | recv | loopEnd => simp

theorem not_starved_of_sparesLast (h : (session cfg).Reaches SparesLast p) : ¬ p.Starved := by
  refine h.inv (I := fun p => ¬ p.Starved) ?_ ?_
  · rintro p rfl ⟨hl, _⟩
    cases hl
  · intro p a q hp hok hs
    obtain ⟨r, hstep⟩ := session_step hs
    rw [starves_iff hstep hp]
    exact not_not_intro hok

/-- **A write loop that keeps its last entry never hangs**, whatever else the
senders, the loop and `Close` do. -/
theorem not_hung_of_sparesLast (cfg : Config) (p : Peer)
    (h : (session cfg).Reaches SparesLast p) : ¬ p.Hung := by
  rintro ⟨_, hq, _, hl⟩
  exact not_starved_of_sparesLast h ⟨hl, hq⟩

/-! ### Two sends and a `Close` -/

/-- `WithWriteQueue(2)`, `WithWriteBufferBytes`, no write timeout. -/
def bufferedConfig : Config := ⟨2, Nat.two_pos, 0, true, false⟩

/-- A `Send` that goes through: its checks, then the channel send. -/
def sendOf (n : Nat) (payload : Bytes) : List Act :=
  [.call ⟨payload, none⟩, .sender n .put, .sender n .put, .sender n .put, .sender n .put]

/-- The loop writes the first entry, sees the second and stands at its receive. -/
def upToReceive : List Act :=
  [.loopStart] ++ sendOf 0 [1] ++ [.loopRecv, .writeOne true] ++ sendOf 1 [2] ++ [.checkLen]

def closedBehindReceive : List Act := upToReceive ++ [.closeStore, .closeCancel]

theorem not_hung_closedBehindReceive :
    ∃ p, (session bufferedConfig).Reaches SparesLast p ∧ p.state = .closed ∧
      p.loop = .receive ∧ ¬ p.Hung := by
  have hrun : ((session bufferedConfig).runIf SparesLast .new closedBehindReceive).map
      (fun p => (p.state, p.loop)) = some (.closed, .receive) := by decide +kernel
  obtain ⟨p, hreach, heq⟩ := Machine.exists_reaches hrun rfl
  rw [Prod.mk.injEq] at heq
  exact ⟨p, hreach, heq.1, heq.2, not_hung_of_sparesLast bufferedConfig p hreach⟩

/-- The drain of `Close` takes the entry the loop has seen. -/
theorem drain_takes_last :
    ∃ p, (session bufferedConfig).Reachable p ∧ bufferedConfig.buffered = true ∧ p.Hung := by
  have hrun : ((session bufferedConfig).run .new (closedBehindReceive ++ [.closeDrain])).map
      (fun p => decide p.Hung) = some true := by decide +kernel
  obtain ⟨p, hreach, hhung⟩ := Machine.exists_reachable hrun rfl
  exact ⟨p, hreach, rfl, of_decide_eq_true hhung⟩

/-! ### A hung write loop stays hung -/

theorem hung_step (h : Peer.Step cfg p a q r) (hp : p.Hung) : q.Hung := by
  obtain ⟨hs, hq, hc, hl⟩ := hp
  have hne : ∀ {n : Nat} {c : Sender}, p.senders[n]? = some c → ¬ c.pc.pastCheck :=
    fun hn => hc _ (List.mem_of_getElem? hn)
  cases h with
  | call entry => exact ⟨hs, hq, forall_mem_concat hc (by simp [SenderPc.pastCheck]), hl⟩
  | @move n pick c pc hn hold hpc =>
    refine ⟨hs, hq, forall_mem_set hc ?_, hl⟩
    rcases hpc with ⟨e, rfl⟩ | ⟨_, hact | hpast⟩
    · simp [SenderPc.pastCheck]
    · rw [hs] at hact
      cases hact
    · exact absurd hpast (hne hn)
  | put hn hpc => exact absurd (.inr (.inr hpc)) (hne hn)
  | recv _ hq' | drainOne _ hq' => rw [hq] at hq'; cases hq'
  | closeStore => exact ⟨rfl, hq, hc, hl⟩
  | closeCancel | drainEnd | closeConn => exact ⟨hs, hq, hc, hl⟩
  | loopStart hl' | loopCtxDone hl' | setDeadline hl' | deadlineFailed hl' | loopEnd hl' =>
    rw [hl] at hl'; cases hl'
  | loopRecv hl' | writeOne hl' | checkLen hl' | flush hl' => rw [hl] at hl'; cases hl'

theorem hung_forever {as : List Act} (h : (session cfg).run p as = some q) (hp : p.Hung) :
    q.Hung := by
  refine (Machine.path_true_iff_run.mpr h).inv ?_ hp
  intro p a q hp _ hs
  obtain ⟨r, hstep⟩ := session_step hs
  exact hung_step hstep hp

/-- The drain ends and the connection is closed. -/
theorem hung_forever_closed : ∃ p q : Peer, p.Hung ∧
    (session bufferedConfig).run p [.closeDrain, .closeConn] = some q ∧ q.Hung := by
  have hrun : ((session bufferedConfig).run .new (closedBehindReceive ++ [.closeDrain])).map
      (fun p => decide (p.Hung ∧ ((session bufferedConfig).run p
        [.closeDrain, .closeConn]).isSome)) = some true := by decide +kernel
  obtain ⟨p, -, hp⟩ := Option.map_eq_some_iff.mp hrun
  obtain ⟨hhung, hsome⟩ := of_decide_eq_true hp
  obtain ⟨q, hq⟩ := Option.isSome_iff_exists.mp hsome
  exact ⟨p, q, hhung, hq, hung_forever hq hhung⟩

end SharkSocket.Tcp
