import SharkSocket.Lib.Locks
import SharkSocket.Lib.Machine
import SharkSocket.Shared.Quota

/-!
# `shared/quota.go`: `PeerQuota` under concurrent calls

A call of `Acquire`, `Release` or `PeerCount` runs step by step: each access to the
atomic total and each lock operation is a step, and so is what is done to the map of a
shard while its lock is held.  `Total` is one load and changes nothing.

The low 128 bits of an address are its `As16`, and what is above tells apart the
addresses that have the same one.  The maps of the sixteen shards are one map here,
which a call touches only at its own address and under the lock of its shard.
-/

namespace SharkSocket.Shared

open Lib
open Std (ExtTreeMap)

def quotaShards : Nat := 16

/-- Byte `i` of `As16`, of which 15 is the lowest. -/
def as16 (ip : PeerIP) (i : Nat) : Nat := (ip.getD 0 >>> (8 * (15 - i))) % 256

def quotaShard (ip : PeerIP) : Fin quotaShards :=
  ⟨(as16 ip 15 + as16 ip 14 + as16 ip 13) % quotaShards, Nat.mod_lt _ (by decide)⟩

/-- `Acquire`: before `Lock`; before the peer's count is looked up; at the head of the
loop; before `CompareAndSwap`; before the count is stored; before `Unlock`. -/
inductive AcquirePc
  | lock
  | look
  | load (cur : Int)
  | cas (cur total : Int)
  | store (cur : Int)
  | unlock (r : QuotaReject)
  | returned (r : QuotaReject)
  deriving DecidableEq, Repr

/-- `Release`: before `Lock`; before the peer's count is changed; before `Unlock`; before
the total is. -/
inductive ReleasePc
  | lock
  | update
  | unlock
  | sub
  | returned
  deriving DecidableEq, Repr

inductive PeerCountPc
  | lock
  | read
  | unlock (n : Int)
  | returned (n : Int)
  deriving DecidableEq, Repr

inductive QuotaCall
  | acquire (ip : PeerIP) (pc : AcquirePc)
  | release (ip : PeerIP) (pc : ReleasePc)
  | peerCount (ip : PeerIP) (pc : PeerCountPc)
  deriving DecidableEq, Repr

namespace PeerQuota

def setTotal (q : PeerQuota) (total : Int) : PeerQuota := { q with total := total }

/-- The end of `Acquire`: only a valid address has a count. -/
def storePeer (q : PeerQuota) (ip : PeerIP) (n : Int) : PeerQuota :=
  match ip with
  | none => q
  | some a => { q with peers := q.peers.insert a n }

/-- The `switch` of `Release`. -/
def dropPeer (q : PeerQuota) (ip : PeerIP) : PeerQuota :=
  match ip with
  | none => q
  | some a =>
    if 1 < q.peerCount ip then { q with peers := q.peers.insert a (q.peerCount ip - 1) }
    else if q.peerCount ip = 1 then { q with peers := q.peers.erase a }
    else q

end PeerQuota

def AcquirePc.step (q : PeerQuota) (free : Bool) (ip : PeerIP) :
    AcquirePc → Option (PeerQuota × AcquirePc)
  | lock => if free then some (q, look) else none
  | look =>
    some (q, if ip.isSome ∧ 0 < q.maxPeer ∧ q.maxPeer ≤ q.peerCount ip then unlock .peerFull
      else load (q.peerCount ip))
  | load cur =>
    some (q, if 0 < q.maxTotal ∧ q.maxTotal ≤ q.total then unlock .full else cas cur q.total)
  | cas cur total =>
    some (if q.total = total then (q.setTotal (total + 1), store cur) else (q, load cur))
  | store cur => some (q.storePeer ip (cur + 1), unlock .ok)
  | unlock r => some (q, returned r)
  | returned _ => none

def ReleasePc.step (q : PeerQuota) (free : Bool) (ip : PeerIP) :
    ReleasePc → Option (PeerQuota × ReleasePc)
  | lock => if free then some (q, update) else none
  | update => some (q.dropPeer ip, unlock)
  | unlock => some (q, sub)
  | sub => some (q.setTotal (q.total - 1), returned)
  | returned => none

def PeerCountPc.step (q : PeerQuota) (free : Bool) (ip : PeerIP) : PeerCountPc → Option PeerCountPc
  | lock => if free then some read else none
  | read => some (unlock (q.peerCount ip))
  | unlock n => some (returned n)
  | returned _ => none

namespace QuotaCall

def step (q : PeerQuota) (free : Fin quotaShards → Bool) :
    QuotaCall → Option (PeerQuota × QuotaCall)
  | acquire ip pc => (pc.step q (free (quotaShard ip)) ip).map fun r => (r.1, acquire ip r.2)
  | release ip pc => (pc.step q (free (quotaShard ip)) ip).map fun r => (r.1, release ip r.2)
  | peerCount ip pc => (pc.step q (free (quotaShard ip)) ip).map fun pc => (q, peerCount ip pc)

def ip : QuotaCall → PeerIP
  | acquire ip _ | release ip _ | peerCount ip _ => ip

/-- The shard whose lock the call has. -/
def locks : QuotaCall → Option (Fin quotaShards)
  | acquire ip .look | acquire ip (.load _) | acquire ip (.cas _ _) | acquire ip (.store _)
  | acquire ip (.unlock _) | release ip .update | release ip .unlock | peerCount ip .read
  | peerCount ip (.unlock _) => some (quotaShard ip)
  | _ => none

def returned : QuotaCall → Bool
  | acquire _ (.returned _) | release _ .returned | peerCount _ (.returned _) => true
  | _ => false

end QuotaCall

structure QuotaCalls where
  quota : PeerQuota
  calls : List QuotaCall

inductive QuotaAct
  | acquire (ip : PeerIP)
  | release (ip : PeerIP)
  | peerCount (ip : PeerIP)
  | step (n : Nat)
  deriving DecidableEq, Repr

namespace QuotaCalls

variable (s : QuotaCalls)

def free (i : Fin quotaShards) : Bool :=
  decide (¬ Held QuotaCall.locks s.calls i)

def begin (c : QuotaCall) : QuotaCalls := { s with calls := s.calls ++ [c] }

def stepCall (n : Nat) : Option QuotaCalls :=
  match s.calls[n]? with
  | none => none
  | some c => (c.step s.quota s.free).map fun r => ⟨r.1, s.calls.set n r.2⟩

def step : QuotaAct → Option QuotaCalls
  | .acquire ip => some (s.begin (.acquire ip .lock))
  -- an address that was never counted has no lock to take
  | .release ip => some (s.begin (.release ip (if ip.isSome then .lock else .sub)))
  | .peerCount ip => some (s.begin (.peerCount ip .lock))
  | .step n => s.stepCall n

/-- No call is in progress. -/
def AtRest : Prop := ∀ c ∈ s.calls, c.returned = true

instance (s : QuotaCalls) : Decidable s.AtRest := List.decidableBAll _ _

end QuotaCalls

def quotaCalls (maxTotal maxPeer : Int) : Machine QuotaCalls QuotaAct where
  init s := s = ⟨.new maxTotal maxPeer, []⟩
  step := QuotaCalls.step

/-! ### What a step can do -/

namespace QuotaCall

variable (q : PeerQuota) (free : Fin quotaShards → Bool)

/-- Every transition of a call. -/
inductive Step : QuotaCall → PeerQuota → QuotaCall → Prop
  | enterAcquire {ip : PeerIP} (hfree : free (quotaShard ip) = true) :
    Step (.acquire ip .lock) q (.acquire ip .look)
  | peerFull {ip : PeerIP} : Step (.acquire ip .look) q (.acquire ip (.unlock .peerFull))
  | peerRoom {ip : PeerIP} (hroom : ¬ (ip.isSome ∧ 0 < q.maxPeer ∧ q.maxPeer ≤ q.peerCount ip)) :
    Step (.acquire ip .look) q (.acquire ip (.load (q.peerCount ip)))
  | full {ip : PeerIP} {cur : Int} : Step (.acquire ip (.load cur)) q (.acquire ip (.unlock .full))
  | room {ip : PeerIP} {cur : Int} (hroom : ¬ (0 < q.maxTotal ∧ q.maxTotal ≤ q.total)) :
    Step (.acquire ip (.load cur)) q (.acquire ip (.cas cur q.total))
  | claim {ip : PeerIP} {cur : Int} :
    Step (.acquire ip (.cas cur q.total)) (q.setTotal (q.total + 1)) (.acquire ip (.store cur))
  | retry {ip : PeerIP} {cur total : Int} :
    Step (.acquire ip (.cas cur total)) q (.acquire ip (.load cur))
  | store {ip : PeerIP} {cur : Int} :
    Step (.acquire ip (.store cur)) (q.storePeer ip (cur + 1)) (.acquire ip (.unlock .ok))
  | leaveAcquire {ip : PeerIP} {r : QuotaReject} :
    Step (.acquire ip (.unlock r)) q (.acquire ip (.returned r))
  | enterRelease {ip : PeerIP} (hfree : free (quotaShard ip) = true) :
    Step (.release ip .lock) q (.release ip .update)
  | update {ip : PeerIP} : Step (.release ip .update) (q.dropPeer ip) (.release ip .unlock)
  | leaveRelease {ip : PeerIP} : Step (.release ip .unlock) q (.release ip .sub)
  | sub {ip : PeerIP} : Step (.release ip .sub) (q.setTotal (q.total - 1)) (.release ip .returned)
  | enterCount {ip : PeerIP} (hfree : free (quotaShard ip) = true) :
    Step (.peerCount ip .lock) q (.peerCount ip .read)
  | read {ip : PeerIP} {n : Int} : Step (.peerCount ip .read) q (.peerCount ip (.unlock n))
  | leaveCount {ip : PeerIP} {n : Int} :
    Step (.peerCount ip (.unlock n)) q (.peerCount ip (.returned n))

variable {q q' : PeerQuota} {free : Fin quotaShards → Bool} {c c' : QuotaCall}

theorem step_acquire {ip : PeerIP} {pc pc' : AcquirePc}
    (h : pc.step q (free (quotaShard ip)) ip = some (q', pc')) :
    Step q free (.acquire ip pc) q' (.acquire ip pc') := by
  cases pc with
  | lock =>
    simp only [AcquirePc.step] at h
    split at h
    · cases h
      exact .enterAcquire ‹_›
    · cases h
  | look =>
    cases h
    split
    · exact .peerFull
    · exact .peerRoom ‹_›
  | load cur =>
    cases h
    split
    · exact .full
    · exact .room ‹_›
  | cas cur total =>
    simp only [AcquirePc.step] at h
    split at h
    · rename_i htotal
      subst htotal
      cases h
      exact .claim
    cases h
    exact .retry
  | store cur =>
    cases h
    exact .store
  | unlock r =>
    cases h
    exact .leaveAcquire
  | returned r => cases h

theorem step_release {ip : PeerIP} {pc pc' : ReleasePc}
    (h : pc.step q (free (quotaShard ip)) ip = some (q', pc')) :
    Step q free (.release ip pc) q' (.release ip pc') := by
  cases pc with
  | lock =>
    simp only [ReleasePc.step] at h
    split at h
    · cases h
      exact .enterRelease ‹_›
    · cases h
  | update =>
    cases h
    exact .update
  | unlock =>
    cases h
    exact .leaveRelease
  | sub =>
    cases h
    exact .sub
  | returned => cases h

theorem step_peerCount {ip : PeerIP} {pc pc' : PeerCountPc}
    (h : pc.step q (free (quotaShard ip)) ip = some pc') :
    Step q free (.peerCount ip pc) q (.peerCount ip pc') := by
  cases pc with
  | lock =>
    simp only [PeerCountPc.step] at h
    split at h
    · cases h
      exact .enterCount ‹_›
    · cases h
  | read =>
    cases h
    exact .read
  | unlock n =>
    cases h
    exact .leaveCount
  | returned n => cases h

theorem step_cases (h : c.step q free = some (q', c')) : Step q free c q' c' := by
  cases c with
  | acquire ip pc =>
    obtain ⟨⟨q1, pc1⟩, hpc, heq⟩ := Option.map_eq_some_iff.mp h
    cases heq
    exact step_acquire hpc
  | release ip pc =>
    obtain ⟨⟨q1, pc1⟩, hpc, heq⟩ := Option.map_eq_some_iff.mp h
    cases heq
    exact step_release hpc
  | peerCount ip pc =>
    obtain ⟨pc1, hpc, heq⟩ := Option.map_eq_some_iff.mp h
    cases heq
    exact step_peerCount hpc

/-- A call takes a lock only when it is free. -/
theorem Step.locks (h : Step q free c q' c') (i : Fin quotaShards) (hi : c'.locks = some i) :
    c.locks = some i ∨ free i = true := by
  cases h with
  | enterAcquire hfree | enterRelease hfree | enterCount hfree =>
    cases hi
    exact .inr hfree
  | _ => first | exact .inl hi | cases hi

end QuotaCall

/-- The ways in which a call begins. -/
def QuotaCall.fresh : QuotaCall → Bool
  | acquire _ .lock | release (some _) .lock | release none .sub | peerCount _ .lock => true
  | _ => false

namespace QuotaCalls

variable {s t : QuotaCalls}

inductive Step (s : QuotaCalls) : QuotaAct → QuotaCalls → Prop
  | acquire (ip : PeerIP) : Step s (.acquire ip) (s.begin (.acquire ip .lock))
  | release {ip : PeerIP} {pc : ReleasePc} (hfresh : (QuotaCall.release ip pc).fresh = true) :
    Step s (.release ip) (s.begin (.release ip pc))
  | peerCount (ip : PeerIP) : Step s (.peerCount ip) (s.begin (.peerCount ip .lock))
  | call {n : Nat} {c c' : QuotaCall} {q : PeerQuota} (hc : s.calls[n]? = some c)
    (hstep : c.Step s.quota s.free q c') : Step s (.step n) ⟨q, s.calls.set n c'⟩

theorem step_cases {a : QuotaAct} (h : s.step a = some t) : Step s a t := by
  cases a with
  | acquire ip =>
    cases h
    exact .acquire ip
  | release ip =>
    cases h
    cases ip <;> exact .release rfl
  | peerCount ip =>
    cases h
    exact .peerCount ip
  | step n =>
    simp only [step, stepCall] at h
    split at h
    · cases h
    rename_i c hc
    obtain ⟨⟨q, c'⟩, hstep, rfl⟩ := Option.map_eq_some_iff.mp h
    exact .call hc (QuotaCall.step_cases hstep)

end QuotaCalls

end SharkSocket.Shared
