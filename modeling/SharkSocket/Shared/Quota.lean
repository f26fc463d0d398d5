import SharkSocket.Core

/-!
# `shared/quota.go`: `PeerQuota`

A slot is taken in the global count and in the count of the peer's address, or
in neither.  An address the transport could not attribute is `none` and counts
only globally.  The sixteen shards only spread the lock over the addresses, so
the per-peer counts are one map here.
-/

namespace SharkSocket.Shared

open Std (ExtTreeMap)

/-- A normalised `netip.Addr`; the invalid one is `none`. -/
abbrev PeerIP := Option Nat

inductive QuotaReject
  | ok
  | full
  | peerFull
  deriving DecidableEq, Repr

structure PeerQuota where
  maxTotal : Int
  maxPeer : Int
  total : Int
  peers : ExtTreeMap Nat Int

namespace PeerQuota

variable (q : PeerQuota)

def new (maxTotal maxPeer : Int) : PeerQuota := ⟨maxTotal, maxPeer, 0, ∅⟩

def peerCount : PeerIP → Int
  | none => 0
  | some ip => q.peers[ip]?.getD 0

def acquire (ip : PeerIP) : QuotaReject × PeerQuota :=
  if ip.isSome ∧ 0 < q.maxPeer ∧ q.maxPeer ≤ q.peerCount ip then (.peerFull, q)
  else if 0 < q.maxTotal ∧ q.maxTotal ≤ q.total then (.full, q)
  else
    (.ok, { q with
      total := q.total + 1
      peers := match ip with
        | none => q.peers
        | some a => q.peers.insert a (q.peerCount ip + 1) })

def tryAcquire (ip : PeerIP) : Bool × PeerQuota :=
  let r := q.acquire ip
  (r.1 = .ok, r.2)

def release (ip : PeerIP) : PeerQuota :=
  { q with
    total := q.total - 1
    peers := match ip with
      | none => q.peers
      | some a =>
        if 1 < q.peerCount ip then q.peers.insert a (q.peerCount ip - 1)
        else if q.peerCount ip = 1 then q.peers.erase a
        else q.peers }

/-- A slot is granted below the limit, and counted. -/
theorem tryAcquire_true {q r : PeerQuota} {ip : PeerIP} (h : q.tryAcquire ip = (true, r)) :
    r.total = q.total + 1 ∧ r.maxTotal = q.maxTotal ∧ (0 < q.maxTotal → q.total < q.maxTotal) := by
  unfold tryAcquire acquire at h
  split at h
  · simp at h
  split at h
  · simp at h
  rw [Prod.mk.injEq] at h
  rw [← h.2]
  exact ⟨rfl, rfl, fun hmax => by omega⟩

end PeerQuota

end SharkSocket.Shared
