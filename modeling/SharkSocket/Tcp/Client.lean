import SharkSocket.Lib.Machine
import SharkSocket.Lib.Pool

/-!
# `tcp/client.go`: the connections of a `Client`

`Connect` dials and shakes hands without the lock, swaps the new connection in and closes
what it swapped out; `Close` swaps in nothing.  The calls may run side by side, and every
connection that was dialled is in one place: it was closed, or it is the client's, or a
call has it (`Placed`).
-/

namespace SharkSocket.Tcp

open Lib

/-- Where a call stands; connections are numbered as they are dialled. -/
inductive ClientCall
  | dialing
  | handshaking (conn : Nat)
  /-- Before the lock, with what goes into `c.conn`. -/
  | swapping (conn : Option Nat)
  /-- With a connection to close: what was in `c.conn`, or a failed handshake's. -/
  | closing (prev : Option Nat)
  | returned
  deriving DecidableEq, Repr

structure Client where
  /-- `tlsConfig != nil` -/
  tls : Bool
  conn : Option Nat
  dialled : Nat
  closed : List Nat
  calls : List ClientCall
  deriving DecidableEq, Repr

inductive ClientAct
  | connect
  | close
  /-- A call goes on; `ok` is the outcome of its dial or handshake. -/
  | go (n : Nat) (ok : Bool)
  deriving DecidableEq, Repr

def Client.step (c : Client) : ClientAct → Option Client
  | .connect => some { c with calls := c.calls ++ [.dialing] }
  | .close => some { c with calls := c.calls ++ [.swapping none] }
  | .go n ok =>
    match c.calls[n]? with
    | some .dialing =>
      if ok then
        let conn := c.dialled
        some { c with dialled := conn + 1, calls := c.calls.set n (.handshaking conn) }
      else some { c with calls := c.calls.set n .returned }
    | some (.handshaking conn) =>
      let failed := c.tls && !ok
      some { c with calls := c.calls.set n (if failed then .closing conn else .swapping conn) }
    | some (.swapping conn) =>
      some { c with conn := conn, calls := c.calls.set n (.closing c.conn) }
    | some (.closing prev) =>
      some { c with closed := c.closed ++ prev.toList, calls := c.calls.set n .returned }
    | some .returned | none => none

def client : Machine Client ClientAct where
  init c := c.conn = none ∧ c.dialled = 0 ∧ c.closed = [] ∧ c.calls = []
  step := Client.step

/-- The connection a call has. -/
def ClientCall.holds : ClientCall → Option Nat
  | .dialing | .returned => none
  | .handshaking conn => some conn
  | .swapping conn | .closing conn => conn

def Placed (c : Client) : Prop :=
  ∀ i, c.closed.count i + (held c.conn).count i + (holdings ClientCall.holds c.calls).count i =
    (Multiset.range c.dialled).count i

namespace Placed

variable {c : Client}

/-- A call that goes on moves connections between the places. -/
theorem go (h : Placed c) {n : Nat} {call : ClientCall} (hn : c.calls[n]? = some call)
    (call' : ClientCall) {conn : Option Nat} {closed : List Nat} {dialled : Nat}
    (hmove : ∀ i, closed.count i + (held conn).count i + (held call'.holds).count i +
      (Multiset.range c.dialled).count i = c.closed.count i + (held c.conn).count i +
        (held call.holds).count i + (Multiset.range dialled).count i) :
    Placed ⟨c.tls, conn, dialled, closed, c.calls.set n call'⟩ := by
  intro i
  have hset := congrArg (Multiset.count i) (holdings_set ClientCall.holds hn call')
  simp only [Multiset.count_add] at hset
  have hbefore := h i
  have hi := hmove i
  dsimp only
  omega

theorem step (h : Placed c) {a : ClientAct} {c' : Client} (hst : c.step a = some c') : Placed c' := by
  cases a with
  | connect | close =>
    cases hst
    intro i
    rw [holdings_concat, Multiset.count_add]
    exact h i
  | go n ok =>
    simp only [Client.step] at hst
    split at hst
    · rename_i hn
      cases ok <;> cases hst
      · exact h.go hn .returned fun _ => rfl
      · refine h.go hn _ fun i => ?_
        simp only [ClientCall.holds, count_held, Multiset.range_succ, Multiset.count_cons, if_false,
          reduceCtorEq, Option.some.injEq, eq_comm]
        omega
    · rename_i conn hn
      cases hst
      exact h.go hn _ fun i => by split <;> rfl
    · rename_i conn hn
      cases hst
      exact h.go hn _ fun i => congrArg (· + _) (add_right_comm _ _ _)
    · rename_i prev hn
      cases hst
      refine h.go hn _ fun i => ?_
      have hprev : (held prev).count i = prev.toList.count i := Multiset.coe_count ..
      simp only [ClientCall.holds, held_none, Multiset.count_zero, List.count_append, hprev]
      omega
    · cases hst
    · cases hst

theorem of_reachable (hc : client.Reachable c) : Placed c := by
  refine hc.inv ?_ fun _ _ _ h _ hst => h.step hst
  rintro ⟨tls, conn, dialled, closed, calls⟩ ⟨rfl, rfl, rfl, rfl⟩ i
  rfl

end Placed

/-- **No connection leaks and none is closed twice**, however the calls of `Connect` and
`Close` interleave: a connection is closed at most once, the client's is not closed, and
when all calls have returned every other one has been closed. -/
theorem connections_closed_once (c : Client) (hc : client.Reachable c) :
    (∀ i, c.closed.count i + (if c.conn = some i then 1 else 0) ≤ 1) ∧
    ((∀ call ∈ c.calls, call = .returned) →
      ∀ i < c.dialled, c.conn ≠ some i → c.closed.count i = 1) := by
  have hplaced := Placed.of_reachable hc
  simp only [Placed, count_held] at hplaced
  have hnodup := Multiset.nodup_range c.dialled
  refine ⟨fun i => ?_, fun hrest i hi hconn => ?_⟩
  · have hle := Multiset.nodup_iff_count_le_one.mp hnodup i
    have h := hplaced i
    omega
  · have h := hplaced i
    have hnone : i ∉ holdings ClientCall.holds c.calls := by
      rw [mem_holdings]
      rintro ⟨call, hcall, hholds⟩
      rw [hrest call hcall] at hholds
      cases hholds
    rwa [if_neg hconn, Multiset.count_eq_zero_of_notMem hnone,
      Multiset.count_eq_one_of_mem hnodup (Multiset.mem_range.mpr hi)] at h

/-- Two `Connect` calls and a `Close` cross one another. -/
theorem connections_closed_once_crossing :
    ∃ c, client.Reachable c ∧ c.conn = some 1 ∧ c.dialled = 2 ∧ c.closed.count 0 = 1 := by
  have hrun : client.run ⟨false, none, 0, [], []⟩ [.connect, .connect, .close, .go 0 true,
      .go 1 true, .go 0 true, .go 0 true, .go 1 true, .go 2 true, .go 1 true, .go 2 true,
      .go 0 true, .go 1 true] = some ⟨false, some 1, 2, [0], List.replicate 3 .returned⟩ := by
    decide
  have hc := client.reachable_of_run _ ⟨rfl, rfl, rfl, rfl⟩ hrun
  have hclosed := (connections_closed_once _ hc).2 (by decide)
  exact ⟨_, hc, rfl, rfl, hclosed 0 (by decide) (by decide)⟩

end SharkSocket.Tcp
