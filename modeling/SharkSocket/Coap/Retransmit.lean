import SharkSocket.Core

/-!
# `coap/retransmit.go`: when a notification is sent again

Times and durations are nanoseconds, as in Go's `time` package.
-/

namespace SharkSocket.Coap

def second : Int := 1000000000

def ackTimeout : Int := 2 * second
def ackTimeoutSpread : Int := ackTimeout / 2
def maxRetransmit : Nat := 4

def initialRetransmitTimeout (draw : Int) : Int :=
  let draw := if draw < 0 then 0 else draw
  ackTimeout + draw % ackTimeoutSpread

structure PendingNotify where
  data : Bytes
  token : Bytes
  attempts : Nat
  timeout : Int
  deadline : Int
  deriving DecidableEq, Repr

inductive RetransmitAction
  | wait
  | send
  | giveUp
  deriving DecidableEq, Repr

namespace PendingNotify

def decide (pn : PendingNotify) (now : Int) : RetransmitAction :=
  if now < pn.deadline then .wait
  else if maxRetransmit ≤ pn.attempts then .giveUp
  else .send

/-- The entry after a transmission at `now`: the timeout doubles, and the next
deadline counts from the last one unless that lies in the past already. -/
def advance (pn : PendingNotify) (now : Int) : PendingNotify :=
  let timeout := pn.timeout * 2
  let next := pn.deadline + timeout
  { pn with
    attempts := pn.attempts + 1
    timeout := timeout
    deadline := if next < now then now + timeout else next }

end PendingNotify

end SharkSocket.Coap
