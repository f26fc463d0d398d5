import SharkSocket.Coap.Server

/-!
# `coap/server.go`: the loops around `handleCoAPMessage`

An `Input` is one iteration of one of the server's loops or one call from the
application.  `Turn.serve` runs it: `deliver` does what comes before
`handleCoAPMessage` and says which call of it follows, if any.

A run is a list of inputs with their times; `stateAfter` is the server at its
end, and a `Record` is one input together with the server it met.
-/

namespace SharkSocket.Coap

open Lib
open SharkSocket.Runtime (SessionManager)
open SharkSocket.Shared (PeerIP PeerQuota)
open Std (ExtTreeMap)

/-- `NewServer`, with what `UseRuntime` and `Start` add to it. -/
def Server.new (manager : SessionManager) (quota : Option PeerQuota) : Server where
  peers := ∅
  conns := ∅
  dtlsConns := ∅
  state := fun _ => .active
  activeAt := fun _ => 0
  manager := manager
  quota := quota
  seen := ∅
  observers := .new
  pendingNotifies := ∅
  lastMsgID := 0

variable (cfg : Config) (w : World) (now : Int) (t : Turn)

namespace Turn

def touch (now : Int) (sess : Session) : Turn :=
  { t with srv := { t.srv with activeAt := Function.update t.srv.activeAt sess.id now } }

def takeID : UInt64 × Turn :=
  let r := t.srv.manager.takeID
  (r.1, { t with srv := { t.srv with manager := r.2 } })

def tryAcquire (ip : PeerIP) : Bool × Turn :=
  match t.srv.quota with
  | none => (true, t)
  | some q =>
    let r := q.tryAcquire ip
    (r.1, { t with srv := { t.srv with quota := some r.2 } })

/-- `rt.Sessions().Register`: `false` when the manager refused. -/
def register (sess : Session) : Bool × Turn :=
  match t.srv.manager.register (some ⟨sess.id, false⟩) with
  | .error _ => (false, t)
  | .ok m => (true, { t with srv := { t.srv with manager := m } })

/-- `rt.Plugins().OnAccept`: `false` when a plugin refused. -/
def onAccept (sess : Session) : Bool × Turn :=
  match w.onAccept with
  | some _ => (false, t.closeIf w.acceptCloses sess)
  | none => (true, (t.emit (.onAccept sess.id)).closeIf w.acceptCloses sess)

/-! ### Plain UDP -/

def storePeer (now : Int) (sess : Session) : Turn :=
  { t with srv := { t.srv with
    peers := t.srv.peers.insert sess.remote sess
    state := Function.update t.srv.state sess.id .active
    activeAt := Function.update t.srv.activeAt sess.id now } }

/-- The session is in the table and still has to be registered and accepted. -/
def admitPeer (sess : Session) : Option Session × Turn :=
  match t.register sess with
  | (false, t) => (none, (t.delete (.peer sess.remote)).close sess)
  | (true, t) =>
    match t.onAccept w sess with
    | (true, t) => (some sess, t)
    | (false, t) =>
      if t.has (.peer sess.remote) then
        (none, ((t.delete (.peer sess.remote)).unregister sess).close sess)
      else (none, t)

def createUDPSession (remote : Bytes) (ip : PeerIP) : Option Session × Turn :=
  match t.tryAcquire ip with
  | (false, t) => (none, t)
  | (true, t) =>
    let r := t.takeID
    let sess : Session := ⟨r.1, remote, ip, false⟩
    match r.2.srv.peers[remote]? with
    | some actual => (some actual, r.2.close sess)
    | none => (r.2.storePeer now sess).admitPeer w sess

def getOrCreateUDPSession (remote : Bytes) (ip : PeerIP) : Option Session × Turn :=
  match t.srv.peers[remote]? with
  | none => t.createUDPSession w now remote ip
  | some sess =>
    match t.srv.state sess.id with
    | .active => (some sess, t)
    | .closed => (t.closeSession (.peer remote) sess).2.createUDPSession w now remote ip

/-! ### DTLS -/

def forgetConn (sess : Session) : Turn :=
  { t with srv := { t.srv with dtlsConns := t.srv.dtlsConns.erase sess.id } }

/-- The deferred cleanup of `handleDTLSConn`. -/
def endDTLSConn (accepted : Bool) (sess : Session) : Turn :=
  let u := ((t.close sess).forgetConn sess).removeBySession sess.remote
  if u.has (.conn sess.id) then
    let v := (u.delete (.conn sess.id)).unregister sess
    if accepted then v.emit (.onClose sess.id) else v
  else u

def storeConn (now : Int) (sess : Session) : Turn :=
  { t with srv := { t.srv with
    conns := t.srv.conns.insert sess.id sess
    dtlsConns := t.srv.dtlsConns.insert sess.id sess
    state := Function.update t.srv.state sess.id .active
    activeAt := Function.update t.srv.activeAt sess.id now } }

def startDTLSConn (remote : Bytes) (ip : PeerIP) : Turn :=
  let r := t.takeID
  let sess : Session := ⟨r.1, remote, ip, true⟩
  match (r.2.storeConn now sess).register sess with
  | (false, t) => (t.close sess).endDTLSConn false sess
  | (true, t) =>
    match t.onAccept w sess with
    | (false, t) => (t.close sess).endDTLSConn false sess
    | (true, t) => t

/-! ### The session sweep, and `retransmitDue` -/

def lookup : SessionKey → Option Session
  | .peer remote => t.srv.peers[remote]?
  | .conn id => t.srv.conns[id]?

/-- One entry of the walk in `sweepLoop`. -/
def sweepEntry (key : SessionKey) : Turn :=
  match t.lookup key with
  | none => t
  | some sess =>
    if t.srv.observers.hasObservers sess.remote then t
    else if cfg.sessionTTL < now - t.srv.activeAt sess.id then (t.closeSession key sess).2
    else t

/-- One entry of the walk in `CloseSessions`. -/
def closeEntry (key : SessionKey) : Turn :=
  match t.lookup key with
  | none => t
  | some sess => (t.closeSession key sess).2

/-- What `retransmitDue` found under the lock. -/
structure Due where
  keys : List ExchangeKey
  abandoned : List (Bytes × Bytes)

def scanEntry (st : Due × Turn) (entry : ExchangeKey × PendingNotify) : Due × Turn :=
  match entry.2.decide now with
  | .wait => st
  | .giveUp =>
    ({ st.1 with abandoned := st.1.abandoned ++ [(entry.1.remote, entry.2.token)] },
      st.2.untrackNotify entry.1)
  | .send => ({ st.1 with keys := st.1.keys ++ [entry.1] }, st.2)

def retransmitScan (walk : WalkOrder (ExchangeKey × PendingNotify)) (now : Int) (t : Turn) :
    Due × Turn :=
  (walk.order t.srv.pendingNotifies.toList).foldl (scanEntry now) (⟨[], []⟩, t)

/-- The second critical section: the entry is advanced if it is still there. -/
def retransmitTake (key : ExchangeKey) : Option Bytes × Turn :=
  match t.srv.pendingNotifies[key]? with
  | none => (none, t)
  | some pn =>
    (some pn.data, { t with srv := { t.srv with
      pendingNotifies := t.srv.pendingNotifies.insert key (pn.advance now) } })

def retransmitSend (key : ExchangeKey) (data : Bytes) : Turn :=
  match t.findSessionByRemote w key.remote with
  | none => t.untrackNotify key
  | some sess =>
    match t.send w sess data with
    | (some _, t) => t.untrackNotify key
    | (none, t) => t.emit (.resent key)

def retransmitOne (key : ExchangeKey) : Turn :=
  match t.retransmitTake now key with
  | (none, t) => t
  | (some data, t) => t.retransmitSend w key data

def cancelRelation (abandoned : Bytes × Bytes) : Turn :=
  { t with srv := { t.srv with
    observers := t.srv.observers.removeByToken abandoned.1 abandoned.2 } }

def retransmitDue (walk : WalkOrder (ExchangeKey × PendingNotify)) (now : Int) (t : Turn) : Turn :=
  let r := t.retransmitScan walk now
  r.1.abandoned.foldl cancelRelation (r.1.keys.foldl (retransmitOne w now) r.2)

end Turn

/-! ### Inputs -/

inductive Input
  | datagram (remote : Bytes) (ip : PeerIP) (data : Bytes) (w : World)
  | dtlsConn (remote : Bytes) (ip : PeerIP) (w : World)
  | dtlsRead (id : UInt64) (data : Bytes) (w : World)
  | dtlsEnd (id : UInt64)
  | sweep (key : SessionKey)
  | closeSessions (key : SessionKey)
  | sessionClose (sess : Session)
  | notifyObservers (resource payload : Bytes) (w : World)
  | retransmitDue (w : World) (walk : WalkOrder (ExchangeKey × PendingNotify))
  | clearSeen

/-- A call of `handleCoAPMessage`. -/
structure Call where
  sess : Session
  data : Bytes
  w : World

def deliver : Input → Option Call × Turn
  | .datagram remote ip data w =>
    match t.getOrCreateUDPSession w now remote ip with
    | (none, t) => (none, t)
    | (some sess, t) => (some ⟨sess, data, w⟩, t.touch now sess)
  | .dtlsConn remote ip w => (none, t.startDTLSConn w now remote ip)
  | .dtlsRead id data w =>
    match t.srv.dtlsConns[id]? with
    | none => (none, t)
    | some sess =>
      -- a closed connection gives a read error, not a message
      match t.srv.state id with
      | .closed => (none, t)
      | .active => (some ⟨sess, data, w⟩, t.touch now sess)
  | .dtlsEnd id =>
    match t.srv.dtlsConns[id]? with
    | none => (none, t)
    | some sess => (none, t.endDTLSConn true sess)
  | .sweep key => (none, t.sweepEntry cfg now key)
  | .closeSessions key => (none, t.closeEntry key)
  | .sessionClose sess => (none, t.close sess)
  | .notifyObservers resource payload w => (none, t.notifyObservers w now resource payload)
  | .retransmitDue w walk => (none, t.retransmitDue w walk now)
  | .clearSeen => (none, { t with srv := { t.srv with seen := ∅ } })

def Turn.serve (i : Input) : Turn :=
  match deliver cfg now t i with
  | (none, t) => t
  | (some c, t) => t.handleCoAPMessage cfg c.w now c.sess c.data

/-- The message an input hands to `handleCoAPMessage`, once parsed. -/
def Turn.received (i : Input) : Option (ExchangeKey × Message) :=
  match (deliver cfg now t i).1 with
  | none => none
  | some c =>
    match parse c.data with
    | .error _ => none
    | .ok msg => some (⟨c.sess.remote, msg.messageID⟩, msg)

/-! ### Runs -/

abbrev TimedInput := Int × Input

def stateAfter (s : Server) (ins : List TimedInput) : Server :=
  ins.foldl (fun s i => (Turn.serve cfg i.1 ⟨s, []⟩ i.2).srv) s

structure Record where
  before : Server
  time : Int
  input : Input

def recordAt (s : Server) (ins : List TimedInput) (i : TimedInput) : Record :=
  ⟨stateAfter cfg s ins, i.1, i.2⟩

namespace Record

def start (r : Record) : Turn := ⟨r.before, []⟩

def turn (r : Record) : Turn := r.start.serve cfg r.time r.input

def log (r : Record) : List Event := (r.turn cfg).log

def after (r : Record) : Server := (r.turn cfg).srv

def message (r : Record) : Option (ExchangeKey × Message) :=
  r.start.received cfg r.time r.input

end Record

theorem stateAfter_append (s : Server) (as bs : List TimedInput) :
    stateAfter cfg s (as ++ bs) = stateAfter cfg (stateAfter cfg s as) bs := by
  simp only [stateAfter, List.foldl_append]

theorem stateAfter_concat (s : Server) (as : List TimedInput) (a : TimedInput) :
    stateAfter cfg s (as ++ [a]) = (recordAt cfg s as a).after cfg := by
  rw [stateAfter_append]
  rfl

/-! ### A server on which everything succeeds -/

/-- Plugins that let everything pass, and a `Responder` that answers one byte. -/
def steadyWorld : World :=
  ⟨none, false, .ok [], false, .ok [1], false, [], fun _ => true, fun _ => 0, .id, .id⟩

def responderConfig : Config := ⟨true, false, 0, 120 * second⟩

def freshServer : Server := .new (.new 0) none

end SharkSocket.Coap
