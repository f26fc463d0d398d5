import SharkSocket.Coap.Blockwise
import SharkSocket.Coap.Observe
import SharkSocket.Coap.Retransmit
import SharkSocket.Runtime.SessionManager
import SharkSocket.Shared.Quota

/-!
# `coap/server.go`: one message at a time

The server's tables and what each entry point does to them.  A `Turn` is the
server while one entry point runs, with the log of what has left it so far:
datagrams written, plugins and handlers called, sessions accepted and closed.

Code the repository does not own answers through a `World`: the verdict of the
plugin chain, the result of the `Responder` or `Handler`, whether either closed
the session, which `NotifyObservers` calls it made, and whether each socket
write succeeds.  Results are stated for every `World`.

`handleCoAPMessage` is the function the read loops call.  The plain UDP loop
finds its session with `getOrCreateUDPSession`; a DTLS connection has its own.
-/

namespace SharkSocket.Coap

open Lib
open SharkSocket.Runtime (SessionManager)
open SharkSocket.Shared (PeerIP PeerQuota)
open Std (ExtTreeMap TransOrd LawfulEqOrd)

/-- `seenKey` and `notifyKey`: two struct types with the same fields. -/
structure ExchangeKey where
  remote : Bytes
  msgID : UInt16
  deriving DecidableEq, Repr

instance : Ord ExchangeKey := pairOrd ExchangeKey.remote ExchangeKey.msgID

instance : TransOrd ExchangeKey := transCmp_pairOrd _ _

instance : LawfulEqOrd ExchangeKey :=
  lawfulEqCmp_pairOrd _ _ fun ⟨_, _⟩ ⟨_, _⟩ hr hi => by cases hr; cases hi; rfl

structure SeenEntry where
  resp : Option Bytes
  deriving DecidableEq, Repr

/-- `remote` is `sess.remote.String()`, which also stands for the `PeerKey` of a
plain UDP peer; `ip` is what the quota counts the peer under. -/
structure Session where
  id : UInt64
  remote : Bytes
  ip : PeerIP
  dtls : Bool
  deriving DecidableEq, Repr

structure Config where
  hasResponder : Bool
  hasHandler : Bool
  maxBlockSize : Nat
  sessionTTL : Int
  deriving DecidableEq, Repr

/-- `s.sessions` holds plain UDP sessions under their peer (`peers`) and DTLS
sessions under their ID (`conns`).  A DTLS session is in `dtlsConns` for as long
as its read loop runs. -/
structure Server where
  peers : ExtTreeMap Bytes Session
  conns : ExtTreeMap UInt64 Session
  dtlsConns : ExtTreeMap UInt64 Session
  state : UInt64 → SessionState
  activeAt : UInt64 → Int
  manager : SessionManager
  quota : Option PeerQuota
  seen : ExtTreeMap ExchangeKey SeenEntry
  observers : ObserverRegistry
  pendingNotifies : ExtTreeMap ExchangeKey PendingNotify
  lastMsgID : UInt32

inductive SessionKey
  | peer (remote : Bytes)
  | conn (id : UInt64)
  deriving DecidableEq, Repr

inductive Event
  | onAccept (id : UInt64)
  | onClose (id : UInt64)
  | plugins (type : UInt8) (key : ExchangeKey)
  | handler (type : UInt8) (key : ExchangeKey) (payload : Bytes)
  | sent (remote : Bytes) (data : Bytes) (ok : Bool)
  | issued (key : ExchangeKey)
  | notified (key : ExchangeKey)
  | dropped (key : ExchangeKey)
  | resent (key : ExchangeKey)
  | acked (key : ExchangeKey)
  deriving DecidableEq, Repr

structure World where
  onAccept : Option Err
  acceptCloses : Bool
  onMessage : Except Err Bytes
  messageCloses : Bool
  handler : Except Err Bytes
  handlerCloses : Bool
  notifies : List (Bytes × Bytes)
  write : Nat → Bool
  jitter : Nat → Int
  observerWalk : WalkOrder (Bytes × Observer)
  connWalk : WalkOrder (UInt64 × Session)

structure Turn where
  srv : Server
  log : List Event

-- what the methods read, and the receiver with the log of what they did
variable (cfg : Config) (w : World) (now : Int) (t : Turn)

namespace Turn

def emit (e : Event) : Turn := { t with log := t.log ++ [e] }

def close (sess : Session) : Turn :=
  match t.srv.state sess.id with
  | .closed => t
  | .active =>
    { t with srv := { t.srv with
      state := Function.update t.srv.state sess.id .closed
      -- `sess.release` is set for plain UDP sessions only
      quota := if sess.dtls then t.srv.quota else t.srv.quota.map (·.release sess.ip) } }

def closeIf (b : Bool) (sess : Session) : Turn := if b then t.close sess else t

/-- `sess.Send`: a closed session writes nothing. -/
def send (sess : Session) (data : Bytes) : Option Err × Turn :=
  match t.srv.state sess.id with
  | .closed => (some .sessionClosed, t)
  | .active =>
    let ok := w.write t.log.length
    (if ok then none else some (.other "write"), t.emit (.sent sess.remote data ok))

def sendACKMsg (sess : Session) (msg : Message) : Option Err × Turn :=
  match msg.marshal with
  | .error e => (some e, t)
  | .ok data => t.send w sess data

def has : SessionKey → Bool
  | .peer remote => remote ∈ t.srv.peers
  | .conn id => id ∈ t.srv.conns

def delete : SessionKey → Turn
  | .peer remote => { t with srv := { t.srv with peers := t.srv.peers.erase remote } }
  | .conn id => { t with srv := { t.srv with conns := t.srv.conns.erase id } }

def unregister (sess : Session) : Turn :=
  { t with srv := { t.srv with manager := (t.srv.manager.unregister sess.id).2 } }

def removeBySession (remote : Bytes) : Turn :=
  { t with srv := { t.srv with observers := t.srv.observers.removeBySession remote } }

/-- `closeSession`: whatever the table holds under `key` is taken out, and
`sess` is closed. -/
def closeSession (key : SessionKey) (sess : Session) : Bool × Turn :=
  if t.has key then
    let t := (((t.delete key).removeBySession sess.remote).unregister sess).close sess
    (true, t.emit (.onClose sess.id))
  else (false, t)

/-- What every failing path of `handleCoAPMessage` does with its session. -/
def dropSession (sess : Session) : Turn :=
  if sess.dtls then t.close sess else (t.closeSession (.peer sess.remote) sess).2

/-! ### Observe relations and notifications -/

def handleObserve (sess : Session) (msg : Message) : Bool × Turn :=
  if msg.code ≠ codeGet then (false, t)
  else
    match msg.options[observeOption]? with
    | none => (false, t)
    | some obsVal =>
      let reg := obsVal.headD 0
      if reg = 0 then
        let r := t.srv.observers.register w.observerWalk msg.payload sess.remote msg.token
        (r.2.isSome, { t with srv := { t.srv with observers := r.1 } })
      else if reg = 1 then
        (false, { t with srv := { t.srv with
          observers := t.srv.observers.remove msg.payload sess.remote msg.token } })
      else (false, t)

def nextSeq (obs : Observer) : UInt32 × Turn :=
  let r := t.srv.observers.nextSeq obs
  (r.1, { t with srv := { t.srv with observers := r.2 } })

def observerSeq (sess : Session) (req : Message) : Option UInt32 × Turn :=
  if req.code ≠ codeGet then (none, t)
  else
    match t.srv.observers.find req.payload sess.remote req.token with
    | none => (none, t)
    | some obs => (some (t.nextSeq obs).1, (t.nextSeq obs).2)

end Turn

def emptyRST (id : UInt16) : Message := ⟨typeRST, codeEmpty, id, [], ∅, []⟩

def emptyACK (id : UInt16) : Message := ⟨typeACK, codeEmpty, id, [], ∅, []⟩

def encodeObserveSeq (seq : UInt32) : Bytes :=
  if seq = 0 then [0]
  else if seq ≤ 0xFF then [seq.toUInt8]
  else if seq ≤ 0xFFFF then [(seq >>> 8).toUInt8, seq.toUInt8]
  else [(seq >>> 16).toUInt8, (seq >>> 8).toUInt8, seq.toUInt8]

namespace Turn

def findSessionByRemote (remote : Bytes) : Option Session :=
  match t.srv.peers[remote]? with
  | some sess => some sess
  | none => (w.connWalk.values t.srv.conns).find? (·.remote = remote)

def nextMessageID : UInt16 × Turn :=
  let n := t.srv.lastMsgID + 1
  (n.toUInt16, { t with srv := { t.srv with lastMsgID := n } })

def untrackNotify (key : ExchangeKey) : Turn :=
  { t with srv := { t.srv with pendingNotifies := t.srv.pendingNotifies.erase key } }

def clearPendingNotify (key : ExchangeKey) : Turn := t.untrackNotify key

def takePendingNotify (key : ExchangeKey) : Option Bytes × Turn :=
  match t.srv.pendingNotifies[key]? with
  | none => (none, t)
  | some pn => (some pn.token, t.untrackNotify key)

def trackNotify (now draw : Int) (key : ExchangeKey) (token data : Bytes) : Turn :=
  let timeout := initialRetransmitTimeout draw
  { t with srv := { t.srv with
    pendingNotifies := t.srv.pendingNotifies.insert key ⟨data, token, 0, timeout, now + timeout⟩ } }

def removeObserver (resource : Bytes) (obs : Observer) : Turn :=
  { t with srv := { t.srv with
    observers := t.srv.observers.remove resource obs.remote obs.token } }

/-- A notification that has its message ID and is about to be sent. -/
structure Outgoing where
  resource : Bytes
  obs : Observer
  sess : Session
  key : ExchangeKey
  data : Bytes

def notification (id : UInt16) (token : Bytes) (seq : UInt32) (payload : Bytes) : Message :=
  ⟨typeCON, codeContent, id, token, (∅ : Options).insert observeOption (encodeObserveSeq seq),
    payload⟩

/-- The first half of an iteration of `NotifyObservers`: find the session, take
a sequence number and a message ID, and encode. -/
def notifyPrepare (resource payload : Bytes) (obs : Observer) : Option Outgoing × Turn :=
  match t.findSessionByRemote w obs.remote with
  | none => (none, t.removeObserver resource obs)
  | some sess =>
    let seq := t.nextSeq obs
    let id := seq.2.nextMessageID
    match (notification id.1 obs.token seq.1 payload).marshal with
    | .error _ => (none, id.2)
    | .ok data =>
      (some ⟨resource, obs, sess, ⟨obs.remote, id.1⟩, data⟩, id.2.emit (.issued ⟨obs.remote, id.1⟩))

/-- The send of an iteration; `false` when it failed and the relation went. -/
def notifySend (o : Outgoing) : Bool × Turn :=
  match t.send w o.sess o.data with
  | (some _, t) => (false, (t.removeObserver o.resource o.obs).emit (.dropped o.key))
  | (none, t) => (true, t.emit (.notified o.key))

def notifyTrack (o : Outgoing) : Turn :=
  t.trackNotify now (w.jitter t.log.length) o.key o.obs.token o.data

def notifyOne (resource payload : Bytes) (t : Turn) (obs : Observer) : Turn :=
  match t.notifyPrepare w resource payload obs with
  | (none, t) => t
  | (some o, t) =>
    match t.notifySend w o with
    | (false, t) => t
    | (true, t) => t.notifyTrack w now o

def notifyObservers (resource payload : Bytes) : Turn :=
  (t.srv.observers.notify w.observerWalk resource).foldl (notifyOne w now resource payload) t

/-! ### Replies -/

/-- `seen.LoadOrStore` when the key is not there. -/
def storeSeen (key : ExchangeKey) : Turn :=
  { t with srv := { t.srv with seen := t.srv.seen.insert key ⟨none⟩ } }

/-- `dedup.setResponse`; `none` is a nil entry. -/
def setResponse (dedup : Option ExchangeKey) (data : Bytes) : Turn :=
  match dedup with
  | none => t
  | some key => { t with srv := { t.srv with seen := t.srv.seen.insert key ⟨some data⟩ } }

structure ResponseOptions where
  observe : Bool
  block2 : Option BlockOption

def addObserveSeq (sess : Session) (req resp : Message) : Message × Turn :=
  match t.observerSeq sess req with
  | (none, t) => (resp, t)
  | (some seq, t) =>
    ({ resp with options := resp.options.insert observeOption (encodeObserveSeq seq) }, t)

def sendDedupResponse (sess : Session) (req : Message) (code : UInt8) (payload : Bytes)
    (dedup : Option ExchangeKey) (opts : ResponseOptions) : Turn :=
  let r := if opts.observe then t.addObserveSeq sess req (ack req code payload)
    else (ack req code payload, t)
  let resp := match opts.block2 with
    | none => r.1
    | some b => { r.1 with options := r.1.options.insert block2Option b.marshal }
  match resp.marshal with
  | .error _ => r.2
  | .ok data => ((r.2.setResponse dedup data).send w sess data).2

def replyBlock1Unsupported (sess : Session) (req : Message) (dedup : Option ExchangeKey) : Turn :=
  let hint : BlockOption := ⟨0, false, minBlockSizeExp⟩
  let resp := { ack req codeRequestEntityTooLarge [] with
    options := (∅ : Options).insert block1Option hint.marshal }
  match resp.marshal with
  | .error _ => t
  | .ok data => ((t.setResponse dedup data).send w sess data).2

def replyToDuplicate (sess : Session) (req : Message) (entry : SeenEntry) : Turn :=
  match entry.resp with
  | some data => (t.send w sess data).2
  | none => (t.sendACKMsg w sess (emptyACK req.messageID)).2

end Turn

def hasBlock1 (opts : Options) : Bool := block1Option ∈ opts

def responseCode (code : UInt8) : UInt8 :=
  if code = codePost then codeCreated
  else if code = codePut then codeChanged
  else if code = codeDelete then codeDeleted
  else codeContent

def applyBlock2 (req : Message) (body : Bytes) : Option (Bytes × Option BlockOption) :=
  if cfg.maxBlockSize = 0 then some (body, none)
  else
    match negotiateBlock2 req.options cfg.maxBlockSize with
    | .error _ => none
    | .ok blockReq => blockFor body blockReq

namespace Turn

/-! ### `handleCoAPMessage` -/

/-- The `Responder` or `Handler`, with the notifications it sends on the way. -/
def callHandler (sess : Session) (msg : Message) (payload : Bytes) : Turn :=
  let t := t.emit (.handler msg.type ⟨sess.remote, msg.messageID⟩ payload)
  let t := w.notifies.foldl (fun t n => t.notifyObservers w now n.1 n.2) t
  t.closeIf w.handlerCloses sess

/-- The turn after the application has run, and the response body; no body when
the `Responder` failed, which ends the request without an answer. -/
def runApplication (sess : Session) (msg : Message) (payload : Bytes) : Option Bytes × Turn :=
  if cfg.hasResponder then
    let t := t.callHandler w now sess msg payload
    match w.handler with
    | .error _ => (none, t.dropSession sess)
    | .ok body => (some body, t)
  else if cfg.hasHandler then
    let t := t.callHandler w now sess msg payload
    match w.handler with
    | .error _ => (some [], t.dropSession sess)
    | .ok _ => (some [], t)
  else (some [], t)

def respond (sess : Session) (msg : Message) (dedup : Option ExchangeKey) (registeredObserve : Bool)
    (body : Bytes) : Turn :=
  if msg.type = typeCON then
    match applyBlock2 cfg msg body with
    | none => t.sendDedupResponse w sess msg codeBadOption [] dedup ⟨true, none⟩
    | some (chunk, opt) =>
      t.sendDedupResponse w sess msg (responseCode msg.code) chunk dedup ⟨true, opt⟩
  else if msg.type = typeNON ∧ registeredObserve then
    let r := t.observerSeq sess msg
    let notify : Message := ⟨typeNON, codeContent, msg.messageID, msg.token,
      (∅ : Options).insert observeOption (encodeObserveSeq (r.1.getD 0)), body⟩
    match notify.marshal with
    | .error _ => r.2
    | .ok data => (r.2.send w sess data).2
  else t

/-- A request that is not a duplicate; `dedup` is its entry in `seen`. -/
def handleRequest (sess : Session) (msg : Message) (dedup : Option ExchangeKey) : Turn :=
  if hasBlock1 msg.options then t.replyBlock1Unsupported w sess msg dedup
  else
    let o := t.handleObserve w sess msg
    let t := (o.2.emit (.plugins msg.type ⟨sess.remote, msg.messageID⟩)).closeIf w.messageCloses sess
    match w.onMessage with
    | .error e =>
      let t := if Err.is .pluginDrop e then t else t.dropSession sess
      if msg.type = typeCON then
        t.sendDedupResponse w sess msg codeInternalServerError [] dedup ⟨false, none⟩
      else t
    | .ok payload =>
      match t.runApplication cfg w now sess msg payload with
      | (none, t) => t
      | (some body, t) => t.respond cfg w sess msg dedup o.1 body

def handleMessage (sess : Session) (msg : Message) : Turn :=
  let key : ExchangeKey := ⟨sess.remote, msg.messageID⟩
  if msg.type = typeACK then (t.clearPendingNotify key).emit (.acked key)
  else if msg.type = typeRST then
    match t.takePendingNotify key with
    | (some (b :: token), t) => { t with srv := { t.srv with
        observers := t.srv.observers.removeByToken sess.remote (b :: token) } }
    | (_, t) => t
  else if msg.code = codeEmpty then
    if msg.type = typeCON then
      (t.sendACKMsg w sess (emptyRST msg.messageID)).2
    else t
  else if msg.type = typeCON then
    match t.srv.seen[key]? with
    | some entry => t.replyToDuplicate w sess msg entry
    | none => (t.storeSeen key).handleRequest cfg w now sess msg (some key)
  else t.handleRequest cfg w now sess msg none

def handleCoAPMessage (sess : Session) (data : Bytes) : Turn :=
  match parse data with
  | .error _ => t
  | .ok msg => t.handleMessage cfg w now sess msg

end Turn

end SharkSocket.Coap
