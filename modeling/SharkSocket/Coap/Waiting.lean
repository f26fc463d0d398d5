import SharkSocket.Coap.Registry
import SharkSocket.Coap.RoundTrip
import SharkSocket.Coap.Serve

/-!
# A request that waits for its `Responder`

`serve` runs the application in the middle of a message.  `receive` is the part
before it: it stops when the plugins have let the message through and the
`Responder` is about to be called.  `finish` is the rest, and `serve_eq` says
that the two make up `serve`.  Between them other goroutines may run.

`Tidy` is what every entry point keeps (`Coap.Effects`): a plain UDP session is
stored under its own remote, and the token of every relation came from a message,
so it has at most eight bytes.
-/

namespace SharkSocket.Coap

open Lib
open SharkSocket.Shared (PeerIP)
open Std (ExtTreeMap)

structure Waiting where
  sess : Session
  msg : Message
  dedup : Option ExchangeKey
  registered : Bool
  payload : Bytes

namespace Turn

variable (cfg : Config) (w : World) (now : Int) (t : Turn)

def admitRequest (sess : Session) (msg : Message) (dedup : Option ExchangeKey) :
    Option Waiting × Turn :=
  if hasBlock1 msg.options then (none, t.replyBlock1Unsupported w sess msg dedup)
  else
    let o := t.handleObserve w sess msg
    let t := (o.2.emit (.plugins msg.type ⟨sess.remote, msg.messageID⟩)).closeIf w.messageCloses sess
    match w.onMessage with
    | .error e =>
      let t := if Err.is .pluginDrop e then t else t.dropSession sess
      if msg.type = typeCON then
        (none, t.sendDedupResponse w sess msg codeInternalServerError [] dedup ⟨false, none⟩)
      else (none, t)
    | .ok payload => (some ⟨sess, msg, dedup, o.1, payload⟩, t)

def admitMessage (sess : Session) (msg : Message) : Option Waiting × Turn :=
  let key : ExchangeKey := ⟨sess.remote, msg.messageID⟩
  if msg.type = typeACK then (none, (t.clearPendingNotify key).emit (.acked key))
  else if msg.type = typeRST then
    match t.takePendingNotify key with
    | (some (b :: token), t) => (none, { t with srv := { t.srv with
        observers := t.srv.observers.removeByToken sess.remote (b :: token) } })
    | (_, t) => (none, t)
  else if msg.code = codeEmpty then
    if msg.type = typeCON then
      (none, (t.sendACKMsg w sess (emptyRST msg.messageID)).2)
    else (none, t)
  else if msg.type = typeCON then
    match t.srv.seen[key]? with
    | some entry => (none, t.replyToDuplicate w sess msg entry)
    | none => (t.storeSeen key).admitRequest w sess msg (some key)
  else t.admitRequest w sess msg none

def receive (i : Input) : Option Waiting × Turn :=
  match deliver cfg now t i with
  | (none, t) => (none, t)
  | (some c, t) =>
    match parse c.data with
    | .error _ => (none, t)
    | .ok msg => t.admitMessage c.w c.sess msg

def finish (q : Waiting) : Turn :=
  match t.runApplication cfg w now q.sess q.msg q.payload with
  | (none, t) => t
  | (some body, t) => t.respond cfg w q.sess q.msg q.dedup q.registered body

/-! ### `serve` in two parts -/

theorem handleRequest_eq (sess : Session) (msg : Message) (dedup : Option ExchangeKey) :
    t.handleRequest cfg w now sess msg dedup =
      match t.admitRequest w sess msg dedup with
      | (none, t) => t
      | (some q, t) => t.finish cfg w now q := by
  unfold handleRequest admitRequest
  split
  · rfl
  cases w.onMessage with
  | error e =>
    dsimp only
    split <;> rfl
  | ok payload => rfl

theorem handleMessage_eq (sess : Session) (msg : Message) :
    t.handleMessage cfg w now sess msg =
      match t.admitMessage w sess msg with
      | (none, t) => t
      | (some q, t) => t.finish cfg w now q := by
  unfold handleMessage admitMessage
  dsimp only
  split
  · rfl
  split
  · rcases t.takePendingNotify ⟨sess.remote, msg.messageID⟩ with ⟨_ | _ | ⟨b, token⟩, u⟩ <;> rfl
  split
  · split <;> rfl
  split
  · cases t.srv.seen[(⟨sess.remote, msg.messageID⟩ : ExchangeKey)]? with
    | some entry => rfl
    | none => exact handleRequest_eq cfg w now _ sess msg _
  · exact handleRequest_eq cfg w now t sess msg none

/-- The world of the call that an input makes. -/
def worldOf (i : Input) (w : World) : World :=
  match (deliver cfg now t i).1 with
  | none => w
  | some c => c.w

/-- A served input is a received one whose application runs at once. -/
theorem serve_eq (i : Input) (w : World) :
    t.serve cfg now i =
      match t.receive cfg now i with
      | (none, u) => u
      | (some q, u) => u.finish cfg (t.worldOf cfg now i w) now q := by
  unfold serve receive worldOf
  rcases deliver cfg now t i with ⟨_ | c, u⟩
  · rfl
  dsimp only
  unfold handleCoAPMessage
  cases parse c.data with
  | error e => rfl
  | ok msg => exact handleMessage_eq cfg c.w now u c.sess msg

end Turn

theorem token_le_of_parse {data : Bytes} {msg : Message} (h : parse data = .ok msg) :
    msg.token.length ≤ 8 := by
  unfold parse at h
  split at h
  · split at h
    · cases h
    dsimp only at h
    split at h
    · cases h
    split at h
    · cases h
    cases h
    rw [List.length_take]
    omega
  · cases h

/-! ### Relations -/

namespace ObserverRegistry

variable {r : ObserverRegistry} {resource : Bytes}

def ShortTokens (r : ObserverRegistry) : Prop :=
  ∀ (resource : Bytes) (subs : Subs), r.subs[resource]? = some subs →
    ∀ (key : Bytes) (obs : Observer), subs[key]? = some obs → obs.token.length ≤ 8

theorem ShortTokens.subsOf (h : r.ShortTokens) {key : Bytes} {obs : Observer}
    (hobs : (r.subsOf resource)[key]? = some obs) : obs.token.length ≤ 8 := by
  obtain ⟨subs, hs, hin⟩ := getElem?_subsOf.mp hobs
  exact h resource subs hs key obs hin

end ObserverRegistry

/-! ### What every entry point keeps -/

namespace Turn

structure Tidy (t : Turn) : Prop where
  keyed : ∀ (remote : Bytes) (sess : Session), t.srv.peers[remote]? = some sess →
    sess.remote = remote
  short : t.srv.observers.ShortTokens

end Turn

end SharkSocket.Coap
