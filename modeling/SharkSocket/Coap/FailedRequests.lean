import SharkSocket.Coap.Block2
import SharkSocket.Coap.Cancel

/-!
# Requests that fail

A request fails when the plugin chain returns an error or the `Handler` does.  The Observe
option is processed before the plugins run, and the answer is sent after the session was
closed, so a failing request can leave a relation behind, and can stay without an answer.

* `failed_request_subscribes_nothing`: a request that the plugins refuse adds no relation
  unless it asks for one and its session stays; and `ErrPluginDrop` leaves the registry as
  it was unless the request registers or deregisters.
* `failing_con_answered`: on plain UDP a failing confirmable request is answered exactly
  when its session is still open at the end.
-/

namespace SharkSocket.Coap

open Lib
open Std (ExtTreeMap)

/-- The first byte of the Observe option of a GET. -/
def Message.observes (msg : Message) : Option UInt8 :=
  if msg.code = codeGet then msg.options[observeOption]?.map (·.headD 0) else none

namespace Turn

variable {cfg : Config} {w : World} {now : Int} {t : Turn} {sess : Session} {msg : Message}
  {dedup : Option ExchangeKey} {e : Err}

/-! ### The session -/

theorem state_close : (t.close sess).srv.state sess.id = .closed := by
  unfold Turn.close
  split
  · rename_i h
    exact h
  · exact Function.update_self ..

theorem state_closeIf (b : Bool) : (t.closeIf b sess).srv.state sess.id = .active ↔
      t.srv.state sess.id = .active ∧ b = false := by
  unfold Turn.closeIf
  cases b with
  | true => simp [state_close]
  | false => simp

theorem state_dropSession (hudp : sess.dtls = false) :
    (t.dropSession sess).srv.state sess.id = .active ↔
      t.srv.state sess.id = .active ∧ sess.remote ∉ t.srv.peers := by
  unfold Turn.dropSession Turn.closeSession Turn.has
  rw [hudp]
  by_cases hin : sess.remote ∈ t.srv.peers
  · have hclosed : ((((t.delete (.peer sess.remote)).removeBySession sess.remote).unregister
        sess).close sess).srv.state sess.id = .closed := state_close
    simp [hin, Turn.emit, hclosed]
  · simp [hin]

theorem observers_dropSession : (t.dropSession sess).srv.observers =
      if sess.dtls = false ∧ sess.remote ∈ t.srv.peers then
        t.srv.observers.removeBySession sess.remote else t.srv.observers := by
  unfold Turn.dropSession Turn.closeSession Turn.has
  cases sess.dtls with
  | true => exact calm_close.observers
  | false =>
    by_cases hin : sess.remote ∈ t.srv.peers
    · simp only [hin, decide_true, if_true, and_self, Bool.false_eq_true, if_false]
      exact calm_close.observers
    · simp [hin]

/-! ### A request that the plugins refuse -/

variable (w t sess msg)

theorem handleObserve_frame : (t.handleObserve w sess msg).2.srv.peers = t.srv.peers ∧
      (t.handleObserve w sess msg).2.srv.state = t.srv.state ∧
      (t.handleObserve w sess msg).2.log = t.log := by
  unfold Turn.handleObserve
  split
  · exact ⟨rfl, rfl, rfl⟩
  split
  · exact ⟨rfl, rfl, rfl⟩
  dsimp only
  split
  · exact ⟨rfl, rfl, rfl⟩
  · split <;> exact ⟨rfl, rfl, rfl⟩

/-- After the Observe option was processed and the plugins ran. -/
def afterPlugins : Turn :=
  ((t.handleObserve w sess msg).2.emit (.plugins msg.type ⟨sess.remote, msg.messageID⟩)).closeIf
    w.messageCloses sess

/-- The session is dropped for every error but `ErrPluginDrop`. -/
def afterError (e : Err) : Turn :=
  if Err.is .pluginDrop e then t.afterPlugins w sess msg
  else (t.afterPlugins w sess msg).dropSession sess

variable {w t sess msg}

theorem handleRequest_error (hblock : hasBlock1 msg.options = false)
    (herr : w.onMessage = .error e) : t.handleRequest cfg w now sess msg dedup =
      if msg.type = typeCON then
        (t.afterError w sess msg e).sendDedupResponse w sess msg codeInternalServerError [] dedup
          ⟨false, none⟩ else t.afterError w sess msg e := by
  unfold Turn.handleRequest
  rw [if_neg (by rw [hblock]; decide), herr]
  rfl

theorem observers_handleObserve : (t.handleObserve w sess msg).2.srv.observers =
      if msg.observes = some 0 then
        (t.srv.observers.register w.observerWalk msg.payload sess.remote msg.token).1
      else if msg.observes = some 1 then t.srv.observers.remove msg.payload sess.remote msg.token
      else t.srv.observers := by
  unfold Turn.handleObserve Message.observes
  by_cases hget : msg.code = codeGet
  · rw [if_neg (not_not.mpr hget), if_pos hget]
    cases msg.options[observeOption]? with
    | none => simp
    | some v =>
      simp only [Option.map_some, Option.some.injEq]
      split
      · rfl
      · split <;> rfl
  rw [if_pos hget, if_neg hget]
  simp

theorem peers_afterPlugins : (t.afterPlugins w sess msg).srv.peers = t.srv.peers :=
  calm_closeIf.peers.trans (handleObserve_frame w t sess msg).1

theorem state_afterPlugins : (t.afterPlugins w sess msg).srv.state sess.id = .active ↔
    t.srv.state sess.id = .active ∧ w.messageCloses = false := by
  have hstate := (handleObserve_frame w t sess msg).2.1
  unfold Turn.afterPlugins
  rw [state_closeIf, ← hstate]
  rfl

theorem state_afterError (hudp : sess.dtls = false) :
    (t.afterError w sess msg e).srv.state sess.id = .active ↔
      t.srv.state sess.id = .active ∧ w.messageCloses = false ∧
        (Err.is .pluginDrop e = true ∨ sess.remote ∉ t.srv.peers) := by
  unfold Turn.afterError
  cases Err.is .pluginDrop e with
  | true => simpa using state_afterPlugins
  | false =>
    rw [if_neg (by decide), state_dropSession hudp, state_afterPlugins, peers_afterPlugins]
    simp [and_assoc]

theorem observers_afterError : (t.afterError w sess msg e).srv.observers =
      if Err.is .pluginDrop e = false ∧ sess.dtls = false ∧ sess.remote ∈ t.srv.peers then
        (t.handleObserve w sess msg).2.srv.observers.removeBySession sess.remote
      else (t.handleObserve w sess msg).2.srv.observers := by
  have hplugins : (t.afterPlugins w sess msg).srv.observers =
      (t.handleObserve w sess msg).2.srv.observers := calm_closeIf.observers
  unfold Turn.afterError
  cases Err.is .pluginDrop e with
  | true => simpa using hplugins
  | false =>
    rw [if_neg (by decide), observers_dropSession, hplugins, peers_afterPlugins]
    simp

/-- A request either does not come as far as the plugins, or leaves the registry as
`afterError` has it. -/
theorem observers_handleMessage_error (cfg : Config) (now : Int) (t : Turn) (sess : Session)
    (hack : msg.type ≠ typeACK) (hrst : msg.type ≠ typeRST) (herr : w.onMessage = .error e) :
    (t.handleMessage cfg w now sess msg).srv.observers = t.srv.observers ∨
    (t.handleMessage cfg w now sess msg).srv.observers =
      (t.afterError w sess msg e).srv.observers := by
  have hrequest : ∀ (u : Turn) (dedup : Option ExchangeKey),
      (u.handleRequest cfg w now sess msg dedup).srv.observers = u.srv.observers ∨
      (u.handleRequest cfg w now sess msg dedup).srv.observers =
        (u.afterError w sess msg e).srv.observers := by
    intro u dedup
    cases hblock : hasBlock1 msg.options with
    | true =>
      unfold Turn.handleRequest
      rw [if_pos hblock]
      exact .inl quiet_replyBlock1Unsupported.observers
    | false =>
      rw [handleRequest_error hblock herr]
      split
      · exact .inr quiet_sendDedupResponse.observers
      · exact .inr rfl
  unfold Turn.handleMessage
  rw [if_neg hack, if_neg hrst]
  split
  · split
    · exact .inl calm_sendACKMsg.observers
    · exact .inl rfl
  split
  · split
    · exact .inl calm_replyToDuplicate.observers
    rcases hrequest (t.storeSeen ⟨sess.remote, msg.messageID⟩) _ with hsame | hafter
    · exact .inl hsame
    refine .inr (hafter.trans ?_)
    rw [observers_afterError, observers_afterError, observers_handleObserve,
      observers_handleObserve]
    rfl
  · exact hrequest t none

end Turn

/-- Plugins that drop every message, and plugins that fail. -/
def droppingWorld : World := { steadyWorld with onMessage := .error .pluginDrop }

def failingWorld : World := { steadyWorld with onMessage := .error (.other "banned") }

/-- The server after the peer has registered under the token 5. -/
def observedServer : Server :=
  stateAfter responderConfig freshServer
    [(0, .datagram [0x61] none [0x41, 1, 0, 7, 5, 0x60] steadyWorld)]

/-- Among the events is an ACK to `remote` with the message ID and token of the request and
a code that meets `P`. -/
def Answered (log : List Event) (remote : Bytes) (req : Message) (P : UInt8 → Prop) : Prop :=
  ∃ data resp, .sent remote data true ∈ log ∧ parse data = .ok resp ∧ resp.type = typeACK ∧
    resp.messageID = req.messageID ∧ resp.token = req.token ∧ P resp.code

def Event.NoAck (e : Event) : Prop :=
  ∀ remote data ok resp, e = .sent remote data ok → parse data = .ok resp → resp.type ≠ typeACK

theorem not_answered {log : List Event} (h : ∀ e ∈ log, e.NoAck) (remote : Bytes) (req : Message)
    (P : UInt8 → Prop) : ¬ Answered log remote req P := by
  rintro ⟨data, resp, hsent, hparse, hack, -⟩
  exact h _ hsent remote data true resp rfl hparse hack

namespace Turn

variable {cfg : Config} (w : World) (now : Int) (t : Turn) (sess : Session) (msg : Message)
  {dedup : Option ExchangeKey}

/-- A notification is confirmable. -/
theorem noAck_notification {id : UInt16} {token : Bytes} {seq : UInt32} {payload data : Bytes}
    (hm : (notification id token seq payload).marshal = .ok data) (remote : Bytes) (ok : Bool) :
    Event.NoAck (.sent remote data ok) := by
  rintro _ _ _ resp ⟨⟩ hparse
  cases (parse_of_marshal (shortValues_observe seq) hm).symm.trans hparse
  exact (by decide : typeCON ≠ typeACK)

theorem noAck_send {data : Bytes} (h : ∀ remote ok, Event.NoAck (.sent remote data ok)) :
    LogExt Event.NoAck t (t.send w sess data).2 := by
  unfold Turn.send
  split
  · exact .of_eq rfl
  · exact LogExt.emit (.of_eq rfl) (h _ _)

theorem noAck_notifyOne (resource payload : Bytes) (obs : Observer) :
    LogExt Event.NoAck t (notifyOne w now resource payload t obs) := by
  have hdrawn : LogExt Event.NoAck t (t.nextSeq obs).2.nextMessageID.2 := .of_eq rfl
  have hissued : LogExt Event.NoAck t ((t.nextSeq obs).2.issue obs.remote) := hdrawn.emit nofun
  have hsent : ∀ target data, (t.notificationTo obs payload).marshal = .ok data →
      LogExt Event.NoAck t (((t.nextSeq obs).2.issue obs.remote).send w target data).2 :=
    fun target data hm => hissued.trans (noAck_send w _ target (noAck_notification hm))
  generalize hu : notifyOne w now resource payload t obs = u
  cases notifyOne_outcome hu with
  | gone hfind => exact .of_eq rfl
  | unencoded hm => exact hdrawn
  | dropped hfind hm herr => exact LogExt.emit ((hsent _ _ hm).trans (.of_eq rfl)) nofun
  | tracked hfind hm herr =>
    exact ((hsent _ _ hm).emit (e := .notified (t.outgoingKey obs)) nofun).trans (.of_eq rfl)

theorem carries_noAck : Carries (LogExt Event.NoAck t) where
  frame h hf := by
    refine h.trans (hf.log.mono ?_)
    intro e he
    cases e <;> first | exact he.elim | nofun
  notifyOne w now resource payload obs h := h.trans (noAck_notifyOne w now _ resource payload obs)

/-- The sessions in the table, and which sessions are open. -/
def sessions := (t.srv.peers, t.srv.state)

theorem sessions_send (data : Bytes) : (t.send w sess data).2.sessions = t.sessions := by
  unfold Turn.send
  split <;> rfl

/-- A notification leaves the sessions alone. -/
theorem sessions_notifyOne (resource payload : Bytes) (obs : Observer) :
    (notifyOne w now resource payload t obs).sessions = t.sessions := by
  generalize hu : notifyOne w now resource payload t obs = u
  cases notifyOne_outcome hu with
  | gone hfind | unencoded hm => rfl
  | dropped hfind hm herr | tracked hfind hm herr =>
      exact sessions_send w ((t.nextSeq obs).2.issue obs.remote) _ _

/-- The `Handler` can close its session; the notifications it sends do not touch it. -/
theorem callHandler_spec (payload : Bytes) :
    (t.callHandler w now sess msg payload).srv.peers = t.srv.peers ∧
      ((t.callHandler w now sess msg payload).srv.state sess.id = .active ↔
        t.srv.state sess.id = .active ∧ w.handlerCloses = false) := by
  unfold Turn.callHandler
  have hnotified : (w.notifies.foldl (fun t n => t.notifyObservers w now n.1 n.2)
      (t.emit (.handler msg.type ⟨sess.remote, msg.messageID⟩ payload))).sessions = t.sessions := by
    refine List.foldlRecOn (motive := (sessions · = t.sessions)) _ _ rfl fun u hu n _ => ?_
    refine List.foldlRecOn (motive := (sessions · = t.sessions)) _ _ hu fun v hv obs _ => ?_
    exact (sessions_notifyOne w now v n.1 n.2 obs).trans hv
  obtain ⟨hpeers, hstate⟩ := Prod.mk.inj hnotified
  refine ⟨calm_closeIf.peers.trans hpeers, ?_⟩
  rw [state_closeIf, hstate]

/-! The response -/

theorem observerSeq_frame : (t.observerSeq sess msg).2.srv.state = t.srv.state ∧
    (t.observerSeq sess msg).2.log = t.log := by
  unfold Turn.observerSeq
  split
  · exact ⟨rfl, rfl⟩
  · split <;> exact ⟨rfl, rfl⟩

/-- A response differs from the plain ACK in its options, which fit into a message. -/
theorem addObserveSeq_spec {resp : Message} (hshort : ShortValues resp.options) :
    ∃ options, ShortValues options ∧ t.addObserveSeq sess msg resp =
      ({ resp with options := options }, (t.observerSeq sess msg).2) := by
  unfold Turn.addObserveSeq
  rcases t.observerSeq sess msg with ⟨_ | seq, u⟩
  · exact ⟨resp.options, hshort, rfl⟩
  refine ⟨_, hshort.insert _ ?_, rfl⟩
  exact (shortValues_observe seq) observeOption _ ExtTreeMap.getElem?_insert_self

/-- The response is sent if the session is open: one datagram that parses as an ACK of the
request with the given code. -/
theorem log_sendDedupResponse (htoken : msg.token.length ≤ 8) (code : UInt8) (payload : Bytes)
    (opts : ResponseOptions) :
    ∃ data resp, parse data = .ok resp ∧ resp.type = typeACK ∧ resp.messageID = msg.messageID ∧
      resp.token = msg.token ∧ resp.code = code ∧
      (t.sendDedupResponse w sess msg code payload dedup opts).log =
        match t.srv.state sess.id with
        | .closed => t.log
        | .active => t.log ++ [.sent sess.remote data (w.write t.log.length)] := by
  unfold Turn.sendDedupResponse
  extract_lets r plain resp
  obtain ⟨options, hoptions, hresp, hstate, hlog⟩ : ∃ options, ShortValues options ∧
      r.1 = { ack msg code payload with options := options } ∧
      r.2.srv.state = t.srv.state ∧ r.2.log = t.log := by
    rcases hb : opts.observe with _ | _
    · simp only [r, hb]
      exact ⟨∅, shortValues_empty, rfl, rfl, rfl⟩
    obtain ⟨options, hoptions, heq⟩ := addObserveSeq_spec t sess msg
      (show ShortValues (ack msg code payload).options from shortValues_empty)
    simp only [r, hb, heq, if_true]
    exact ⟨options, hoptions, rfl, (observerSeq_frame t sess msg).1,
      (observerSeq_frame t sess msg).2⟩
  obtain ⟨final, hfinal, hresp⟩ : ∃ final, ShortValues final ∧
      resp = { ack msg code payload with options := final } := by
    rcases hb : opts.block2 with _ | b
    · exact ⟨options, hoptions, by simp only [resp, hb, hresp]⟩
    refine ⟨options.insert block2Option b.marshal, hoptions.insert _ ?_, ?_⟩
    · exact (BlockOption.length_marshal_le b).trans (by decide)
    · simp only [resp, plain, hb, hresp]
  obtain ⟨data, hdata⟩ := exists_marshal (m := { ack msg code payload with options := final })
    (by decide : typeACK ≤ 3) htoken hfinal
  refine ⟨data, _, parse_of_marshal hfinal hdata, rfl, rfl, rfl, rfl, ?_⟩
  rw [hresp, hdata]
  dsimp only
  have hset : (r.2.setResponse dedup data).srv.state = t.srv.state ∧
      (r.2.setResponse dedup data).log = t.log := by
    cases dedup with
    | none | some key => exact ⟨hstate, hlog⟩
  unfold Turn.send
  rw [hset.1]
  cases t.srv.state sess.id with
  | closed => exact hset.2
  | active =>
    show (r.2.setResponse dedup data).log ++ _ = _
    rw [hset.2]

variable {w now t sess msg}

/-- If nothing before the response was an ACK, the request is answered exactly when the
session is open. -/
theorem answered_sendDedupResponse {u : Turn} (hu : u.log = []) (hnone : LogExt Event.NoAck u t)
    (hwrites : ∀ n, w.write n = true) (htoken : msg.token.length ≤ 8) {code : UInt8}
    (payload : Bytes) (opts : ResponseOptions) {P : UInt8 → Prop} (hcode : P code) :
    Answered (t.sendDedupResponse w sess msg code payload dedup opts).log sess.remote msg P ↔
      t.srv.state sess.id = .active := by
  obtain ⟨data, resp, hparse, htype, hid, htok, hresp, hlog⟩ :=
    log_sendDedupResponse w t sess msg htoken code payload opts
  rw [hlog]
  cases hstate : t.srv.state sess.id with
  | closed =>
    refine iff_of_false (not_answered ?_ _ _ _) nofun
    obtain ⟨l, hl, hnone⟩ := hnone
    rw [hl, hu]
    exact hnone
  | active =>
    refine iff_of_true ⟨data, resp, ?_, hparse, htype, hid, htok, hresp ▸ hcode⟩ rfl
    rw [hwrites]
    exact List.mem_append_right _ (List.mem_singleton_self _)

theorem noAck_afterPlugins : LogExt Event.NoAck t (t.afterPlugins w sess msg) := by
  have hobserved : LogExt Event.NoAck t (t.handleObserve w sess msg).2 :=
    .of_eq (handleObserve_frame w t sess msg).2.2
  have hran : LogExt Event.NoAck t ((t.handleObserve w sess msg).2.emit
      (.plugins msg.type ⟨sess.remote, msg.messageID⟩)) := hobserved.emit nofun
  exact (carries_noAck t).frame hran calm_closeIf.toFrame

variable (hudp : sess.dtls = false) (hwrites : ∀ n, w.write n = true)
  (htoken : msg.token.length ≤ 8) (hcon : msg.type = typeCON)
  (hblock : hasBlock1 msg.options = false) (hlog : t.log = []) {e : Err}

include hudp hwrites htoken hcon hblock hlog

/-- The answer to a request that the plugins refuse. -/
theorem answered_pluginError (herr : w.onMessage = .error e) :
    Answered (t.handleRequest cfg w now sess msg dedup).log sess.remote msg
        (· = codeInternalServerError) ↔ t.srv.state sess.id = .active ∧ w.messageCloses = false ∧
        (Err.is .pluginDrop e = true ∨ sess.remote ∉ t.srv.peers) := by
  have hnone : LogExt Event.NoAck t (t.afterError w sess msg e) := by
    unfold Turn.afterError
    split
    · exact noAck_afterPlugins
    · exact (carries_noAck t).frame noAck_afterPlugins upkeep_dropSession.frame
  rw [handleRequest_error hblock herr, if_pos hcon]
  exact (answered_sendDedupResponse (P := (· = codeInternalServerError)) hlog hnone hwrites htoken
    _ _ rfl).trans (state_afterError hudp)

/-- The answer to a request whose `Handler` fails. -/
theorem answered_handlerError {payload : Bytes} (hresponder : cfg.hasResponder = false)
    (hhandler : cfg.hasHandler = true) (hok : w.onMessage = .ok payload)
    (herr : w.handler = .error e) :
    Answered (t.handleRequest cfg w now sess msg dedup).log sess.remote msg (fun _ => True) ↔
      t.srv.state sess.id = .active ∧ w.messageCloses = false ∧ w.handlerCloses = false ∧
        sess.remote ∉ t.srv.peers := by
  obtain ⟨hpeers, hstate⟩ := callHandler_spec w now (t.afterPlugins w sess msg) sess msg payload
  have hcalled : LogExt Event.NoAck t
      ((t.afterPlugins w sess msg).callHandler w now sess msg payload) :=
    (carries_noAck t).callHandler (noAck_afterPlugins.emit nofun) now
  have hrespond : t.handleRequest cfg w now sess msg dedup =
      (((t.afterPlugins w sess msg).callHandler w now sess msg payload).dropSession sess).respond
        cfg w sess msg dedup (t.handleObserve w sess msg).1 [] := by
    unfold Turn.handleRequest
    rw [if_neg (by rw [hblock]; decide), hok]
    unfold Turn.runApplication
    rw [hresponder, hhandler, herr]
    rfl
  generalize (t.afterPlugins w sess msg).callHandler w now sess msg payload = u at *
  have hdropped : LogExt Event.NoAck t (u.dropSession sess) :=
    (carries_noAck t).frame hcalled upkeep_dropSession.frame
  have hopen : (u.dropSession sess).srv.state sess.id = .active ↔
      t.srv.state sess.id = .active ∧ w.messageCloses = false ∧ w.handlerCloses = false ∧
        sess.remote ∉ t.srv.peers := by
    rw [state_dropSession hudp, hstate, state_afterPlugins, hpeers, peers_afterPlugins]
    simp only [and_assoc]
  rw [hrespond, ← hopen]
  unfold Turn.respond
  rw [if_pos hcon]
  split <;> exact answered_sendDedupResponse hlog hdropped hwrites htoken _ _ trivial

end Turn

/-- **When a failing request is answered.**  On plain UDP, with writes that succeed, a
confirmable request seen for the first time is answered after a plugin error exactly when
its session was open, the plugins did not close it, and the error is `ErrPluginDrop` or the
session is not in the table; and after a `Handler` error exactly when nobody closed the
session and it is not in the table. -/
theorem failing_con_answered (cfg : Config) (w : World) (now : Int) (s : Server) (sess : Session)
    {data : Bytes} {msg : Message} (hudp : sess.dtls = false) (hwrites : ∀ n, w.write n = true)
    (hparse : parse data = .ok msg) (hcon : msg.type = typeCON) (hcode : msg.code ≠ codeEmpty)
    (hblock : hasBlock1 msg.options = false)
    (hfirst : s.seen[(⟨sess.remote, msg.messageID⟩ : ExchangeKey)]? = none) :
    (∀ e, w.onMessage = .error e →
      (Answered (Turn.handleCoAPMessage cfg w now ⟨s, []⟩ sess data).log sess.remote msg
          (· = codeInternalServerError) ↔
        s.state sess.id = .active ∧ w.messageCloses = false ∧
          (Err.is .pluginDrop e = true ∨ sess.remote ∉ s.peers))) ∧
    ∀ payload e, cfg.hasResponder = false → cfg.hasHandler = true → w.onMessage = .ok payload →
      w.handler = .error e →
      (Answered (Turn.handleCoAPMessage cfg w now ⟨s, []⟩ sess data).log sess.remote msg
          (fun _ => True) ↔
        s.state sess.id = .active ∧ w.messageCloses = false ∧ w.handlerCloses = false ∧
          sess.remote ∉ s.peers) := by
  have htoken : msg.token.length ≤ 8 := token_le_of_parse hparse
  have hnack : msg.type ≠ typeACK := by rw [hcon]; decide
  have hnrst : msg.type ≠ typeRST := by rw [hcon]; decide
  have hrequest : Turn.handleCoAPMessage cfg w now ⟨s, []⟩ sess data =
      ((⟨s, []⟩ : Turn).storeSeen ⟨sess.remote, msg.messageID⟩).handleRequest cfg w now sess msg
        (some ⟨sess.remote, msg.messageID⟩) := by
    unfold Turn.handleCoAPMessage
    rw [hparse]
    unfold Turn.handleMessage
    dsimp only
    rw [if_neg hnack, if_neg hnrst, if_neg hcode, if_pos hcon, hfirst]
  rw [hrequest]
  refine ⟨?_, ?_⟩
  · intro e herr
    exact Turn.answered_pluginError hudp hwrites htoken hcon hblock rfl herr
  · intro payload e hresponder hhandler hok herr
    exact Turn.answered_handlerError hudp hwrites htoken hcon hblock rfl hresponder hhandler hok herr

/-- The server once the peer has its session. -/
def metServer : Server :=
  (Turn.getOrCreateUDPSession steadyWorld 0 ⟨freshServer, []⟩ [0x61] none).2.srv

/-- `ErrPluginDrop` leaves the session open, and the request is answered. -/
theorem failing_con_answered_dropped :
    peerSession.remote ∈ metServer.peers ∧
      Answered (Turn.handleCoAPMessage responderConfig droppingWorld 0 ⟨metServer, []⟩ peerSession
        [0x40, 1, 0, 8]).log [0x61] ⟨typeCON, codeGet, 8, [], ∅, []⟩
        (· = codeInternalServerError) := by
  have hparse : parse [0x40, 1, 0, 8] = .ok ⟨typeCON, codeGet, 8, [], ∅, []⟩ := by decide +kernel
  refine ⟨by decide, ((failing_con_answered responderConfig droppingWorld 0 metServer
    peerSession rfl (fun _ => rfl) hparse rfl (by decide) (by decide)
    (by decide)).1 .pluginDrop rfl).mpr ⟨by decide, rfl, .inl rfl⟩⟩

def handlerConfig : Config := ⟨false, true, 0, 120 * second⟩

/-- Every other plugin error, and every `Handler` error, closes the session first: nothing
is sent. -/
theorem failing_con_unanswered :
    (Turn.serve responderConfig 0 ⟨freshServer, []⟩
        (.datagram [0x61] none [0x40, 1, 0, 8] failingWorld)).log =
      [.onAccept 1, .plugins typeCON ⟨[0x61], 8⟩, .onClose 1] ∧
    (Turn.serve handlerConfig 0 ⟨freshServer, []⟩
        (.datagram [0x61] none [0x40, 1, 0, 8]
          { steadyWorld with handler := .error (.other "handler") })).log =
      [.onAccept 1, .plugins typeCON ⟨[0x61], 8⟩, .handler typeCON ⟨[0x61], 8⟩ [], .onClose 1] := by
  decide +kernel

end SharkSocket.Coap
