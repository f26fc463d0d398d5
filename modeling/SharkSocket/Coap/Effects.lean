import SharkSocket.Coap.Notify
import SharkSocket.Coap.Waiting

/-!
# What the server does to its tables

`Effect p t u` is one small thing a function of the server does: it opens or forgets a
session, changes the registry, draws a message ID, tracks or drops a notification, or does
none of these (`Quiet`).  The permit `p` says for which remotes sessions are opened and
which pending notifications are tracked, dropped and advanced.

Every function is a sequence of effects.  Its lemma is proved once, up to `effects_serve`
for an input and `System.effects_step` for a step of the interleaved server, and what
holds of the tables is then checked for one effect: `Known` (the remotes of sessions are
permitted), `Tidy`, and in later modules the keys of relations and the message IDs.
-/

namespace SharkSocket.Coap

open Lib
open SharkSocket.Runtime (SessionManager)
open SharkSocket.Shared (PeerIP PeerQuota)
open Std (ExtTreeMap)

/-! ### The registry -/

namespace ObserverRegistry

variable {r r' : ObserverRegistry}

def Each (R : Bytes → Observer → Prop) (r : ObserverRegistry) : Prop :=
  ∀ (resource key : Bytes) (obs : Observer), (r.subsOf resource)[key]? = some obs → R key obs

theorem Each.change {R : Bytes → Observer → Prop} {P : Bytes → Bytes → Prop} (h : r.Each R)
    (hnew : ∀ obs : Observer, P obs.remote obs.token → R (observerKey obs.remote obs.token) obs)
    (hc : r.Change P r') : r'.Each R := by
  intro resource key obs hobs
  cases hc with
  | register walk resource' hP =>
    rcases of_getElem?_register hobs with hold | ⟨rfl, rfl, rfl⟩
    · exact h resource key obs hold
    · exact hnew obs hP
  | remove => exact h resource key obs (of_getElem?_removeLocked hobs).1
  | removeByToken => exact h resource key obs (of_getElem?_removeByToken hobs).1
  | removeBySession => exact h resource key obs (of_getElem?_removeBySession hobs).1
  | nextSeq => exact h resource key obs hobs

theorem shortTokens_iff : r.ShortTokens ↔ r.Each fun _ obs => obs.token.length ≤ 8 := by
  constructor
  · intro h resource key obs hobs
    exact h.subsOf hobs
  · intro h resource subs hs key obs hobs
    exact h resource key obs (getElem?_subsOf.mpr ⟨subs, hs, hobs⟩)

theorem ShortTokens.change {P : Bytes → Bytes → Prop} (h : r.ShortTokens)
    (hP : ∀ remote token, P remote token → token.length ≤ 8) (hc : r.Change P r') :
    r'.ShortTokens :=
  shortTokens_iff.mpr ((shortTokens_iff.mp h).change (fun _ hobs => hP _ _ hobs) hc)

theorem ShortTokens.notify (h : r.ShortTokens) {walk : WalkOrder (Bytes × Observer)}
    {resource : Bytes} {obs : Observer} (hobs : obs ∈ r.notify walk resource) :
    obs.token.length ≤ 8 := by
  obtain ⟨key, hkey⟩ := WalkOrder.mem_values.mp hobs
  exact h.subsOf hkey

end ObserverRegistry

/-! ### Effects -/

structure Permit where
  remote : Bytes → Prop
  track : ExchangeKey → Prop
  drop : ExchangeKey → Prop
  advance : ExchangeKey → Prop

/-- Relations of the sessions that are permitted, with the token of a message. -/
def Permit.relation (p : Permit) (remote token : Bytes) : Prop :=
  p.remote remote ∧ token.length ≤ 8

def Permit.any : Permit := ⟨fun _ => True, fun _ => True, fun _ => True, fun _ => True⟩

def Event.isIssued : Event → Bool
  | .issued _ => true
  | _ => false

/-- None of the tables below changes, and no message ID is drawn. -/
structure Quiet (t u : Turn) : Prop where
  peers : u.srv.peers = t.srv.peers
  conns : u.srv.dtlsConns = t.srv.dtlsConns
  observers : u.srv.observers = t.srv.observers
  pending : u.srv.pendingNotifies = t.srv.pendingNotifies
  lastMsgID : u.srv.lastMsgID = t.srv.lastMsgID
  log : LogExt (fun e => e.isIssued = false) t u

theorem Quiet.refl (t : Turn) : Quiet t t := ⟨rfl, rfl, rfl, rfl, rfl, .of_eq rfl⟩

variable {t u : Turn}

theorem Quiet.trans {v : Turn} (h : Quiet t u) (g : Quiet u v) : Quiet t v :=
  ⟨g.peers.trans h.peers, g.conns.trans h.conns, g.observers.trans h.observers,
    g.pending.trans h.pending, g.lastMsgID.trans h.lastMsgID, h.log.trans g.log⟩

theorem Quiet.emit (t : Turn) {e : Event} (he : e.isIssued = false) : Quiet t (t.emit e) :=
  ⟨rfl, rfl, rfl, rfl, rfl, (LogExt.of_eq rfl).emit he⟩

theorem Calm.plain (h : Calm Event.lifecycle t u) : Calm Event.plain t u :=
  ⟨h.toFrame.plain, h.peers, h.conns, h.observers, h.lastMsgID⟩

theorem Calm.quiet (h : Calm Event.plain t u) : Quiet t u := by
  refine ⟨h.peers, h.conns, h.observers, h.pending, h.lastMsgID, h.log.mono fun e he => ?_⟩
  cases e with
  | issued => cases he
  | _ => rfl

variable (p : Permit) (t : Turn) in
inductive Effect : Turn → Prop
  | quiet {u : Turn} : Quiet t u → Effect u
  | storePeer (now : Int) {sess : Session} : p.remote sess.remote → Effect (t.storePeer now sess)
  | storeConn (now : Int) {sess : Session} : p.remote sess.remote → Effect (t.storeConn now sess)
  | delete (key : SessionKey) : Effect (t.delete key)
  | forgetConn (sess : Session) : Effect (t.forgetConn sess)
  | observers {r : ObserverRegistry} : t.srv.observers.Change p.relation r →
      Effect { t with srv := { t.srv with observers := r } }
  | issue (remote : Bytes) : Effect (t.issue remote)
  /-- A notification from its message ID to its entry in the table. -/
  | notify (remote : Bytes) {u : Turn} (now draw : Int) (token data : Bytes) :
      Quiet (t.issue remote) u →
      Effect (u.trackNotify now draw ⟨remote, t.nextMessageID.1⟩ token data)
  | track (now draw : Int) {key : ExchangeKey} (token data : Bytes) : p.track key →
      Effect (t.trackNotify now draw key token data)
  | untrack {key : ExchangeKey} : p.drop key → Effect (t.untrackNotify key)
  | advance (now : Int) {key : ExchangeKey} {pn : PendingNotify} : p.advance key →
      t.srv.pendingNotifies[key]? = some pn → Effect { t with srv := { t.srv with
        pendingNotifies := t.srv.pendingNotifies.insert key (pn.advance now) } }

def Effects (p : Permit) : Turn → Turn → Prop := Relation.ReflTransGen (Effect p)

namespace Effects

variable {p : Permit} {t u v : Turn}

theorem refl (t : Turn) : Effects p t t := Relation.ReflTransGen.refl

theorem trans (h : Effects p t u) (g : Effects p u v) : Effects p t v :=
  Relation.ReflTransGen.trans h g

theorem one (h : Effect p t u) : Effects p t u := Relation.ReflTransGen.single h

theorem quiet (h : Quiet t u) : Effects p t u := one (.quiet h)

theorem emit (h : Effects p t u) {e : Event} (he : e.isIssued = false) : Effects p t (u.emit e) :=
  h.trans (quiet (.emit u he))

/-- **The invariant rule.** -/
theorem inv {I : Turn → Prop} (hstep : ∀ t u, I t → Effect p t u → I u) (h : Effects p t u)
    (ht : I t) : I u := by
  induction h with
  | refl => exact ht
  | tail _ he ih => exact hstep _ _ ih he

end Effects

theorem Upkeep.effect {p : Permit} (h : Upkeep p.remote p.relation t u) : Effect p t u := by
  cases h with
  | calm hc => exact .quiet hc.plain.quiet
  | storePeer now hr => exact .storePeer now hr
  | storeConn now hr => exact .storeConn now hr
  | delete key => exact .delete key
  | forgetConn sess => exact .forgetConn sess
  | observers hc => exact .observers hc

theorem Upkeeps.effects {p : Permit} (h : Upkeeps p.remote p.relation t u) : Effects p t u :=
  Relation.ReflTransGen.mono (fun _ _ => Upkeep.effect) _ _ h

/-! ### What every effect keeps -/

/-- The remotes of the sessions that messages arrive on are permitted, and tokens are those
of messages. -/
structure Known (P : Bytes → Prop) (t : Turn) : Prop where
  peers : ∀ (remote : Bytes) (sess : Session), t.srv.peers[remote]? = some sess →
    P sess.remote
  conns : ∀ (id : UInt64) (sess : Session), t.srv.dtlsConns[id]? = some sess → P sess.remote
  short : t.srv.observers.ShortTokens

namespace Known

variable {P : Bytes → Prop} {p : Permit} {t u : Turn}

theorem of_eq (h : Known P t) (hp : u.srv.peers = t.srv.peers)
    (hc : u.srv.dtlsConns = t.srv.dtlsConns) (ho : u.srv.observers = t.srv.observers) : Known P u :=
  ⟨by rw [hp]; exact h.peers, by rw [hc]; exact h.conns, by rw [ho]; exact h.short⟩

theorem effect (h : Known p.remote t) (he : Effect p t u) : Known p.remote u := by
  cases he with
  | quiet hq | notify remote now draw token data hq => exact h.of_eq hq.peers hq.conns hq.observers
  | storePeer now hs => exact ⟨forall_insert h.peers hs, h.conns, h.short⟩
  | storeConn now hs => exact ⟨h.peers, forall_insert h.conns hs, h.short⟩
  | delete key =>
    cases key with
    | peer remote => exact ⟨forall_erase h.peers remote, h.conns, h.short⟩
    | conn id => exact h.of_eq rfl rfl rfl
  | forgetConn sess => exact ⟨h.peers, forall_erase h.conns sess.id, h.short⟩
  | observers hc => exact ⟨h.peers, h.conns, h.short.change (fun _ _ hr => hr.2) hc⟩
  | issue remote => exact h.of_eq rfl rfl rfl
  | track now draw token data hk | untrack hk | advance now hk hpn => exact h.of_eq rfl rfl rfl

theorem effects (h : Known p.remote t) (he : Effects p t u) : Known p.remote u :=
  he.inv (fun _ _ ht hone => ht.effect hone) h

end Known

theorem Turn.Tidy.of_eq (h : t.Tidy) (hp : u.srv.peers = t.srv.peers)
    (ho : u.srv.observers = t.srv.observers) : u.Tidy :=
  ⟨by rw [hp]; exact h.keyed, by rw [ho]; exact h.short⟩

theorem Turn.Tidy.effect {p : Permit} (h : t.Tidy) (he : Effect p t u) : u.Tidy := by
  cases he with
  | quiet hq => exact h.of_eq hq.peers hq.observers
  | storePeer now hs => exact ⟨forall_insert h.keyed rfl, h.short⟩
  | delete key =>
    cases key with
    | peer remote => exact ⟨forall_erase h.keyed remote, h.short⟩
    | conn id => exact h.of_eq rfl rfl
  | observers hc => exact ⟨h.keyed, h.short.change (fun _ _ hr => hr.2) hc⟩
  | notify remote now draw token data hq => exact h.of_eq hq.peers hq.observers
  | _ => exact h.of_eq rfl rfl

theorem Turn.Tidy.effects {p : Permit} (h : t.Tidy) (he : Effects p t u) : u.Tidy :=
  he.inv (fun _ _ ht hone => ht.effect hone) h

/-- With no limit on remotes, everything is known of a tidy server. -/
theorem Turn.Tidy.known (h : t.Tidy) : Known Permit.any.remote t :=
  ⟨fun _ _ _ => trivial, fun _ _ _ => trivial, h.short⟩

/-! ### Sessions and relations -/

theorem shortValues_observe (seq : UInt32) :
    ShortValues ((∅ : Options).insert observeOption (encodeObserveSeq seq)) := by
  refine shortValues_empty.insert _ ?_
  unfold encodeObserveSeq
  split
  · decide
  split
  · exact (by decide : 1 ≤ 65535)
  split
  · exact (by decide : 2 ≤ 65535)
  · exact (by decide : 3 ≤ 65535)

namespace Turn

variable {p : Permit} {t : Turn} {cfg : Config} {w : World} {now : Int} {sess : Session}
  {msg : Message} {dedup : Option ExchangeKey}

variable {data : Bytes}

theorem quiet_setResponse : Quiet t (t.setResponse dedup data) := by
  cases dedup with
  | none => exact .refl t
  | some key => exact ⟨rfl, rfl, rfl, rfl, rfl, .of_eq rfl⟩

variable {key : ExchangeKey} {obs : Observer} {resource payload : Bytes}

theorem quiet_storeSeen : Quiet t (t.storeSeen key) :=
  ⟨rfl, rfl, rfl, rfl, rfl, .of_eq rfl⟩

/-! ### Replies -/

theorem effects_sendDedupResponse {code : UInt8} {payload : Bytes} {opts : ResponseOptions} :
    Effects p t (t.sendDedupResponse w sess msg code payload dedup opts) := by
  unfold Turn.sendDedupResponse
  extract_lets r resp
  have hr : Effects p t r.2 := by
    rcases hb : opts.observe with _ | _
    · simp only [r, hb]
      exact .refl t
    simp only [r, hb]
    exact upkeep_addObserveSeq.effects
  split
  · exact hr
  · exact hr.trans (.quiet (quiet_setResponse.trans calm_send.quiet))

/-- Without an Observe option the response leaves the registry alone. -/
theorem quiet_sendDedupResponse {code : UInt8} {payload : Bytes} {block2 : Option BlockOption} :
    Quiet t (t.sendDedupResponse w sess msg code payload dedup ⟨false, block2⟩) := by
  unfold Turn.sendDedupResponse
  dsimp only
  split
  · exact .refl t
  · exact quiet_setResponse.trans calm_send.quiet

theorem quiet_replyBlock1Unsupported : Quiet t (t.replyBlock1Unsupported w sess msg dedup) := by
  unfold Turn.replyBlock1Unsupported
  dsimp only
  split
  · exact .refl t
  · exact quiet_setResponse.trans calm_send.quiet

theorem effects_respond {registered : Bool} {body : Bytes} :
    Effects p t (t.respond cfg w sess msg dedup registered body) := by
  unfold Turn.respond
  split
  · split <;> exact effects_sendDedupResponse
  split
  · have hseq : Effects p t (t.observerSeq sess msg).2 := upkeep_observerSeq.effects
    dsimp only
    split
    · exact hseq
    · exact hseq.trans (.quiet calm_send.quiet)
  · exact .refl t

/-! ### Notifications -/

theorem exists_marshal_notification (t : Turn) (hobs : obs.token.length ≤ 8) (payload : Bytes) :
    ∃ data, (t.notificationTo obs payload).marshal = .ok data :=
  exists_marshal UInt8.zero_le hobs (shortValues_observe _)

/-- A notification either finds no session, or draws a message ID and is issued: its token
fits into a message, so the encoder accepts it. -/
theorem notifyPrepare_short (w : World) (t : Turn) (resource payload : Bytes)
    (hobs : obs.token.length ≤ 8) :
    t.notifyPrepare w resource payload obs = (none, t.removeObserver resource obs) ∨
    ∃ target data, t.notifyPrepare w resource payload obs =
      (some ⟨resource, obs, target, t.outgoingKey obs, data⟩,
        (t.nextSeq obs).2.issue obs.remote) := by
  rcases notifyPrepare_cases w t resource payload obs with
    ⟨-, he⟩ | ⟨e, hm, -⟩ | ⟨target, data, -, -, he⟩
  · exact .inl he
  · obtain ⟨data, hdata⟩ := exists_marshal_notification t hobs payload
    rw [hdata] at hm
    cases hm
  · exact .inr ⟨target, data, he⟩

theorem effects_notifyPrepare (hobs : obs.token.length ≤ 8) :
    Effects p t (t.notifyPrepare w resource payload obs).2 := by
  rcases notifyPrepare_short w t resource payload hobs with he | ⟨target, data, he⟩
  · rw [he]
    exact upkeep_removeObserver.effects
  rw [he]
  exact upkeep_nextSeq.effects.trans (.one (.issue obs.remote))

theorem effects_notifySend {o : Outgoing} : Effects p t (t.notifySend w o).2 := by
  rcases notifySend_cases w t o with ⟨e, -, he⟩ | ⟨-, he⟩
  · rw [he]
    exact ((Effects.quiet calm_send.quiet).trans upkeep_removeObserver.effects).emit rfl
  rw [he]
  exact (Effects.quiet calm_send.quiet).emit rfl

theorem effects_notifyOne (hobs : obs.token.length ≤ 8) :
    Effects p t (notifyOne w now resource payload t obs) := by
  generalize hu : notifyOne w now resource payload t obs = u
  cases notifyOne_outcome hu with
  | gone hfind => exact upkeep_removeObserver.effects
  | unencoded hm =>
    obtain ⟨data, hdata⟩ := exists_marshal_notification t hobs payload
    rw [hdata] at hm
    cases hm
  | dropped hfind hm herr =>
    have hissued : Effects p t ((t.nextSeq obs).2.issue obs.remote) :=
      upkeep_nextSeq.effects.trans (.one (.issue obs.remote))
    exact ((hissued.trans (.quiet calm_send.quiet)).trans upkeep_removeObserver.effects).emit rfl
  | tracked hfind hm herr =>
    refine upkeep_nextSeq.effects.trans (.one (.notify obs.remote _ _ _ _ ?_))
    exact calm_send.quiet.trans (.emit _ rfl)

theorem effects_notifyObservers (hshort : t.srv.observers.ShortTokens) :
    Effects p t (t.notifyObservers w now resource payload) := by
  refine List.foldlRecOn _ _ (.refl t) ?_
  intro u hu obs hobs
  exact hu.trans (effects_notifyOne (hshort.notify hobs))

theorem effects_callHandler (hk : Known p.remote t) {payload : Bytes} :
    Effects p t (t.callHandler w now sess msg payload) := by
  have hcalled : Effects p t (t.emit (.handler msg.type ⟨sess.remote, msg.messageID⟩ payload)) :=
    .quiet (.emit t rfl)
  have hnotified : Effects p t (w.notifies.foldl (fun t n => t.notifyObservers w now n.1 n.2)
      (t.emit (.handler msg.type ⟨sess.remote, msg.messageID⟩ payload))) := by
    refine List.foldlRecOn _ _ hcalled ?_
    intro u hu n _
    exact hu.trans (effects_notifyObservers (hk.effects hu).short)
  exact hnotified.trans (.quiet calm_closeIf.plain.quiet)

theorem effects_runApplication (hk : Known p.remote t) {payload : Bytes} :
    Effects p t (t.runApplication cfg w now sess msg payload).2 := by
  have hcall : Effects p t (t.callHandler w now sess msg payload) := effects_callHandler hk
  unfold Turn.runApplication
  split
  · split
    · exact hcall.trans upkeep_dropSession.effects
    · exact hcall
  split
  · split
    · exact hcall.trans upkeep_dropSession.effects
    · exact hcall
  · exact .refl t

/-! ### Messages -/

theorem effects_admitRequest (hr : p.relation sess.remote msg.token) :
    Effects p t (t.admitRequest w sess msg dedup).2 := by
  unfold Turn.admitRequest
  split
  · exact .quiet quiet_replyBlock1Unsupported
  extract_lets o v
  have ho : Effects p t o.2 := (upkeep_handleObserve hr).effects
  have hv : Effects p t v := (ho.emit rfl).trans (.quiet calm_closeIf.plain.quiet)
  split
  · rename_i e _
    extract_lets x
    have hx : Effects p t x := by
      by_cases hd : Err.is .pluginDrop e = true
      · simp only [x, hd, if_true]
        exact hv
      simp only [x, hd]
      exact hv.trans upkeep_dropSession.effects
    have hreply : Quiet x (x.sendDedupResponse w sess msg codeInternalServerError [] dedup
        ⟨false, none⟩) := quiet_sendDedupResponse
    split
    · exact hx.trans (.quiet hreply)
    · exact hx
  · exact hv

theorem effects_admitMessage (hr : p.relation sess.remote msg.token)
    (hdrop : msg.type = typeACK ∨ msg.type = typeRST → p.drop ⟨sess.remote, msg.messageID⟩) :
    Effects p t (t.admitMessage w sess msg).2 := by
  unfold Turn.admitMessage
  extract_lets key
  split
  · rename_i hack
    exact (Effects.one (.untrack (hdrop (.inl hack)))).emit rfl
  split
  · rename_i hrst
    have htaken : Effects p t (t.takePendingNotify key).2 := by
      unfold Turn.takePendingNotify
      split
      · exact .refl t
      · exact .one (.untrack (hdrop (.inr hrst)))
    split
    · rename_i he
      rw [he] at htaken
      exact htaken.trans (.one (.observers (.removeByToken _ _)))
    rename_i he
    rw [he] at htaken
    exact htaken
  · split
    · split
      · exact .quiet calm_sendACKMsg.quiet
      · exact .refl t
    split
    · split
      · exact .quiet calm_replyToDuplicate.quiet
      · exact (Effects.quiet quiet_storeSeen).trans (effects_admitRequest hr)
    · exact effects_admitRequest hr

theorem effects_finish (hk : Known p.remote t) {q : Waiting} : Effects p t (t.finish cfg w now q) := by
  have hrun : Effects p t (t.runApplication cfg w now q.sess q.msg q.payload).2 :=
    effects_runApplication hk
  unfold Turn.finish
  split
  · rename_i he
    rw [he] at hrun
    exact hrun
  rename_i he
  rw [he] at hrun
  exact hrun.trans effects_respond

/-! ### Creating and ending sessions -/

variable {remote : Bytes} {ip : PeerIP}

theorem remote_of_createUDPSession (hk : Known p.remote t) (hremote : p.remote remote)
    (h : (t.createUDPSession w now remote ip).1 = some sess) : p.remote sess.remote := by
  unfold Turn.createUDPSession at h
  have hq : Calm Event.lifecycle t (t.tryAcquire ip).2 := calm_tryAcquire
  split at h
  · cases h
  rename_i u he
  rw [he] at hq
  dsimp only at h
  split at h
  · rename_i actual hactual
    cases h
    have hpeers : u.takeID.2.srv.peers = t.srv.peers := hq.peers
    rw [hpeers] at hactual
    exact hk.peers remote _ hactual
  unfold Turn.admitPeer at h
  split at h
  · cases h
  split at h
  · cases h
    exact hremote
  · split at h <;> cases h

theorem remote_of_getOrCreateUDPSession (hk : Known p.remote t) (hremote : p.remote remote)
    (h : (t.getOrCreateUDPSession w now remote ip).1 = some sess) : p.remote sess.remote := by
  unfold Turn.getOrCreateUDPSession at h
  split at h
  · exact remote_of_createUDPSession hk hremote h
  rename_i found hfound
  split at h
  · cases h
    exact hk.peers remote _ hfound
  · exact remote_of_createUDPSession (hk.effects upkeep_closeSession.effects) hremote h

/-! ### Loops -/

theorem effects_retransmitTake (hadvance : p.advance key) :
    Effects p t (t.retransmitTake now key).2 := by
  unfold Turn.retransmitTake
  split
  · exact .refl t
  rename_i hpn
  exact .one (.advance now hadvance hpn)

/-- A retransmission is not sent: its session is gone, or the send fails. -/
inductive Unsent (w : World) (t : Turn) (key : ExchangeKey) (data : Bytes) : Prop
  | sessionGone : t.findSessionByRemote w key.remote = none → Unsent w t key data
  | sendFailed {sess : Session} {e : Err} : t.findSessionByRemote w key.remote = some sess →
      (t.send w sess data).1 = some e → Unsent w t key data

theorem effects_retransmitSend (hdrop : Unsent w t key data → p.drop key) :
    Effects p t (t.retransmitSend w key data) := by
  unfold Turn.retransmitSend
  split
  · rename_i hgone
    exact .one (.untrack (hdrop (.sessionGone hgone)))
  rename_i target hfound
  have hs : Quiet t (t.send w target data).2 := calm_send.quiet
  split
  · rename_i he
    rw [he] at hs
    exact (Effects.quiet hs).trans
      (.one (.untrack (hdrop (.sendFailed hfound (congrArg Prod.fst he)))))
  rename_i he
  rw [he] at hs
  exact (Effects.quiet hs).emit rfl

theorem effects_retransmitOne (hadvance : p.advance key) (hdrop : p.drop key) :
    Effects p t (retransmitOne w now t key) := by
  have ht : Effects p t (t.retransmitTake now key).2 := effects_retransmitTake hadvance
  unfold Turn.retransmitOne
  split
  · rename_i he
    rw [he] at ht
    exact ht
  rename_i he
  rw [he] at ht
  exact ht.trans (effects_retransmitSend fun _ => hdrop)

theorem effects_retransmitScan {walk : WalkOrder (ExchangeKey × PendingNotify)}
    (hdrop : ∀ key pn, t.srv.pendingNotifies[key]? = some pn → pn.decide now = .giveUp →
      p.drop key) : Effects p t (t.retransmitScan walk now).2 := by
  refine List.foldlRecOn (motive := fun st : Due × Turn => Effects p t st.2) _ _ (.refl t) ?_
  rintro st hst ⟨key, pn⟩ hentry
  have hpn : t.srv.pendingNotifies[key]? = some pn := WalkOrder.mem_entries.mp hentry
  unfold Turn.scanEntry
  split
  · exact hst
  · rename_i hgive
    exact hst.trans (.one (.untrack (hdrop key pn hpn hgive)))
  · exact hst

theorem effects_cancelRelations (abandoned : List (Bytes × Bytes)) :
    Effects p t (abandoned.foldl cancelRelation t) := by
  refine List.foldlRecOn _ _ (.refl t) ?_
  intro u hu a _
  exact hu.trans upkeep_cancelRelation.effects

theorem effects_retransmitDue {walk : WalkOrder (ExchangeKey × PendingNotify)}
    (htick : ∀ key, p.drop key ∧ p.advance key) : Effects p t (t.retransmitDue w walk now) := by
  have hscan : Effects p t (t.retransmitScan walk now).2 :=
    effects_retransmitScan fun key _ _ _ => (htick key).1
  have hsent := List.foldlRecOn (t.retransmitScan walk now).1.keys
    (Turn.retransmitOne w now) hscan fun u hu k _ =>
      hu.trans (effects_retransmitOne (htick k).2 (htick k).1)
  exact hsent.trans (effects_cancelRelations _)

end Turn

/-! ### Inputs -/

/-- The peer of an input that can open a session. -/
def Input.From (P : Bytes → Prop) : Input → Prop
  | .datagram remote _ _ _ => P remote
  | .dtlsConn remote _ _ => P remote
  | _ => True

/-- Every retransmission tick is permitted, if the input is one. -/
def Permit.Ticks (p : Permit) : Input → Prop
  | .retransmitDue _ _ => ∀ key, p.drop key ∧ p.advance key
  | _ => True

section

variable {p : Permit} {t : Turn} {cfg : Config} {now : Int} {i : Input}

variable (hk : Known p.remote t)
include hk

theorem effects_deliver (hi : i.From p.remote) (htick : p.Ticks i) :
    Effects p t (deliver cfg now t i).2 := by
  have htouch : ∀ (u : Turn) (sess : Session), Effects p u (u.touch now sess) :=
    fun _ _ => .quiet Turn.calm_touch.plain.quiet
  cases i with
  | datagram remote ip data w =>
    have hs : Effects p t (t.getOrCreateUDPSession w now remote ip).2 :=
      (Turn.upkeep_getOrCreateUDPSession hi).effects
    dsimp only [Coap.deliver]
    split
    · rename_i he
      rw [he] at hs
      exact hs
    rename_i he
    rw [he] at hs
    exact hs.trans (htouch _ _)
  | dtlsConn remote ip w => exact (Turn.upkeep_startDTLSConn hi).effects
  | dtlsRead id data w =>
    dsimp only [Coap.deliver]
    split
    · exact .refl t
    split
    · exact .refl t
    · exact htouch _ _
  | dtlsEnd id =>
    dsimp only [Coap.deliver]
    split
    · exact .refl t
    · exact Turn.upkeep_endDTLSConn.effects
  | sweep key => exact Turn.upkeep_sweepEntry.effects
  | closeSessions key => exact Turn.upkeep_closeEntry.effects
  | sessionClose sess => exact .quiet Turn.calm_close.plain.quiet
  | notifyObservers resource payload w => exact Turn.effects_notifyObservers hk.short
  | retransmitDue w walk => exact Turn.effects_retransmitDue htick
  | clearSeen => exact .quiet ⟨rfl, rfl, rfl, rfl, rfl, .of_eq rfl⟩

/-- A message is handled on a session of a permitted remote. -/
theorem remote_of_deliver {c : Call} (hi : i.From p.remote)
    (h : (deliver cfg now t i).1 = some c) : p.remote c.sess.remote := by
  cases i with
  | datagram remote ip data w =>
    dsimp only [Coap.deliver] at h
    split at h
    · cases h
    rename_i he
    cases h
    exact Turn.remote_of_getOrCreateUDPSession hk hi (congrArg Prod.fst he)
  | dtlsRead id data w =>
    dsimp only [Coap.deliver] at h
    split at h
    · cases h
    rename_i hsess
    split at h
    · cases h
    cases h
    exact hk.conns id _ hsess
  | dtlsEnd id =>
    dsimp only [Coap.deliver] at h
    split at h <;> cases h
  | _ => cases h

theorem Turn.effects_receive (hi : i.From p.remote) (htick : p.Ticks i)
    (hdrop : ∀ key msg, t.received cfg now i = some (key, msg) →
      msg.type = typeACK ∨ msg.type = typeRST → p.drop key) :
    Effects p t (t.receive cfg now i).2 := by
  have hd : Effects p t (deliver cfg now t i).2 := effects_deliver hk hi htick
  have hcall : ∀ c, (deliver cfg now t i).1 = some c → p.remote c.sess.remote :=
    fun c hc => remote_of_deliver hk hi hc
  unfold Turn.receive
  unfold Turn.received at hdrop
  rcases he : deliver cfg now t i with ⟨_ | c, u⟩
  · rw [he] at hd
    exact hd
  rw [he] at hd hdrop hcall
  dsimp only at hd hdrop hcall ⊢
  cases hp : parse c.data with
  | error e => exact hd
  | ok msg =>
    rw [hp] at hdrop
    exact hd.trans (effects_admitMessage ⟨hcall c rfl, token_le_of_parse hp⟩ (hdrop _ msg rfl))

/-- **An input is a sequence of effects.** -/
theorem Turn.effects_serve (hi : i.From p.remote) (htick : p.Ticks i)
    (hdrop : ∀ key msg, t.received cfg now i = some (key, msg) →
      msg.type = typeACK ∨ msg.type = typeRST → p.drop key) : Effects p t (t.serve cfg now i) := by
  have hr : Effects p t (t.receive cfg now i).2 := effects_receive hk hi htick hdrop
  rw [serve_eq cfg now t i steadyWorld]
  rcases he : t.receive cfg now i with ⟨_ | q, u⟩
  · rw [he] at hr
    exact hr
  rw [he] at hr
  exact hr.trans (effects_finish (hk.effects hr))

end

namespace Turn.Tidy

variable {t : Turn} (h : t.Tidy)

include h

theorem notifyObservers (w : World) (now : Int) (resource payload : Bytes) :
    (t.notifyObservers w now resource payload).Tidy :=
  h.effects (p := .any) (effects_notifyObservers h.short)

theorem runApplication (cfg : Config) (w : World) (now : Int) (sess : Session) (msg : Message)
    (payload : Bytes) : (t.runApplication cfg w now sess msg payload).2.Tidy :=
  h.effects (effects_runApplication h.known)

theorem receive (cfg : Config) (now : Int) (i : Input) : (t.receive cfg now i).2.Tidy := by
  refine h.effects (effects_receive h.known ?_ ?_ fun _ _ _ _ => trivial)
  · cases i <;> trivial
  · cases i with
    | retransmitDue w walk => exact fun _ => ⟨trivial, trivial⟩
    | _ => trivial

end Turn.Tidy

/-! ### The interleaved server -/

def Action.From (P : Bytes → Prop) : Action → Prop
  | .input _ i => i.From P
  | _ => True

namespace System

/-- Why a step takes a notification out of the table. -/
inductive Settles (cfg : Config) (s : System) (key : ExchangeKey) : Action → Prop
  | answered {now : Int} {i : Input} {msg : Message} :
      s.turn.received cfg now i = some (key, msg) → msg.type = typeACK ∨ msg.type = typeRST →
      Settles cfg s key (.input now i)
  | gaveUp {now : Int} {walk : WalkOrder (ExchangeKey × PendingNotify)} {pn : PendingNotify} :
      s.turn.srv.pendingNotifies[key]? = some pn → pn.decide now = .giveUp →
      Settles cfg s key (.scan now walk)
  | unsent {w : World} {r : Retransmitter} {data : Bytes} :
      s.tick = some r → r.sending = some (key, data) → Turn.Unsent w s.turn key data →
      Settles cfg s key (.resend w)

/-- The step puts a notification that was sent into the table. -/
inductive Tracks (s : System) (key : ExchangeKey) : Action → Prop
  | mk {n : Nat} {now : Int} {w : World} {x : Notifier} {o : Turn.Outgoing} :
      s.notifiers[n]? = some x → x.pc = .tracking o → o.key = key → Tracks s key (.track n now w)

/-- The step takes a notification for its retransmission. -/
inductive Takes (s : System) (key : ExchangeKey) : Action → Prop
  | mk {r : Retransmitter} {due : List ExchangeKey} :
      s.tick = some r → r.due = key :: due → Takes s key .take

def permit (cfg : Config) (P : Bytes → Prop) (s : System) (a : Action) : Permit where
  remote := P
  track := fun key => s.Tracks key a
  drop := fun key => s.Settles cfg key a
  advance := fun key => s.Takes key a

/-- The observers a `NotifyObservers` call still has to serve came from the registry. -/
structure Known (P : Bytes → Prop) (s : System) : Prop where
  turn : Coap.Known P s.turn
  todo : ∀ n ∈ s.notifiers, ∀ obs ∈ n.todo, obs.token.length ≤ 8

variable {cfg : Config} {P : Bytes → Prop} {s s' : System} {a : Action}

theorem known_initial (manager : SessionManager) (quota : Option PeerQuota) :
    (initial manager quota).Known P where
  turn := ⟨by intro remote sess h; simp [initial, Server.new] at h,
    by intro id sess h; simp [initial, Server.new] at h,
    by intro resource subs h; simp [initial, Server.new, ObserverRegistry.new] at h⟩
  todo := by simp [initial]

/-- **A step of the interleaved server is a sequence of effects**, and each of them has one
of the reasons above. -/
theorem effects_step (hk : s.Known P) (ha : a.From P) (hs : s.step cfg a = some s') :
    Effects (s.permit cfg P a) s.turn s'.turn := by
  cases step_cases hs with
  | @input now i hi =>
    refine Turn.effects_serve hk.turn ha ?_ fun key msg hm hans => .answered hm hans
    cases i with
    | retransmitDue w walk => cases hi
    | _ => trivial
  | start resource payload w => exact .refl s.turn
  | prepare hn =>
    exact Turn.effects_notifyPrepare (hk.todo _ (List.mem_of_getElem? hn) _ List.mem_cons_self)
  | send hn => exact Turn.effects_notifySend
  | track hn => exact .one (.track _ _ _ _ (.mk hn rfl rfl))
  | scan htick => exact Turn.effects_retransmitScan fun key pn hpn hgive => .gaveUp hpn hgive
  | take htick => exact Turn.effects_retransmitTake (.mk htick rfl)
  | resend htick => exact Turn.effects_retransmitSend fun hunsent => .unsent htick rfl hunsent
  | finish htick => exact Turn.effects_cancelRelations _

theorem todo_setNotifier {n : Nat} {x y : Notifier} (hk : s.Known P) (hn : s.notifiers[n]? = some x)
    (htodo : ∀ obs ∈ y.todo, obs ∈ x.todo) :
    ∀ z ∈ (s.setNotifier t n y).notifiers, ∀ obs ∈ z.todo, obs.token.length ≤ 8 :=
  forall_mem_set hk.todo fun obs hobs =>
    hk.todo x (List.mem_of_getElem? hn) obs (htodo obs hobs)

theorem Known.step (hk : s.Known P) (ha : a.From P) (hs : s.step cfg a = some s') : s'.Known P := by
  refine ⟨hk.turn.effects (effects_step hk ha hs), ?_⟩
  cases step_cases hs with
  | start resource payload w =>
    exact forall_mem_concat hk.todo fun obs hobs => hk.turn.short.notify hobs
  | prepare hn => exact todo_setNotifier hk hn fun obs hobs => List.mem_cons_of_mem _ hobs
  | send hn | track hn => exact todo_setNotifier hk hn fun obs hobs => hobs
  | _ => exact hk.todo

end System

end SharkSocket.Coap
