import SharkSocket.Coap.Serve

/-!
# What most of the server leaves alone

`Frame p t u`: from `t` to `u` the dedup table and the pending notifications are
unchanged, and the log has grown by events of kind `p` only.  In a `Calm` frame the tables
of sessions and relations are unchanged as well.

Everything that works on sessions, the quota, the manager and the observe relations is a
sequence of `Upkeep` steps, each calm or a change of one table.  Such a sequence is a frame
for lifecycle events (`Upkeeps.frame`); what writes to a socket is one for plain events.
-/

namespace SharkSocket.Coap

open Lib
open SharkSocket.Shared (PeerIP)
open Std (ExtTreeMap)

def Event.lifecycle : Event → Prop
  | .onAccept _ | .onClose _ => True
  | _ => False

def Event.plain : Event → Prop
  | .onAccept _ | .onClose _ | .sent _ _ _ => True
  | _ => False

theorem Event.plain_of_lifecycle : ∀ (e : Event), e.lifecycle → e.plain := by
  intro e he
  cases e <;> trivial

/-- The log has grown by events that satisfy `p`. -/
def LogExt (p : Event → Prop) (t u : Turn) : Prop := ∃ l, u.log = t.log ++ l ∧ ∀ e ∈ l, p e

namespace LogExt

variable {p q : Event → Prop} {t u v : Turn}

theorem of_eq (h : u.log = t.log) : LogExt p t u := ⟨[], by rw [h, List.append_nil], by simp⟩

theorem trans (h : LogExt p t u) (g : LogExt p u v) : LogExt p t v := by
  obtain ⟨l, hl, pl⟩ := h
  obtain ⟨m, hm, pm⟩ := g
  refine ⟨l ++ m, by rw [hm, hl, List.append_assoc], ?_⟩
  intro e he
  rcases List.mem_append.mp he with he | he
  · exact pl e he
  · exact pm e he

theorem emit (h : LogExt p t u) {e : Event} (he : p e) : LogExt p t (u.emit e) :=
  h.trans ⟨[e], rfl, by simpa using he⟩

theorem mono (h : LogExt p t u) (hpq : ∀ e, p e → q e) : LogExt q t u := by
  obtain ⟨l, hl, pl⟩ := h
  exact ⟨l, hl, fun e he => hpq e (pl e he)⟩

end LogExt

structure Frame (p : Event → Prop) (t u : Turn) : Prop where
  seen : u.srv.seen = t.srv.seen
  pending : u.srv.pendingNotifies = t.srv.pendingNotifies
  log : LogExt p t u

namespace Frame

variable {p : Event → Prop} {t u v : Turn}

theorem of_log (hs : u.srv.seen = t.srv.seen)
    (hp : u.srv.pendingNotifies = t.srv.pendingNotifies) (hl : u.log = t.log) : Frame p t u :=
  ⟨hs, hp, .of_eq hl⟩

theorem refl (t : Turn) : Frame p t t := .of_log rfl rfl rfl

theorem trans (h : Frame p t u) (g : Frame p u v) : Frame p t v :=
  ⟨g.seen.trans h.seen, g.pending.trans h.pending, h.log.trans g.log⟩

theorem emit (h : Frame p t u) {e : Event} (he : p e) : Frame p t (u.emit e) :=
  ⟨h.seen, h.pending, h.log.emit he⟩

theorem plain (h : Frame Event.lifecycle t u) : Frame Event.plain t u :=
  ⟨h.seen, h.pending, h.log.mono Event.plain_of_lifecycle⟩

end Frame

/-- The tables of sessions and relations do not change either, and no message ID is drawn. -/
structure Calm (p : Event → Prop) (t u : Turn) : Prop extends Frame p t u where
  peers : u.srv.peers = t.srv.peers
  conns : u.srv.dtlsConns = t.srv.dtlsConns
  observers : u.srv.observers = t.srv.observers
  lastMsgID : u.srv.lastMsgID = t.srv.lastMsgID

namespace Calm

variable {p : Event → Prop} {t u v : Turn}

theorem refl (t : Turn) : Calm p t t := ⟨.refl t, rfl, rfl, rfl, rfl⟩

theorem trans (h : Calm p t u) (g : Calm p u v) : Calm p t v :=
  ⟨h.toFrame.trans g.toFrame, g.peers.trans h.peers, g.conns.trans h.conns,
    g.observers.trans h.observers, g.lastMsgID.trans h.lastMsgID⟩

theorem emit (t : Turn) {e : Event} (he : p e) : Calm p t (t.emit e) :=
  ⟨(Frame.refl t).emit he, rfl, rfl, rfl, rfl⟩

end Calm

/-- What the server does to the registry, with new relations limited to `P`. -/
inductive ObserverRegistry.Change (P : Bytes → Bytes → Prop) (r : ObserverRegistry) :
    ObserverRegistry → Prop
  | register (walk : WalkOrder (Bytes × Observer)) (resource : Bytes) {remote token : Bytes} :
      P remote token → Change P r (r.register walk resource remote token).1
  | remove (resource remote token : Bytes) : Change P r (r.removeLocked resource remote token)
  | removeByToken (remote token : Bytes) : Change P r (r.removeByToken remote token)
  | removeBySession (remote : Bytes) : Change P r (r.removeBySession remote)
  | nextSeq (obs : Observer) : Change P r (r.nextSeq obs).2

variable (P : Bytes → Prop) (R : Bytes → Bytes → Prop) (t : Turn) in
/-- One thing the work on sessions and relations does.  `P` limits the remotes of new
sessions, and `R` new relations. -/
inductive Upkeep : Turn → Prop
  | calm {u : Turn} : Calm Event.lifecycle t u → Upkeep u
  | storePeer (now : Int) {sess : Session} : P sess.remote → Upkeep (t.storePeer now sess)
  | storeConn (now : Int) {sess : Session} : P sess.remote → Upkeep (t.storeConn now sess)
  | delete (key : SessionKey) : Upkeep (t.delete key)
  | forgetConn (sess : Session) : Upkeep (t.forgetConn sess)
  | observers {r : ObserverRegistry} : t.srv.observers.Change R r →
      Upkeep { t with srv := { t.srv with observers := r } }

def Upkeeps (P : Bytes → Prop) (R : Bytes → Bytes → Prop) : Turn → Turn → Prop :=
  Relation.ReflTransGen (Upkeep P R)

namespace Upkeeps

variable {P : Bytes → Prop} {R : Bytes → Bytes → Prop} {t u v : Turn}

theorem refl (t : Turn) : Upkeeps P R t t := Relation.ReflTransGen.refl

theorem trans (h : Upkeeps P R t u) (g : Upkeeps P R u v) : Upkeeps P R t v :=
  Relation.ReflTransGen.trans h g

theorem one (h : Upkeep P R t u) : Upkeeps P R t u := Relation.ReflTransGen.single h

theorem calm (h : Calm Event.lifecycle t u) : Upkeeps P R t u := one (.calm h)

theorem emit (h : Upkeeps P R t u) {e : Event} (he : e.lifecycle) : Upkeeps P R t (u.emit e) :=
  h.trans (calm (.emit u he))

/-- Without limits, everything on sessions and relations is a frame. -/
theorem frame (h : Upkeeps (fun _ => True) (fun _ _ => True) t u) :
    Frame Event.lifecycle t u := by
  induction h with
  | refl => exact .refl t
  | tail _ hone ih =>
    refine ih.trans ?_
    cases hone with
    | calm hc => exact hc.toFrame
    | delete key => cases key <;> exact .of_log rfl rfl rfl
    | _ => exact .of_log rfl rfl rfl

end Upkeeps

/-- From `t` to `u` an answer was recorded and sent: the dedup table only
changed at `dedup` and no key left it. -/
structure Reply (dedup : Option ExchangeKey) (t u : Turn) : Prop where
  seen : ∀ k : ExchangeKey, dedup ≠ some k → u.srv.seen[k]? = t.srv.seen[k]?
  kept : ∀ k ∈ t.srv.seen, k ∈ u.srv.seen
  pending : u.srv.pendingNotifies = t.srv.pendingNotifies
  log : LogExt Event.plain t u

theorem Reply.trans {dedup : Option ExchangeKey} {t u v : Turn} (h : Reply dedup t u)
    (g : Reply dedup u v) : Reply dedup t v :=
  ⟨fun k hk => (g.seen k hk).trans (h.seen k hk), fun k hk => g.kept k (h.kept k hk),
    g.pending.trans h.pending, h.log.trans g.log⟩

theorem Frame.reply {t u : Turn} (h : Frame Event.plain t u) (dedup : Option ExchangeKey) :
    Reply dedup t u :=
  ⟨fun _ _ => by rw [h.seen], fun _ hk => by rwa [h.seen], h.pending, h.log⟩

namespace Turn

variable {P : Bytes → Prop} {R : Bytes → Bytes → Prop} {t : Turn} {w : World} {now : Int}
  {sess : Session} {msg : Message} {obs : Observer} {remote resource data : Bytes} {ip : PeerIP}

/-! ### What changes no table -/

theorem calm_close : Calm Event.lifecycle t (t.close sess) := by
  unfold close
  split
  · exact .refl t
  · exact ⟨.of_log rfl rfl rfl, rfl, rfl, rfl, rfl⟩

theorem calm_closeIf {b : Bool} : Calm Event.lifecycle t (t.closeIf b sess) := by
  unfold closeIf
  split
  · exact calm_close
  · exact .refl t

theorem calm_send : Calm Event.plain t (t.send w sess data).2 := by
  unfold send
  split
  · exact .refl t
  · exact .emit t trivial

theorem calm_sendACKMsg : Calm Event.plain t (t.sendACKMsg w sess msg).2 := by
  unfold sendACKMsg
  split
  · exact .refl t
  · exact calm_send

theorem calm_replyToDuplicate {entry : SeenEntry} :
    Calm Event.plain t (t.replyToDuplicate w sess msg entry) := by
  unfold replyToDuplicate
  split
  · exact calm_send
  · exact calm_sendACKMsg

theorem calm_unregister : Calm Event.lifecycle t (t.unregister sess) :=
  ⟨.of_log rfl rfl rfl, rfl, rfl, rfl, rfl⟩

theorem calm_touch : Calm Event.lifecycle t (t.touch now sess) :=
  ⟨.of_log rfl rfl rfl, rfl, rfl, rfl, rfl⟩

theorem calm_takeID : Calm Event.lifecycle t t.takeID.2 :=
  ⟨.of_log rfl rfl rfl, rfl, rfl, rfl, rfl⟩

theorem calm_tryAcquire : Calm Event.lifecycle t (t.tryAcquire ip).2 := by
  unfold tryAcquire
  split
  · exact .refl t
  · exact ⟨.of_log rfl rfl rfl, rfl, rfl, rfl, rfl⟩

theorem calm_register : Calm Event.lifecycle t (t.register sess).2 := by
  unfold register
  split
  · exact .refl t
  · exact ⟨.of_log rfl rfl rfl, rfl, rfl, rfl, rfl⟩

theorem calm_onAccept : Calm Event.lifecycle t (t.onAccept w sess).2 := by
  unfold onAccept
  split
  · exact calm_closeIf
  · exact (Calm.emit t trivial).trans calm_closeIf

/-! ### Relations -/

theorem upkeep_removeBySession : Upkeeps P R t (t.removeBySession remote) :=
  .one (.observers (.removeBySession remote))

theorem upkeep_removeObserver : Upkeeps P R t (t.removeObserver resource obs) :=
  .one (.observers (.remove _ _ _))

theorem upkeep_cancelRelation {a : Bytes × Bytes} : Upkeeps P R t (t.cancelRelation a) :=
  .one (.observers (.removeByToken _ _))

theorem upkeep_handleObserve (hr : R sess.remote msg.token) :
    Upkeeps P R t (t.handleObserve w sess msg).2 := by
  unfold handleObserve
  split
  · exact .refl t
  split
  · exact .refl t
  dsimp only
  split
  · exact .one (.observers (.register _ _ hr))
  split
  · exact .one (.observers (.remove _ _ _))
  · exact .refl t

theorem upkeep_nextSeq : Upkeeps P R t (t.nextSeq obs).2 :=
  .one (.observers (.nextSeq obs))

theorem upkeep_observerSeq : Upkeeps P R t (t.observerSeq sess msg).2 := by
  unfold observerSeq
  split
  · exact .refl t
  split
  · exact .refl t
  · exact upkeep_nextSeq

theorem upkeep_addObserveSeq {resp : Message} : Upkeeps P R t (t.addObserveSeq sess msg resp).2 := by
  have hseq : Upkeeps P R t (t.observerSeq sess msg).2 := upkeep_observerSeq
  unfold addObserveSeq
  split <;> (rename_i he; rw [he] at hseq; exact hseq)

/-! ### Sessions -/

theorem upkeep_closeSession {key : SessionKey} : Upkeeps P R t (t.closeSession key sess).2 := by
  unfold closeSession
  split
  · have hgone : Upkeeps P R t ((t.delete key).removeBySession sess.remote) :=
      (Upkeeps.one (.delete key)).trans upkeep_removeBySession
    exact (hgone.trans (.calm (calm_unregister.trans calm_close))).emit trivial
  · exact .refl t

theorem upkeep_dropSession : Upkeeps P R t (t.dropSession sess) := by
  unfold dropSession
  split
  · exact .calm calm_close
  · exact upkeep_closeSession

theorem upkeep_admitPeer : Upkeeps P R t (t.admitPeer w sess).2 := by
  unfold admitPeer
  have hr : Upkeeps P R t (t.register sess).2 := .calm calm_register
  split
  · rename_i u he
    rw [he] at hr
    exact (hr.trans (.one (.delete _))).trans (.calm calm_close)
  rename_i u he
  rw [he] at hr
  have ha : Upkeeps P R t (u.onAccept w sess).2 := hr.trans (.calm calm_onAccept)
  split
  · rename_i hv
    rw [hv] at ha
    exact ha
  rename_i v hv
  rw [hv] at ha
  split
  · exact (ha.trans (.one (.delete _))).trans (.calm (calm_unregister.trans calm_close))
  · exact ha

theorem upkeep_createUDPSession (hremote : P remote) :
    Upkeeps P R t (t.createUDPSession w now remote ip).2 := by
  unfold createUDPSession
  have hq : Calm Event.lifecycle t (t.tryAcquire ip).2 := calm_tryAcquire
  split
  · rename_i he
    rw [he] at hq
    exact .calm hq
  rename_i u he
  rw [he] at hq
  have hid : Calm Event.lifecycle t u.takeID.2 := hq.trans calm_takeID
  dsimp only
  split
  · exact .calm (hid.trans calm_close)
  · exact ((Upkeeps.calm hid).trans (.one (.storePeer now hremote))).trans upkeep_admitPeer

theorem upkeep_getOrCreateUDPSession (hremote : P remote) :
    Upkeeps P R t (t.getOrCreateUDPSession w now remote ip).2 := by
  unfold getOrCreateUDPSession
  split
  · exact upkeep_createUDPSession hremote
  split
  · exact .refl t
  · exact upkeep_closeSession.trans (upkeep_createUDPSession hremote)

theorem upkeep_endDTLSConn {accepted : Bool} : Upkeeps P R t (t.endDTLSConn accepted sess) := by
  unfold endDTLSConn
  extract_lets u v
  have hu : Upkeeps P R t u :=
    ((Upkeeps.calm calm_close).trans (.one (.forgetConn sess))).trans upkeep_removeBySession
  have hv : Upkeeps P R t v := (hu.trans (.one (.delete _))).trans (.calm calm_unregister)
  split
  · split
    · exact hv.emit trivial
    · exact hv
  · exact hu

theorem upkeep_startDTLSConn (hremote : P remote) :
    Upkeeps P R t (t.startDTLSConn w now remote ip) := by
  unfold startDTLSConn
  extract_lets r s
  have hu : Upkeeps P R t (r.2.storeConn now s) :=
    (Upkeeps.calm calm_takeID).trans (.one (.storeConn now hremote))
  have hr : Upkeeps P R t ((r.2.storeConn now s).register s).2 := hu.trans (.calm calm_register)
  split
  · rename_i he
    rw [he] at hr
    exact hr.trans ((Upkeeps.calm calm_close).trans upkeep_endDTLSConn)
  rename_i u he
  rw [he] at hr
  have ha : Upkeeps P R t (u.onAccept w s).2 := hr.trans (.calm calm_onAccept)
  split
  · rename_i hx
    rw [hx] at ha
    exact ha.trans ((Upkeeps.calm calm_close).trans upkeep_endDTLSConn)
  rename_i hx
  rw [hx] at ha
  exact ha

theorem upkeep_sweepEntry {cfg : Config} {key : SessionKey} :
    Upkeeps P R t (t.sweepEntry cfg now key) := by
  unfold sweepEntry
  split
  · exact .refl t
  split
  · exact .refl t
  split
  · exact upkeep_closeSession
  · exact .refl t

theorem upkeep_closeEntry {key : SessionKey} : Upkeeps P R t (t.closeEntry key) := by
  unfold closeEntry
  split
  · exact .refl t
  · exact upkeep_closeSession

/-! ### Replies -/

variable (w : World) (t : Turn) (sess : Session) (msg : Message) (dedup : Option ExchangeKey)

theorem reply_setResponse (data : Bytes) : Reply dedup t (t.setResponse dedup data) := by
  cases dedup with
  | none => exact (Frame.refl t).reply none
  | some key =>
    refine ⟨?_, ?_, rfl, .of_eq rfl⟩
    · intro k hk
      have hne : key ≠ k := fun h => hk (by rw [h])
      exact getElem?_insert_of_ne hne
    · intro k hk
      exact ExtTreeMap.mem_insert.mpr (Or.inr hk)

theorem reply_answer (data : Bytes) :
    Reply dedup t ((t.setResponse dedup data).send w sess data).2 :=
  (reply_setResponse t dedup data).trans (calm_send.toFrame.reply dedup)

theorem reply_sendDedupResponse (code : UInt8) (payload : Bytes) (opts : ResponseOptions) :
    Reply dedup t (t.sendDedupResponse w sess msg code payload dedup opts) := by
  unfold sendDedupResponse
  extract_lets r resp
  have hr : Reply dedup t r.2 := by
    rcases hb : opts.observe with _ | _
    · simp only [r, hb]
      exact (Frame.refl t).reply dedup
    simp only [r, hb]
    exact upkeep_addObserveSeq.frame.plain.reply dedup
  split
  · exact hr
  · exact hr.trans (reply_answer w r.2 sess dedup _)

theorem reply_replyBlock1Unsupported :
    Reply dedup t (t.replyBlock1Unsupported w sess msg dedup) := by
  unfold replyBlock1Unsupported
  extract_lets hint resp
  split
  · exact (Frame.refl t).reply dedup
  · exact reply_answer w t sess dedup _

theorem reply_respond (cfg : Config) (registeredObserve : Bool) (body : Bytes) :
    Reply dedup t (t.respond cfg w sess msg dedup registeredObserve body) := by
  unfold respond
  split
  · split <;> exact reply_sendDedupResponse w t sess msg dedup _ _ _
  split
  · have hq : Reply dedup t (t.observerSeq sess msg).2 := upkeep_observerSeq.frame.plain.reply dedup
    extract_lets r notify
    split
    · exact hq
    · exact hq.trans (calm_send.toFrame.reply dedup)
  · exact (Frame.refl t).reply dedup

end Turn

end SharkSocket.Coap
