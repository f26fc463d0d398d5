import SharkSocket.Coap.Frame

/-!
# Properties that are carried through the server

A property of a turn is carried when the work on sessions and relations keeps it, and a
notification does.  Then it survives the calls that only combine those (`NotifyObservers`,
the application's handler, the part of an input before `handleCoAPMessage`), and a request
as soon as its replies keep it (`Replies`).

For the notification itself, `NotifyOutcome` lists what an iteration of `NotifyObservers`
can come to.
-/

namespace SharkSocket.Coap

open Lib

/-! ### One notification -/

namespace Turn

/-- A message ID is drawn for a notification to `remote`. -/
def issue (t : Turn) (remote : Bytes) : Turn :=
  t.nextMessageID.2.emit (.issued ⟨remote, t.nextMessageID.1⟩)

/-- The message that is encoded for `obs`, and the key it is tracked under. -/
def notificationTo (t : Turn) (obs : Observer) (payload : Bytes) : Message :=
  notification (t.nextSeq obs).2.nextMessageID.1 obs.token (t.nextSeq obs).1 payload

def outgoingKey (t : Turn) (obs : Observer) : ExchangeKey :=
  ⟨obs.remote, (t.nextSeq obs).2.nextMessageID.1⟩

variable (w : World) (now : Int) (resource payload : Bytes) (t : Turn) (obs : Observer)

/-- What an iteration of `NotifyObservers` comes to: the relation goes if there is no
session or the send fails, and what was sent is tracked. -/
inductive NotifyOutcome : Turn → Prop
  | gone : t.findSessionByRemote w obs.remote = none → NotifyOutcome (t.removeObserver resource obs)
  | unencoded {e : Err} : (t.notificationTo obs payload).marshal = .error e →
      NotifyOutcome (t.nextSeq obs).2.nextMessageID.2
  | dropped {target : Session} {data : Bytes} {e : Err} :
      t.findSessionByRemote w obs.remote = some target →
      (t.notificationTo obs payload).marshal = .ok data →
      (((t.nextSeq obs).2.issue obs.remote).send w target data).1 = some e → NotifyOutcome
        (((((t.nextSeq obs).2.issue obs.remote).send w target data).2.removeObserver resource
          obs).emit (.dropped (t.outgoingKey obs)))
  | tracked {target : Session} {data : Bytes} {draw : Int} :
      t.findSessionByRemote w obs.remote = some target →
      (t.notificationTo obs payload).marshal = .ok data →
      (((t.nextSeq obs).2.issue obs.remote).send w target data).1 = none → NotifyOutcome
        (((((t.nextSeq obs).2.issue obs.remote).send w target data).2.emit
          (.notified (t.outgoingKey obs))).trackNotify now draw (t.outgoingKey obs) obs.token data)

theorem notifyPrepare_cases (resource payload : Bytes) (obs : Observer) :
    (t.findSessionByRemote w obs.remote = none ∧
      t.notifyPrepare w resource payload obs = (none, t.removeObserver resource obs)) ∨
    (∃ e, (t.notificationTo obs payload).marshal = .error e ∧
      t.notifyPrepare w resource payload obs = (none, (t.nextSeq obs).2.nextMessageID.2)) ∨
    ∃ target data, t.findSessionByRemote w obs.remote = some target ∧
      (t.notificationTo obs payload).marshal = .ok data ∧ t.notifyPrepare w resource payload obs =
        (some ⟨resource, obs, target, t.outgoingKey obs, data⟩,
          (t.nextSeq obs).2.issue obs.remote) := by
  unfold notifyPrepare notificationTo
  cases t.findSessionByRemote w obs.remote with
  | none => exact .inl ⟨rfl, rfl⟩
  | some target =>
    dsimp only
    cases (notification (t.nextSeq obs).2.nextMessageID.1 obs.token (t.nextSeq obs).1
        payload).marshal with
    | error e => exact .inr (.inl ⟨e, rfl, rfl⟩)
    | ok data => exact .inr (.inr ⟨target, data, rfl, rfl, rfl⟩)

theorem notifySend_cases (o : Outgoing) :
    (∃ e, (t.send w o.sess o.data).1 = some e ∧ t.notifySend w o =
      (false, ((t.send w o.sess o.data).2.removeObserver o.resource o.obs).emit (.dropped o.key))) ∨
    ((t.send w o.sess o.data).1 = none ∧ t.notifySend w o =
      (true, (t.send w o.sess o.data).2.emit (.notified o.key))) := by
  unfold notifySend
  rcases t.send w o.sess o.data with ⟨_ | e, u⟩
  · exact .inr ⟨rfl, rfl⟩
  · exact .inl ⟨e, rfl, rfl⟩

variable {w now resource payload t obs} in
theorem notifyOne_outcome {u : Turn} (hu : notifyOne w now resource payload t obs = u) :
    NotifyOutcome w now resource payload t obs u := by
  subst hu
  unfold notifyOne
  rcases notifyPrepare_cases w t resource payload obs with
    ⟨hfind, hprepare⟩ | ⟨e, hm, hprepare⟩ | ⟨target, data, hfind, hm, hprepare⟩
  · rw [hprepare]
    exact .gone hfind
  · rw [hprepare]
    exact .unencoded hm
  · rw [hprepare]
    dsimp only
    rcases notifySend_cases w ((t.nextSeq obs).2.issue obs.remote)
      ⟨resource, obs, target, t.outgoingKey obs, data⟩ with ⟨e, herr, hsend⟩ | ⟨herr, hsend⟩
    · rw [hsend]
      exact .dropped hfind hm herr
    · rw [hsend]
      exact .tracked hfind hm herr

end Turn

/-! ### Carried properties -/

structure Carries (I : Turn → Prop) : Prop where
  frame : ∀ {t u : Turn}, I t → Frame Event.lifecycle t u → I u
  notifyOne : ∀ {t : Turn} (w : World) (now : Int) (resource payload : Bytes) (obs : Observer),
    I t → I (Turn.notifyOne w now resource payload t obs)

/-- The parts of a request that are left: the two lines in the log, and the three ways to
reply. -/
structure Replies (I : Turn → Prop) (cfg : Config) (w : World) (sess : Session) (msg : Message)
    (dedup : Option ExchangeKey) : Prop where
  plugins : ∀ {t : Turn}, I t → I (t.emit (.plugins msg.type ⟨sess.remote, msg.messageID⟩))
  handler : ∀ {t : Turn} (payload : Bytes), I t →
    I (t.emit (.handler msg.type ⟨sess.remote, msg.messageID⟩ payload))
  block1 : ∀ {t : Turn}, hasBlock1 msg.options = true → I t →
    I (t.replyBlock1Unsupported w sess msg dedup)
  error : ∀ {t : Turn}, msg.type = typeCON → I t →
    I (t.sendDedupResponse w sess msg codeInternalServerError [] dedup ⟨false, none⟩)
  respond : ∀ {t : Turn} (registered : Bool) (body : Bytes), I t →
    I (t.respond cfg w sess msg dedup registered body)

/-- A property that every reply keeps. -/
theorem Replies.of_reply {I : Turn → Prop} {dedup : Option ExchangeKey} (cfg : Config) (w : World)
    (sess : Session) (msg : Message)
    (hplugins : ∀ {t : Turn}, I t → I (t.emit (.plugins msg.type ⟨sess.remote, msg.messageID⟩)))
    (hhandler : ∀ {t : Turn} (payload : Bytes), I t →
      I (t.emit (.handler msg.type ⟨sess.remote, msg.messageID⟩ payload)))
    (hreply : ∀ {t u : Turn}, I t → Reply dedup t u → I u) : Replies I cfg w sess msg dedup where
  plugins := hplugins
  handler := hhandler
  block1 _ ht := hreply ht (Turn.reply_replyBlock1Unsupported w _ sess msg dedup)
  error _ ht := hreply ht (Turn.reply_sendDedupResponse w _ sess msg dedup _ _ _)
  respond registered body ht :=
    hreply ht (Turn.reply_respond w _ sess msg dedup cfg registered body)

/-- The first pass of `retransmitDue` only drops entries. -/
theorem retransmitScan_of_untrack {I : Turn → Prop} {t : Turn}
    (huntrack : ∀ (u : Turn) (k : ExchangeKey), I u → I (u.untrackNotify k)) (ht : I t)
    (walk : WalkOrder (ExchangeKey × PendingNotify)) (now : Int) :
    I (t.retransmitScan walk now).2 := by
  refine List.foldlRecOn (motive := fun st : Turn.Due × Turn => I st.2) _ _ ht ?_
  intro st hst e _
  unfold Turn.scanEntry
  split
  · exact hst
  · exact huntrack st.2 e.1 hst
  · exact hst

namespace Carries

variable {I : Turn → Prop} {t : Turn} (h : Carries I)

include h

theorem notifyObservers (ht : I t) (w : World) (now : Int) (resource payload : Bytes) :
    I (t.notifyObservers w now resource payload) :=
  List.foldlRecOn _ _ ht fun _ hu obs _ => h.notifyOne w now resource payload obs hu

theorem callHandler {w : World} {sess : Session} {msg : Message} {payload : Bytes}
    (ht : I (t.emit (.handler msg.type ⟨sess.remote, msg.messageID⟩ payload))) (now : Int) :
    I (t.callHandler w now sess msg payload) := by
  have hnotified : I (w.notifies.foldl (fun t n => t.notifyObservers w now n.1 n.2)
      (t.emit (.handler msg.type ⟨sess.remote, msg.messageID⟩ payload))) :=
    List.foldlRecOn _ _ ht fun _ hu n _ => h.notifyObservers hu w now n.1 n.2
  exact h.frame hnotified Turn.calm_closeIf.toFrame

variable {cfg : Config} {w : World} {sess : Session} {msg : Message} {dedup : Option ExchangeKey}

theorem runApplication (ht : I t) {payload : Bytes}
    (hcalled : I (t.emit (.handler msg.type ⟨sess.remote, msg.messageID⟩ payload))) (now : Int) :
    I (t.runApplication cfg w now sess msg payload).2 := by
  have hc : I (t.callHandler w now sess msg payload) := h.callHandler hcalled now
  have hd : I ((t.callHandler w now sess msg payload).dropSession sess) :=
    h.frame hc Turn.upkeep_dropSession.frame
  unfold Turn.runApplication
  split
  · split
    · exact hd
    · exact hc
  split
  · split
    · exact hd
    · exact hc
  · exact ht

theorem handleRequest (hr : Replies I cfg w sess msg dedup) (ht : I t) (now : Int) :
    I (t.handleRequest cfg w now sess msg dedup) := by
  unfold Turn.handleRequest
  split
  · rename_i hblock
    exact hr.block1 hblock ht
  extract_lets o v
  have ho : I o.2 := h.frame ht (Turn.upkeep_handleObserve trivial).frame
  have hv : I v := h.frame (hr.plugins ho) Turn.calm_closeIf.toFrame
  split
  · rename_i e _
    extract_lets x
    have hx : I x := by
      by_cases hd : Err.is .pluginDrop e = true
      · simp only [x, hd, if_true]
        exact hv
      simp only [x, hd]
      exact h.frame hv Turn.upkeep_dropSession.frame
    split
    · rename_i hcon
      exact hr.error hcon hx
    · exact hx
  · rename_i payload _
    have hrun : I (v.runApplication cfg w now sess msg payload).2 :=
      h.runApplication hv (hr.handler payload hv) now
    split
    · rename_i u he
      rw [he] at hrun
      exact hrun
    rename_i body u he
    rw [he] at hrun
    exact hr.respond o.1 body hrun

theorem cancelRelations (ht : I t) (abandoned : List (Bytes × Bytes)) :
    I (abandoned.foldl Turn.cancelRelation t) :=
  List.foldlRecOn _ _ ht fun _ hu _ _ => h.frame hu Turn.upkeep_cancelRelation.frame

theorem retransmitDue (ht : I t) (w : World) (walk : WalkOrder (ExchangeKey × PendingNotify))
    (now : Int) (huntrack : ∀ (u : Turn) (k : ExchangeKey), I u → I (u.untrackNotify k))
    (hone : ∀ (u : Turn) (k : ExchangeKey), I u → I (u.retransmitOne w now k)) :
    I (t.retransmitDue w walk now) := by
  have hscan := retransmitScan_of_untrack huntrack ht walk now
  have hsent := List.foldlRecOn (t.retransmitScan walk now).1.keys
    (Turn.retransmitOne w now) hscan fun u hu k _ => hone u k hu
  exact h.cancelRelations hsent _

/-- What comes before `handleCoAPMessage`. -/
theorem deliver (ht : I t) (cfg : Config) (now : Int) (i : Input)
    (htick : ∀ w walk, i = .retransmitDue w walk → I (t.retransmitDue w walk now))
    (hclear : i = .clearSeen → I { t with srv := { t.srv with seen := ∅ } }) :
    I (deliver cfg now t i).2 := by
  cases i with
  | datagram remote ip data w =>
    have hg : I (t.getOrCreateUDPSession w now remote ip).2 :=
      h.frame ht (Turn.upkeep_getOrCreateUDPSession trivial).frame
    simp only [Coap.deliver]
    split
    · rename_i he
      rw [he] at hg
      exact hg
    rename_i sess u he
    rw [he] at hg
    exact h.frame hg Turn.calm_touch.toFrame
  | dtlsConn remote ip w => exact h.frame ht (Turn.upkeep_startDTLSConn trivial).frame
  | dtlsRead id data w =>
    simp only [Coap.deliver]
    split
    · exact ht
    split
    · exact ht
    · exact h.frame ht Turn.calm_touch.toFrame
  | dtlsEnd id =>
    simp only [Coap.deliver]
    split
    · exact ht
    · exact h.frame ht Turn.upkeep_endDTLSConn.frame
  | sweep key => exact h.frame ht Turn.upkeep_sweepEntry.frame
  | closeSessions key => exact h.frame ht Turn.upkeep_closeEntry.frame
  | sessionClose sess => exact h.frame ht Turn.calm_close.toFrame
  | notifyObservers resource payload w => exact h.notifyObservers ht w now resource payload
  | retransmitDue w walk => exact htick w walk rfl
  | clearSeen => exact hclear rfl

end Carries

/-- An input as a whole, once its message is handled. -/
theorem serve_of_handleMessage {I J : Turn → Prop} {cfg : Config} {now : Int} {t : Turn}
    {i : Input} (hd : I (deliver cfg now t i).2) (hIJ : ∀ u, I u → J u)
    (hm : ∀ (c : Call) (u : Turn) (msg : Message), I u →
      t.received cfg now i = some (⟨c.sess.remote, msg.messageID⟩, msg) →
      parse c.data = .ok msg → J (u.handleMessage cfg c.w now c.sess msg)) :
    J (t.serve cfg now i) := by
  unfold Turn.serve
  rcases he : Coap.deliver cfg now t i with ⟨_ | c, u⟩
  · rw [he] at hd
    exact hIJ u hd
  rw [he] at hd
  dsimp only
  unfold Turn.handleCoAPMessage
  cases hp : parse c.data with
  | error e => exact hIJ u hd
  | ok msg =>
    refine hm c u msg hd ?_ hp
    simp only [Turn.received, he, hp]

end SharkSocket.Coap
