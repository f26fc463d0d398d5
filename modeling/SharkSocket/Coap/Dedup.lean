import SharkSocket.Coap.Carries

/-!
# Duplicate requests

A confirmable request is run the first time its remote and message ID are seen
and answered from the dedup table after that, until the table is cleared.

`Grows dedup t u` says that between two moments of a turn the table changed at
most at `dedup` and nothing was run for a confirmable message.  It covers every
part of the server except the two places where a request is run, and those are
located by `Ran` (`handleRequest_spec`).  What `handleMessage` does follows its
branches:

* `grows_handleMessage_other`: a message that is not a confirmable request
  leaves the table alone and runs nothing confirmable;
* `handleMessage_request`: a confirmable request is a duplicate or a new entry;
* `replies_replyToDuplicate`: a duplicate is only answered, and only with what
  its entry holds.
-/

namespace SharkSocket.Coap

open Std (ExtTreeMap)

/-- The plugin chain or the application ran for a confirmable message. -/
def Event.conRun : Event → Prop
  | .plugins type _ | .handler type _ _ => type = typeCON
  | _ => False

theorem Event.not_conRun_of_plain : ∀ (e : Event), e.plain → ¬ e.conRun := by
  intro e he
  cases e <;> first | exact he.elim | exact id

/-- The application ran for the confirmable message with key `k`. -/
def Event.isRun (k : ExchangeKey) : Event → Bool
  | .handler type key _ => type = typeCON ∧ key = k
  | _ => false

def handlerRuns (k : ExchangeKey) (log : List Event) : Nat := log.countP (Event.isRun k)

def ConRequest (msg : Message) : Prop := msg.type = typeCON ∧ msg.code ≠ codeEmpty

instance (msg : Message) : Decidable (ConRequest msg) :=
  inferInstanceAs (Decidable (_ ∧ _))

/-! ### What a turn may do to the table -/

/-- From `t` to `u` the table only changed at `dedup`, no key left it, and no
confirmable message was run. -/
structure Grows (dedup : Option ExchangeKey) (t u : Turn) : Prop where
  seen : ∀ k : ExchangeKey, dedup ≠ some k → u.srv.seen[k]? = t.srv.seen[k]?
  kept : ∀ k ∈ t.srv.seen, k ∈ u.srv.seen
  log : LogExt (fun e => ¬ e.conRun) t u

variable {t u : Turn}

theorem Reply.grows {dedup : Option ExchangeKey} (h : Reply dedup t u) : Grows dedup t u :=
  ⟨h.seen, h.kept, h.log.mono Event.not_conRun_of_plain⟩

theorem Frame.grows (h : Frame Event.plain t u) (dedup : Option ExchangeKey) :
    Grows dedup t u := (h.reply dedup).grows

namespace Grows

variable {dedup : Option ExchangeKey}

theorem of_log (hs : u.srv.seen = t.srv.seen) (hl : u.log = t.log) : Grows dedup t u :=
  ⟨fun _ _ => by rw [hs], fun _ hk => by rwa [hs], .of_eq hl⟩

theorem refl (t : Turn) : Grows dedup t t := .of_log rfl rfl

theorem trans {t u v : Turn} (h : Grows dedup t u) (g : Grows dedup u v) : Grows dedup t v :=
  ⟨fun k hk => (g.seen k hk).trans (h.seen k hk), fun k hk => g.kept k (h.kept k hk),
    h.log.trans g.log⟩

theorem emit (h : Grows dedup t u) {e : Event} (he : ¬ e.conRun) : Grows dedup t (u.emit e) :=
  ⟨h.seen, h.kept, h.log.emit he⟩

theorem weaken (h : Grows none t u) : Grows dedup t u :=
  ⟨fun k _ => h.seen k (by simp), h.kept, h.log⟩

theorem mem_iff (h : Grows none t u) (k : ExchangeKey) : k ∈ u.srv.seen ↔ k ∈ t.srv.seen := by
  rw [ExtTreeMap.mem_iff_isSome_getElem?, ExtTreeMap.mem_iff_isSome_getElem?, h.seen k (by simp)]

theorem handlerRuns_eq (h : Grows dedup t u) (k : ExchangeKey) :
    handlerRuns k u.log = handlerRuns k t.log := by
  obtain ⟨l, hl, pl⟩ := h.log
  have h0 : l.countP (Event.isRun k) = 0 := by
    rw [List.countP_eq_zero]
    intro e he hr
    refine pl e he ?_
    cases e with
    | handler type key payload =>
      simp only [Event.isRun, decide_eq_true_eq] at hr
      exact hr.1
    | _ => cases hr
  rw [handlerRuns, handlerRuns, hl, List.countP_append, h0, Nat.add_zero]

theorem mem_log_iff (h : Grows dedup t u) {e : Event} (he : e.conRun) : e ∈ u.log ↔ e ∈ t.log := by
  obtain ⟨l, hl, pl⟩ := h.log
  rw [hl, List.mem_append]
  exact or_iff_left (fun hm => pl e hm he)

end Grows

namespace Turn

variable (w : World) (now : Int) (t : Turn) (sess : Session) (msg : Message)

/-! ### Notifications -/

theorem grows_notifyOne (resource payload : Bytes) (obs : Observer) :
    Grows none t (notifyOne w now resource payload t obs) := by
  have hdrawn : Grows none t (t.nextSeq obs).2.nextMessageID.2 := .of_log rfl rfl
  have hissued : Grows none t ((t.nextSeq obs).2.issue obs.remote) := hdrawn.emit id
  have hsent : ∀ target data,
      Grows none t (((t.nextSeq obs).2.issue obs.remote).send w target data).2 :=
    fun target data => hissued.trans (calm_send.toFrame.grows none)
  generalize hu : notifyOne w now resource payload t obs = u
  cases notifyOne_outcome hu with
  | gone hfind => exact .of_log rfl rfl
  | unencoded hm => exact hdrawn
  | dropped hfind hm herr =>
    exact ((hsent _ _).trans (upkeep_removeObserver.frame.plain.grows none)).emit id
  | tracked hfind hm herr => exact ((hsent _ _).emit id).trans (.of_log rfl rfl)

theorem carries_grows : Carries (Grows none t) where
  frame h hf := h.trans (hf.plain.grows none)
  notifyOne w now resource payload obs h := h.trans (grows_notifyOne w now _ resource payload obs)

theorem grows_retransmitOne (key : ExchangeKey) : Grows none t (t.retransmitOne w now key) := by
  have ht : Grows none t (t.retransmitTake now key).2 := by
    unfold retransmitTake
    split <;> exact .of_log rfl rfl
  unfold retransmitOne
  split
  · rename_i he
    rw [he] at ht
    exact ht
  rename_i data u he
  rw [he] at ht
  refine ht.trans ?_
  unfold retransmitSend
  split
  · exact .of_log rfl rfl
  rename_i s _
  have hs : Grows none u (u.send w s data).2 := calm_send.toFrame.grows none
  split
  · rename_i hv
    rw [hv] at hs
    exact hs.trans (.of_log rfl rfl)
  rename_i hv
  rw [hv] at hs
  exact hs.emit id

theorem grows_retransmitDue (walk : Lib.WalkOrder (ExchangeKey × PendingNotify)) :
    Grows none t (t.retransmitDue w walk now) := by
  refine (carries_grows t).retransmitDue (.refl t) w walk now ?_ ?_
  · intro u key hu
    exact hu.trans (.of_log rfl rfl)
  · intro u key hu
    exact hu.trans (grows_retransmitOne w now u key)

variable (dedup : Option ExchangeKey)

/-! ### Running a request -/

theorem grows_callHandler (payload : Bytes) :
    Grows dedup (t.emit (.handler msg.type ⟨sess.remote, msg.messageID⟩ payload))
      (t.callHandler w now sess msg payload) :=
  ((carries_grows _).callHandler (.refl _) now).weaken

/-- Without an application nothing happens; with one it is called once. -/
theorem runApplication_spec (cfg : Config) (payload : Bytes) :
    (t.runApplication cfg w now sess msg payload).2 = t ∨
      Grows dedup (t.emit (.handler msg.type ⟨sess.remote, msg.messageID⟩ payload))
        (t.runApplication cfg w now sess msg payload).2 := by
  have hc := grows_callHandler w now t sess msg dedup payload
  unfold runApplication
  split
  · right
    split
    · exact hc.trans (upkeep_dropSession.frame.plain.grows dedup)
    · exact hc
  split
  · right
    split
    · exact hc.trans (upkeep_dropSession.frame.plain.grows dedup)
    · exact hc
  left
  rfl

/-- From `t` to `u` the plugin chain ran for `key`, and then the application at
most once. -/
def Ran (dedup : Option ExchangeKey) (type : UInt8) (key : ExchangeKey) (t u : Turn) : Prop :=
  ∃ v, Grows dedup t v ∧ (Grows dedup (v.emit (.plugins type key)) u ∨
    ∃ payload x, Grows dedup (v.emit (.plugins type key)) x ∧
      Grows dedup (x.emit (.handler type key payload)) u)

theorem handleRequest_spec (cfg : Config) (hb : hasBlock1 msg.options = false) :
    Ran dedup msg.type ⟨sess.remote, msg.messageID⟩ t
      (t.handleRequest cfg w now sess msg dedup) := by
  unfold handleRequest
  rw [if_neg (by simp [hb])]
  extract_lets o v
  refine ⟨o.2, (upkeep_handleObserve trivial).frame.plain.grows dedup, ?_⟩
  have hv : Grows dedup (o.2.emit (.plugins msg.type ⟨sess.remote, msg.messageID⟩)) v :=
    calm_closeIf.toFrame.plain.grows dedup
  split
  · left
    rename_i e _
    extract_lets x
    have hx : Grows dedup v x := by
      by_cases hd : Err.is .pluginDrop e = true
      · simp only [x, hd, if_true]
        exact .refl v
      simp only [x, hd]
      exact upkeep_dropSession.frame.plain.grows dedup
    split
    · exact (hv.trans hx).trans (reply_sendDedupResponse w x sess msg dedup _ _ _).grows
    · exact hv.trans hx
  · rename_i payload _
    have hrun := runApplication_spec w now v sess msg dedup cfg payload
    split
    · rename_i u he
      rw [he] at hrun
      rcases hrun with rfl | hrun
      · exact Or.inl hv
      · exact Or.inr ⟨payload, v, hv, hrun⟩
    rename_i body u he
    rw [he] at hrun
    have hu := (reply_respond w u sess msg dedup cfg o.1 body).grows
    rcases hrun with rfl | hrun
    · exact Or.inl (hv.trans hu)
    · exact Or.inr ⟨payload, v, hv, hrun.trans hu⟩

theorem Ran.grows {dedup : Option ExchangeKey} {type : UInt8} {key : ExchangeKey} {t u : Turn}
    (h : Ran dedup type key t u) (hc : type ≠ typeCON) : Grows dedup t u := by
  obtain ⟨v, hv, h | ⟨payload, x, hx, h⟩⟩ := h
  · exact (hv.emit (e := .plugins type key) hc).trans h
  exact ((hv.emit (e := .plugins type key) hc).trans hx).trans
    (((Grows.refl x).emit (e := .handler type key payload) hc).trans h)

namespace Ran

variable {dedup : Option ExchangeKey} {type : UInt8} {key : ExchangeKey} {t u : Turn}

theorem seen (h : Ran dedup type key t u) (k : ExchangeKey) (hk : dedup ≠ some k) :
    u.srv.seen[k]? = t.srv.seen[k]? := by
  obtain ⟨v, hv, h | ⟨payload, x, hx, h⟩⟩ := h
  · exact (h.seen k hk).trans (hv.seen k hk)
  · exact (h.seen k hk).trans ((hx.seen k hk).trans (hv.seen k hk))

theorem kept (h : Ran dedup type key t u) (k : ExchangeKey) (hk : k ∈ t.srv.seen) :
    k ∈ u.srv.seen := by
  obtain ⟨v, hv, h | ⟨payload, x, hx, h⟩⟩ := h
  · exact h.kept k (hv.kept k hk)
  · exact h.kept k (hx.kept k (hv.kept k hk))

theorem plugins_mem (h : Ran dedup typeCON key t u) : .plugins typeCON key ∈ u.log := by
  have hc : (Event.plugins typeCON key).conRun := rfl
  obtain ⟨v, hv, h | ⟨payload, x, hx, h⟩⟩ := h
  · exact (h.mem_log_iff hc).mpr (by simp [emit])
  refine (h.mem_log_iff hc).mpr ?_
  have := (hx.mem_log_iff hc).mpr (by simp [emit])
  simp [emit, this]

theorem key_of_mem (h : Ran dedup typeCON key t u) {e : Event} (hc : e.conRun) (he : e ∈ u.log) :
    e ∈ t.log ∨ e = .plugins typeCON key ∨ ∃ payload, e = .handler typeCON key payload := by
  obtain ⟨v, hv, h | ⟨payload, x, hx, h⟩⟩ := h
  · rw [h.mem_log_iff hc, emit, List.mem_append, hv.mem_log_iff hc, List.mem_singleton] at he
    exact he.imp_right Or.inl
  rw [h.mem_log_iff hc, emit, List.mem_append, hx.mem_log_iff hc, emit, List.mem_append,
    hv.mem_log_iff hc, List.mem_singleton, List.mem_singleton] at he
  rcases he with (he | he) | he
  · exact Or.inl he
  · exact Or.inr (Or.inl he)
  · exact Or.inr (Or.inr ⟨payload, he⟩)

theorem handlerRuns_le (h : Ran dedup type key t u) (k : ExchangeKey) :
    handlerRuns k u.log ≤ handlerRuns k t.log + if key = k then 1 else 0 := by
  have hp : ∀ v : Turn, handlerRuns k (v.emit (.plugins type key)).log = handlerRuns k v.log := by
    intro v
    simp [handlerRuns, emit, Event.isRun]
  obtain ⟨v, hv, h | ⟨payload, x, hx, h⟩⟩ := h
  · rw [h.handlerRuns_eq k, hp, hv.handlerRuns_eq k]
    omega
  have hx' : handlerRuns k x.log = handlerRuns k t.log := by
    rw [hx.handlerRuns_eq k, hp, hv.handlerRuns_eq k]
  rw [h.handlerRuns_eq k, handlerRuns, emit, List.countP_append, ← handlerRuns, hx']
  by_cases hk : key = k
  · rw [List.countP_singleton]
    split <;> omega
  have h0 : List.countP (Event.isRun k) [.handler type key payload] = 0 := by simp [Event.isRun, hk]
  rw [if_neg hk, h0]

end Ran

theorem handleRequest_seen (cfg : Config) (k : ExchangeKey) (hk : dedup ≠ some k) :
    (t.handleRequest cfg w now sess msg dedup).srv.seen[k]? = t.srv.seen[k]? := by
  cases hb : hasBlock1 msg.options with
  | true =>
    rw [handleRequest, if_pos hb]
    exact (reply_replyBlock1Unsupported w t sess msg dedup).seen k hk
  | false => exact (handleRequest_spec w now t sess msg dedup cfg hb).seen k hk

theorem handleRequest_kept (cfg : Config) (k : ExchangeKey) (hk : k ∈ t.srv.seen) :
    k ∈ (t.handleRequest cfg w now sess msg dedup).srv.seen := by
  cases hb : hasBlock1 msg.options with
  | true =>
    rw [handleRequest, if_pos hb]
    exact (reply_replyBlock1Unsupported w t sess msg dedup).kept k hk
  | false => exact (handleRequest_spec w now t sess msg dedup cfg hb).kept k hk

theorem seen_storeSeen {k key : ExchangeKey} (hk : key ≠ k) :
    (t.storeSeen key).srv.seen[k]? = t.srv.seen[k]? :=
  Lib.getElem?_insert_of_ne hk

/-! ### `handleMessage` -/

variable (cfg : Config)

theorem grows_handleMessage_other (h : ¬ ConRequest msg) :
    Grows none t (t.handleMessage cfg w now sess msg) := by
  unfold handleMessage
  extract_lets key
  split
  · have hc : Grows none t (t.clearPendingNotify key) := .of_log rfl rfl
    exact hc.emit id
  split
  · have ht : Grows none t (t.takePendingNotify key).2 := by
      unfold takePendingNotify
      split <;> exact .of_log rfl rfl
    split <;> (rename_i he; rw [he] at ht; exact ht.trans (.of_log rfl rfl))
  split
  · split
    · exact calm_sendACKMsg.toFrame.grows none
    · exact .refl t
  rename_i hcode
  split
  · rename_i hcon
    exact absurd ⟨hcon, hcode⟩ h
  rename_i hcon
  cases hb : hasBlock1 msg.options with
  | true =>
    rw [handleRequest, if_pos hb]
    exact (reply_replyBlock1Unsupported w t sess msg none).grows
  | false => exact (handleRequest_spec w now t sess msg none cfg hb).grows hcon

variable {msg}

theorem handleMessage_request (h : ConRequest msg) :
    t.handleMessage cfg w now sess msg =
      match t.srv.seen[(⟨sess.remote, msg.messageID⟩ : ExchangeKey)]? with
      | some entry => t.replyToDuplicate w sess msg entry
      | none => (t.storeSeen ⟨sess.remote, msg.messageID⟩).handleRequest cfg w now sess msg
          (some ⟨sess.remote, msg.messageID⟩) := by
  have hack : msg.type ≠ typeACK := by rw [h.1]; decide
  have hrst : msg.type ≠ typeRST := by rw [h.1]; decide
  rw [handleMessage, if_neg hack, if_neg hrst, if_neg h.2]
  exact if_pos h.1

end Turn

/-- The reply to a duplicate: the recorded response, or an empty ACK. -/
def Repeats (entry : SeenEntry) (id : UInt16) (data : Bytes) : Prop :=
  match entry.resp with
  | some resp => data = resp
  | none => (emptyACK id).marshal = .ok data

theorem Turn.replies_replyToDuplicate (w : World) (t : Turn) (sess : Session) (msg : Message)
    (entry : SeenEntry) : ∃ l, (t.replyToDuplicate w sess msg entry).log = t.log ++ l ∧
      ∀ e ∈ l, ∃ data ok, e = .sent sess.remote data ok ∧ Repeats entry msg.messageID data := by
  have hsend : ∀ data, Repeats entry msg.messageID data → ∃ l,
      (t.send w sess data).2.log = t.log ++ l ∧ ∀ e ∈ l, ∃ data ok,
        e = .sent sess.remote data ok ∧ Repeats entry msg.messageID data := by
    intro data hd
    unfold Turn.send
    split
    · exact ⟨[], by rw [List.append_nil], by simp⟩
    refine ⟨[.sent sess.remote data (w.write t.log.length)], rfl, ?_⟩
    intro e he
    rw [List.mem_singleton] at he
    exact ⟨data, _, he, hd⟩
  unfold Turn.replyToDuplicate
  split
  · rename_i resp hr
    exact hsend resp (by rw [Repeats, hr])
  rename_i hr
  unfold Turn.sendACKMsg
  split
  · exact ⟨[], by rw [List.append_nil], by simp⟩
  rename_i data hm
  exact hsend data (by rw [Repeats, hr]; exact hm)

end SharkSocket.Coap
