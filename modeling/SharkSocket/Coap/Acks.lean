import SharkSocket.Coap.AtMostOnce
import SharkSocket.Coap.Waiting

/-!
# What an ACK acknowledges

An ACK repeats the message ID of the confirmable message it answers.  The server
writes ACKs in several places: the answer to a request, the refusal of a Block1
request, the repeated answer to a duplicate.  `Attributed C t` says of a turn that every
ACK it wrote is for a key in `C`, that an ACK in the dedup table has the message ID it is
kept under, and that no notification kept for retransmission is an ACK.  With the key of
the confirmable message being handled for `C` it is kept by everything the server does,
with one exception: a request that is *not* confirmable and carries Block1 is refused
with an ACK.
-/

namespace SharkSocket.Coap

open Lib
open SharkSocket.Runtime (SessionManager)
open SharkSocket.Shared (PeerIP PeerQuota)
open Std (ExtTreeMap)

/-! ### Types on the wire -/

/-- The type and the message ID in the first four bytes of a datagram. -/
def wireHeader : Bytes → Option (UInt8 × UInt16)
  | first :: _ :: hi :: lo :: _ => some ((first >>> 4) &&& 0x03, uint16BE hi lo)
  | _ => none

variable {data : Bytes} {msg : Message}

theorem wireHeader_of_marshal {m : Message} (h : m.marshal = .ok data) :
    wireHeader data = some (m.type, m.messageID) := by
  obtain ⟨hk, ht⟩ := checks_of_marshal h
  cases henc : marshalOptions m.options with
  | error e =>
    have htr : ¬ typeRST < m.type := UInt8.not_lt.mpr ht
    rw [Message.marshal, if_neg (by omega), if_neg htr, henc] at h
    cases h
  | ok enc =>
    cases (marshal_eq ht hk henc).symm.trans h
    simp only [putUint16BE, List.cons_append, wireHeader]
    rw [(first_byte ht hk).2.2, uint16BE_putUint16BE]

theorem type_of_parse (h : parse data = .ok msg) (hcon : msg.type ≠ typeCON)
    (hack : msg.type ≠ typeACK) (hrst : msg.type ≠ typeRST) : msg.type = typeNON := by
  have htwo : ∀ x : UInt8, x &&& 0x03 = 0 ∨ x &&& 0x03 = 1 ∨ x &&& 0x03 = 2 ∨ x &&& 0x03 = 3 := by
    intro x
    have hlt : (x &&& 0x03).toNat < 4 := by exact Nat.and_lt_two_pow x.toNat (n := 2) (by decide)
    simp only [← UInt8.toNat_inj]
    simp only [UInt8.reduceToNat]
    omega
  have htype : ∃ x : UInt8, msg.type = x &&& 0x03 := by
    unfold parse at h
    split at h
    · dsimp only at h
      split at h
      · cases h
      split at h
      · cases h
      split at h
      · cases h
      cases h
      exact ⟨_, rfl⟩
    · cases h
  obtain ⟨x, hx⟩ := htype
  rcases htwo x with h0 | h1 | h2 | h3
  · exact absurd (hx.trans h0) hcon
  · exact hx.trans h1
  · exact absurd (hx.trans h2) hack
  · exact absurd (hx.trans h3) hrst

/-- Only for a key in `C` the data sent to `remote` is an ACK. -/
def Answers (C : ExchangeKey → Prop) (remote data : Bytes) : Prop :=
  ∀ id, wireHeader data = some (typeACK, id) → C ⟨remote, id⟩

theorem answers_of_marshal {C : ExchangeKey → Prop} {remote : Bytes} {m : Message}
    (hm : m.marshal = .ok data) (h : m.type = typeACK → C ⟨remote, m.messageID⟩) :
    Answers C remote data := by
  intro id hid
  rw [wireHeader_of_marshal hm] at hid
  obtain ⟨htype, hid⟩ := Prod.mk.inj (Option.some.inj hid)
  rw [← hid]
  exact h htype

/-! ### One turn -/

structure Attributed (C : ExchangeKey → Prop) (t : Turn) : Prop where
  sent : ∀ remote data ok, .sent remote data ok ∈ t.log → Answers C remote data
  seen : ∀ (k : ExchangeKey) (data : Bytes), t.srv.seen[k]? = some ⟨some data⟩ →
    Answers (· = k) k.remote data
  pending : ∀ (k : ExchangeKey) (pn : PendingNotify), t.srv.pendingNotifies[k]? = some pn →
    ∀ id, wireHeader pn.data ≠ some (typeACK, id)

namespace Attributed

variable {C : ExchangeKey → Prop} {t u : Turn}

section

variable (h : Attributed C t)
include h

theorem of_eq (hseen : u.srv.seen = t.srv.seen)
    (hpending : u.srv.pendingNotifies = t.srv.pendingNotifies) (hlog : u.log = t.log) :
    Attributed C u := by
  refine ⟨?_, ?_, ?_⟩
  · rw [hlog]
    exact h.sent
  · rw [hseen]
    exact h.seen
  · rw [hpending]
    exact h.pending

theorem emit {e : Event} (he : ∀ remote data ok, e ≠ .sent remote data ok) :
    Attributed C (t.emit e) := by
  refine ⟨?_, h.seen, h.pending⟩
  intro remote data ok hmem
  rcases List.mem_append.mp hmem with hmem | hmem
  · exact h.sent remote data ok hmem
  · exact absurd (List.mem_singleton.mp hmem).symm (he remote data ok)

theorem frame (hf : Frame Event.lifecycle t u) : Attributed C u := by
  obtain ⟨l, hl, hlife⟩ := hf.log
  refine ⟨?_, ?_, ?_⟩
  · intro remote data ok hmem
    rw [hl] at hmem
    rcases List.mem_append.mp hmem with hmem | hmem
    · exact h.sent remote data ok hmem
    · exact (hlife _ hmem).elim
  · rw [hf.seen]
    exact h.seen
  · rw [hf.pending]
    exact h.pending

theorem send (w : World) (sess : Session) (hdata : Answers C sess.remote data) :
    Attributed C (t.send w sess data).2 := by
  unfold Turn.send
  split
  · exact h
  refine ⟨?_, h.seen, h.pending⟩
  intro remote data' ok hmem
  rcases List.mem_append.mp hmem with hmem | hmem
  · exact h.sent remote data' ok hmem
  cases List.mem_singleton.mp hmem
  exact hdata

theorem sendACKMsg (w : World) (sess : Session)
    (hmsg : msg.type = typeACK → C ⟨sess.remote, msg.messageID⟩) :
    Attributed C (t.sendACKMsg w sess msg).2 := by
  unfold Turn.sendACKMsg
  split
  · exact h
  rename_i data hdata
  exact h.send w sess (answers_of_marshal hdata hmsg)

theorem setResponse {dedup : Option ExchangeKey}
    (hdata : ∀ k, dedup = some k → Answers (· = k) k.remote data) :
    Attributed C (t.setResponse dedup data) := by
  cases dedup with
  | none => exact h
  | some key =>
    refine ⟨h.sent, ?_, h.pending⟩
    intro k resp hk
    rcases getElem?_insert_eq_some.mp hk with ⟨rfl, ⟨⟩⟩ | ⟨-, hk⟩
    · exact hdata k rfl
    · exact h.seen k resp hk

theorem storeSeen (key : ExchangeKey) : Attributed C (t.storeSeen key) := by
  refine ⟨h.sent, ?_, h.pending⟩
  intro k resp hk
  rcases getElem?_insert_eq_some.mp hk with ⟨-, ⟨⟩⟩ | ⟨-, hk⟩
  exact h.seen k resp hk

end

/-! ### Answers -/

variable {sess : Session} {msg : Message} {dedup : Option ExchangeKey}

section

variable (h : Attributed C t)
include h

/-- An answer is recorded and sent. -/
theorem answer (w : World) {resp : Message} (hdata : resp.marshal = .ok data)
    (hid : resp.messageID = msg.messageID)
    (hdedup : ∀ k, dedup = some k → k = ⟨sess.remote, msg.messageID⟩)
    (hC : C ⟨sess.remote, msg.messageID⟩) :
    Attributed C ((t.setResponse dedup data).send w sess data).2 := by
  refine (h.setResponse fun k hk => ?_).send w sess (answers_of_marshal hdata fun _ => ?_)
  · rw [hdedup k hk]
    exact answers_of_marshal hdata fun _ => by rw [hid]
  · rw [hid]
    exact hC

theorem sendDedupResponse (w : World) (code : UInt8) (payload : Bytes) (opts : Turn.ResponseOptions)
    (hdedup : ∀ k, dedup = some k → k = ⟨sess.remote, msg.messageID⟩)
    (hC : C ⟨sess.remote, msg.messageID⟩) :
    Attributed C (t.sendDedupResponse w sess msg code payload dedup opts) := by
  unfold Turn.sendDedupResponse
  extract_lets r base resp
  have hadd : (t.addObserveSeq sess msg (ack msg code payload)).1.messageID = msg.messageID := by
    unfold Turn.addObserveSeq
    split <;> rfl
  have hr : Attributed C r.2 ∧ r.1.messageID = msg.messageID := by
    rcases hb : opts.observe with _ | _
    · simp only [r, hb]
      exact ⟨h, rfl⟩
    simp only [r, hb]
    exact ⟨h.frame Turn.upkeep_addObserveSeq.frame, hadd⟩
  have hresp : resp.messageID = msg.messageID := by
    simp only [resp]
    split <;> exact hr.2
  split
  · exact hr.1
  rename_i data hdata
  exact hr.1.answer w hdata hresp hdedup hC

theorem replyBlock1Unsupported (w : World)
    (hdedup : ∀ k, dedup = some k → k = ⟨sess.remote, msg.messageID⟩)
    (hC : C ⟨sess.remote, msg.messageID⟩) :
    Attributed C (t.replyBlock1Unsupported w sess msg dedup) := by
  unfold Turn.replyBlock1Unsupported
  extract_lets hint resp
  split
  · exact h
  rename_i data hdata
  exact h.answer w hdata rfl hdedup hC

theorem replyToDuplicate (w : World) {entry : SeenEntry}
    (hentry : t.srv.seen[(⟨sess.remote, msg.messageID⟩ : ExchangeKey)]? = some entry)
    (hC : C ⟨sess.remote, msg.messageID⟩) : Attributed C (t.replyToDuplicate w sess msg entry) := by
  obtain ⟨resp⟩ := entry
  cases resp with
  | some data =>
    refine h.send w sess fun id hid => ?_
    rw [h.seen _ data hentry id hid]
    exact hC
  | none => exact h.sendACKMsg w sess fun _ => hC

theorem respond (cfg : Config) (w : World) (registeredObserve : Bool)
    (body : Bytes) (hdedup : ∀ k, dedup = some k → k = ⟨sess.remote, msg.messageID⟩)
    (hC : msg.type = typeCON → C ⟨sess.remote, msg.messageID⟩) :
    Attributed C (t.respond cfg w sess msg dedup registeredObserve body) := by
  unfold Turn.respond
  split
  · rename_i hcon
    split <;> exact h.sendDedupResponse w _ _ _ hdedup (hC hcon)
  split
  · extract_lets r notify
    have hr : Attributed C r.2 := h.frame Turn.upkeep_observerSeq.frame
    split
    · exact hr
    rename_i data hdata
    -- the notification is not confirmable
    have htype : typeNON ≠ typeACK := by decide
    exact hr.send w sess (answers_of_marshal hdata fun hack => absurd hack htype)
  · exact h

/-! ### Notifications -/

theorem untrackNotify (key : ExchangeKey) :
    Attributed C (t.untrackNotify key) :=
  ⟨h.sent, h.seen, forall_erase h.pending key⟩

theorem insertPending {key : ExchangeKey} {pn : PendingNotify}
    (hpn : ∀ id, wireHeader pn.data ≠ some (typeACK, id)) :
    Attributed C { t with srv := { t.srv with
      pendingNotifies := t.srv.pendingNotifies.insert key pn } } :=
  ⟨h.sent, h.seen, forall_insert h.pending hpn⟩

end

theorem wireHeader_notification {id : UInt16} {token : Bytes} {seq : UInt32} {payload : Bytes}
    (hm : (Turn.notification id token seq payload).marshal = .ok data) (id' : UInt16) :
    wireHeader data ≠ some (typeACK, id') := by
  rw [wireHeader_of_marshal hm]
  intro heq
  have htype : typeCON = typeACK := (Prod.mk.inj (Option.some.inj heq)).1
  exact absurd htype (by decide)

theorem notifyOne (h : Attributed C t) (w : World) (now : Int) (resource payload : Bytes)
    (obs : Observer) : Attributed C (Turn.notifyOne w now resource payload t obs) := by
  have hdrawn : Attributed C (t.nextSeq obs).2.nextMessageID.2 := h.of_eq rfl rfl rfl
  have hissued : Attributed C ((t.nextSeq obs).2.issue obs.remote) := hdrawn.emit nofun
  -- what is sent is confirmable, so it answers nothing
  have hsent : ∀ target data, (t.notificationTo obs payload).marshal = .ok data →
      Attributed C (((t.nextSeq obs).2.issue obs.remote).send w target data).2 :=
    fun target data hm => hissued.send w target fun id hid =>
      absurd hid (wireHeader_notification hm id)
  generalize hu : Turn.notifyOne w now resource payload t obs = u
  cases Turn.notifyOne_outcome hu with
  | gone hfind => exact h.frame Turn.upkeep_removeObserver.frame
  | unencoded hm => exact hdrawn
  | dropped hfind hm herr =>
    exact ((hsent _ _ hm).frame Turn.upkeep_removeObserver.frame).emit nofun
  | tracked hfind hm herr =>
    exact ((hsent _ _ hm).emit (e := .notified (t.outgoingKey obs)) nofun).insertPending
      (wireHeader_notification hm)

theorem carries (C : ExchangeKey → Prop) : Carries (Attributed C) where
  frame h hf := h.frame hf
  notifyOne w now resource payload obs h := h.notifyOne w now resource payload obs

theorem retransmitOne (h : Attributed C t) (w : World) (now : Int) (key : ExchangeKey) :
    Attributed C (t.retransmitOne w now key) := by
  unfold Turn.retransmitOne Turn.retransmitTake
  cases hk : t.srv.pendingNotifies[key]? with
  | none => exact h
  | some pn =>
    have hdata := h.pending key pn hk
    have htake := @insertPending C t h key (pn.advance now) hdata
    dsimp only
    unfold Turn.retransmitSend
    split
    · exact htake.untrackNotify key
    rename_i sess _
    have hanswers : Answers C sess.remote pn.data := fun id hid => absurd hid (hdata id)
    have hsend := htake.send w sess hanswers
    split
    · rename_i v hv
      rw [hv] at hsend
      exact hsend.untrackNotify key
    rename_i v hv
    rw [hv] at hsend
    exact hsend.emit nofun

theorem retransmitDue (h : Attributed C t) (w : World) (walk : WalkOrder (ExchangeKey × PendingNotify))
    (now : Int) : Attributed C (t.retransmitDue w walk now) :=
  (carries C).retransmitDue h w walk now (fun _ key hu => hu.untrackNotify key)
    fun _ key hu => hu.retransmitOne w now key

/-! ### Messages -/

/-- A request is answered with an ACK when it is confirmable, or carries Block1. -/
theorem replies (cfg : Config) (w : World)
    (hdedup : ∀ k, dedup = some k → k = ⟨sess.remote, msg.messageID⟩)
    (hC : msg.type = typeCON ∨ hasBlock1 msg.options = true → C ⟨sess.remote, msg.messageID⟩) :
    Replies (Attributed C) cfg w sess msg dedup where
  plugins h := h.emit nofun
  handler _ h := h.emit nofun
  block1 hblock h := h.replyBlock1Unsupported w hdedup (hC (.inr hblock))
  error hcon h := h.sendDedupResponse w _ _ _ hdedup (hC (.inl hcon))
  respond registered body h :=
    h.respond cfg w registered body hdedup fun hcon => hC (.inl hcon)

theorem handleRequest (h : Attributed C t) (cfg : Config) (w : World) (now : Int)
    (hdedup : ∀ k, dedup = some k → k = ⟨sess.remote, msg.messageID⟩)
    (hC : msg.type = typeCON ∨ hasBlock1 msg.options = true → C ⟨sess.remote, msg.messageID⟩) :
    Attributed C (t.handleRequest cfg w now sess msg dedup) :=
  (carries C).handleRequest (replies cfg w hdedup hC) h now

theorem handleMessage (h : Attributed C t) (cfg : Config) (w : World) (now : Int)
    (hcon : msg.type = typeCON → C ⟨sess.remote, msg.messageID⟩)
    (hblock : msg.type ≠ typeCON → msg.type ≠ typeACK → msg.type ≠ typeRST →
      msg.code ≠ codeEmpty → hasBlock1 msg.options = true → C ⟨sess.remote, msg.messageID⟩) :
    Attributed C (t.handleMessage cfg w now sess msg) := by
  unfold Turn.handleMessage
  extract_lets key
  split
  · exact (h.untrackNotify key).emit nofun
  rename_i hack
  split
  · have htake : Attributed C (t.takePendingNotify key).2 := by
      unfold Turn.takePendingNotify
      split
      · exact h
      · exact h.untrackNotify key
    split
    · rename_i he
      rw [he] at htake
      exact htake.of_eq rfl rfl rfl
    rename_i he
    rw [he] at htake
    exact htake
  · rename_i hrst
    split
    · split
      · -- a ping is answered with an RST
        have htype : typeRST ≠ typeACK := by decide
        exact h.sendACKMsg w sess fun hack => absurd hack htype
      · exact h
    rename_i hcode
    by_cases hc : msg.type = typeCON
    · rw [if_pos hc]
      split
      · rename_i entry he
        exact h.replyToDuplicate w he (hcon hc)
      refine (h.storeSeen key).handleRequest cfg w now ?_ fun _ => hcon hc
      intro k hk
      exact (Option.some.inj hk).symm
    rw [if_neg hc]
    refine h.handleRequest cfg w now nofun ?_
    rintro (hc' | hb)
    · exact absurd hc' hc
    · exact hblock hc hack hrst hcode hb

theorem deliver (h : Attributed C t) (cfg : Config) (now : Int) (i : Input) :
    Attributed C (deliver cfg now t i).2 := by
  refine (carries C).deliver h cfg now i (fun w walk _ => h.retransmitDue w walk now) fun _ => ?_
  exact ⟨h.sent, fun k data hk => by simp at hk, h.pending⟩

end Attributed

/-! ### Runs -/

/-- A request that is not confirmable and carries Block1. -/
def StrayBlock1 (msg : Message) : Prop :=
  msg.type = typeNON ∧ msg.code ≠ codeEmpty ∧ hasBlock1 msg.options = true

/-- One input: the ACKs it sends are for the message it brings. -/
theorem Attributed.serve {C : ExchangeKey → Prop} (cfg : Config) (r : Record)
    (h : Attributed C r.start)
    (hcon : ∀ k msg, r.message cfg = some (k, msg) → msg.type = typeCON ∨ StrayBlock1 msg → C k) :
    Attributed C (r.turn cfg) := by
  refine serve_of_handleMessage (h.deliver cfg r.time r.input) (fun _ hu => hu) ?_
  intro c u msg hu hm hp
  refine hu.handleMessage cfg c.w r.time (fun hc => hcon _ msg hm (.inl hc)) ?_
  intro hc hack hrst hcode hb
  exact hcon _ msg hm (.inr ⟨type_of_parse hp hc hack hrst, hcode, hb⟩)

/-- What a server keeps: the answers in its dedup table are filed under their own IDs. -/
def Filed (s : Server) : Prop := Attributed (fun _ => True) ⟨s, []⟩

theorem Filed.start {s : Server} (h : Filed s) (C : ExchangeKey → Prop) : Attributed C ⟨s, []⟩ :=
  ⟨nofun, h.seen, h.pending⟩

theorem filed_new (manager : SessionManager) (quota : Option PeerQuota) :
    Filed (.new manager quota) :=
  ⟨nofun, fun k data hk => by simp [Server.new] at hk, fun k pn hk => by simp [Server.new] at hk⟩

theorem Filed.stateAfter {cfg : Config} {s : Server} (h : Filed s) (ins : List TimedInput) :
    Filed (stateAfter cfg s ins) := by
  induction ins using List.reverseRecOn with
  | nil => exact h
  | append_singleton ins i ih =>
    have hturn := Attributed.serve cfg (recordAt cfg s ins i) ih (fun _ _ _ _ => trivial)
    rw [stateAfter_concat]
    exact ⟨nofun, hturn.seen, hturn.pending⟩

/-- A stray Block1 request on an open session is answered with an ACK. -/
theorem ack_of_strayBlock1 {cfg : Config} {r : Record} {c : Call} {t : Turn}
    (hd : deliver cfg r.time r.start r.input = (some c, t)) (hp : parse c.data = .ok msg)
    (hb : StrayBlock1 msg) (hopen : t.srv.state c.sess.id = .active) :
    ∃ data ok, .sent c.sess.remote data ok ∈ r.log cfg ∧
      wireHeader data = some (typeACK, msg.messageID) := by
  obtain ⟨htype, hcode, hblock⟩ := hb
  have htoken : msg.token.length ≤ 8 := token_le_of_parse hp
  have hshort : ShortValues ((∅ : Options).insert block1Option
      (BlockOption.marshal ⟨0, false, minBlockSizeExp⟩)) :=
    shortValues_empty.insert _ (by decide)
  obtain ⟨data, hdata⟩ := exists_marshal (m := { ack msg codeRequestEntityTooLarge [] with
      options := (∅ : Options).insert block1Option
        (BlockOption.marshal ⟨0, false, minBlockSizeExp⟩) })
    (show typeACK ≤ 3 by decide) htoken hshort
  have hcon : msg.type ≠ typeCON := by rw [htype]; decide
  have hack : msg.type ≠ typeACK := by rw [htype]; decide
  have hrst : msg.type ≠ typeRST := by rw [htype]; decide
  have hturn : r.turn cfg = (t.send c.w c.sess data).2 := by
    rw [Record.turn, Turn.serve, hd]
    dsimp only
    rw [Turn.handleCoAPMessage, hp]
    dsimp only
    rw [Turn.handleMessage, if_neg hack, if_neg hrst, if_neg hcode, if_neg hcon, Turn.handleRequest,
      if_pos hblock, Turn.replyBlock1Unsupported]
    rw [hdata]
    rfl
  refine ⟨data, c.w.write t.log.length, ?_, wireHeader_of_marshal hdata⟩
  rw [Record.log, hturn, Turn.send, hopen]
  exact List.mem_append_right _ (List.mem_singleton_self _)

/-- **An ACK acknowledges the confirmable message being handled.**  Over every run, every
ACK that is sent while an input is handled goes to the remote of the confirmable message
which that input brings and has its message ID, provided the input does not bring a
request that is not confirmable and carries Block1; and one that does is answered with
an ACK whenever its session is open. -/
theorem acks_answer_cons (cfg : Config) (manager : SessionManager) (quota : Option PeerQuota)
    (ins : List TimedInput) (i : TimedInput)
    (hstray : ∀ k msg, (recordAt cfg (.new manager quota) ins i).message cfg = some (k, msg) →
      ¬ StrayBlock1 msg) :
    (∀ remote data ok id,
      .sent remote data ok ∈ (recordAt cfg (.new manager quota) ins i).log cfg →
      wireHeader data = some (typeACK, id) →
      ∃ msg, (recordAt cfg (.new manager quota) ins i).message cfg = some (⟨remote, id⟩, msg) ∧
        msg.type = typeCON) ∧
    ∀ (r : Record) c t msg, deliver cfg r.time r.start r.input = (some c, t) →
      parse c.data = .ok msg → StrayBlock1 msg → t.srv.state c.sess.id = .active →
      ∃ data ok, .sent c.sess.remote data ok ∈ r.log cfg ∧
        wireHeader data = some (typeACK, msg.messageID) := by
  refine ⟨?_, fun r c t msg hd hp hb hopen => ack_of_strayBlock1 hd hp hb hopen⟩
  have hfiled : Filed (stateAfter cfg (.new manager quota) ins) :=
    (filed_new manager quota).stateAfter ins
  have hstart := hfiled.start fun k => ∃ msg,
    (recordAt cfg (.new manager quota) ins i).message cfg = some (k, msg) ∧ msg.type = typeCON
  have hturn := Attributed.serve cfg (recordAt cfg (.new manager quota) ins i) hstart (by
    rintro k msg hm (hcon | hb)
    · exact ⟨msg, hm, hcon⟩
    · exact absurd hb (hstray k msg hm))
  intro remote data ok id hsent hack
  exact hturn.sent remote data ok hsent id hack

theorem acks_answer_cons_getSeven :
    .sent [0x61] [0x60, 69, 0, 7, 0xFF, 1] true ∈
        (recordAt responderConfig freshServer [] (0, getSeven)).log responderConfig ∧
      ∃ msg, (recordAt responderConfig freshServer [] (0, getSeven)).message responderConfig =
        some (⟨[0x61], 7⟩, msg) ∧ msg.type = typeCON := by
  have htype : ((recordAt responderConfig freshServer [] (0, getSeven)).message
      responderConfig).map (·.2.type) = some typeCON := by
    decide +kernel
  have hsent : .sent [0x61] [0x60, 69, 0, 7, 0xFF, 1] true ∈
      (recordAt responderConfig freshServer [] (0, getSeven)).log responderConfig := by
    decide +kernel
  refine ⟨hsent, (acks_answer_cons responderConfig _ _ [] (0, getSeven) ?_).1 _ _ _ 7 hsent rfl⟩
  intro k msg hm hb
  have hcon : msg.type = typeCON := by
    rw [show recordAt responderConfig (.new (.new 0) none) [] (0, getSeven) =
      recordAt responderConfig freshServer [] (0, getSeven) from rfl] at hm
    rw [hm] at htype
    exact Option.some.inj htype
  exact absurd (hcon.symm.trans hb.1) (by decide)

/-- A NON POST with message ID 7 and a Block1 option. -/
def strayPost : Input :=
  .datagram [0x61] none [0x50, 2, 0, 7, 0xD1, 0x0E, 0x08] steadyWorld

/-- **A NON is answered with an ACK**, and no confirmable message was ever received. -/
theorem strayPost_acked :
    ((recordAt responderConfig freshServer [] (0, strayPost)).message responderConfig).map
        (fun m => (m.1, m.2.type)) = some (⟨[0x61], 7⟩, typeNON) ∧
      ∃ data, .sent [0x61] data true ∈
        (recordAt responderConfig freshServer [] (0, strayPost)).log responderConfig ∧
          wireHeader data = some (typeACK, 7) := by
  refine ⟨by decide +kernel, [0x60, 141, 0, 7, 0xD0, 0x0E], by decide +kernel, by decide⟩

end SharkSocket.Coap
