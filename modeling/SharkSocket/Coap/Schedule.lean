import SharkSocket.Coap.Notify
import SharkSocket.Coap.Registry

/-!
# When a notification is sent again

A tracked notification has an entry with the attempts made so far, the current timeout
and the deadline it ends at.  A tick of `retransmitDue` at or after the deadline sends it
again and doubles the timeout, and after the fourth time gives it up.

* `Leaves key taken t u`: the notification was not sent again and its entry was left alone,
  or taken out if `taken`, unless its message ID was issued anew.  Every input but a tick is
  of this kind, and only an ACK or RST for the key takes the entry out (`leaves_serve`).
* `Progress`: what an input does to the entry, when it is a tick as well.
* `OnSchedule`: the entry after `n` attempts, compared with the time it was tracked.
-/

namespace SharkSocket.Coap

open Lib
open Std (ExtTreeMap)

/-! ### Inputs that are no ticks -/

def Leaves (key : ExchangeKey) (taken : Prop) (t u : Turn) : Prop :=
  ∃ l, u.log = t.log ++ l ∧ .resent key ∉ l ∧
    (.issued key ∉ l → u.srv.pendingNotifies[key]? = t.srv.pendingNotifies[key]? ∨
      taken ∧ u.srv.pendingNotifies[key]? = none)

namespace Leaves

variable {key : ExchangeKey} {taken : Prop} {t u v : Turn}

theorem of_eq (hpending : u.srv.pendingNotifies[key]? = t.srv.pendingNotifies[key]?)
    (hlog : u.log = t.log) : Leaves key taken t u :=
  ⟨[], by rw [hlog, List.append_nil], by simp, fun _ => .inl hpending⟩

theorem refl (t : Turn) : Leaves key taken t t := of_eq rfl rfl

theorem trans (h : Leaves key taken t u) (g : Leaves key taken u v) : Leaves key taken t v := by
  obtain ⟨l, hl, hresent, hentry⟩ := h
  obtain ⟨m, hm, hresent', hentry'⟩ := g
  refine ⟨l ++ m, by rw [hm, hl, List.append_assoc], ?_, ?_⟩
  · rw [List.mem_append]
    exact not_or.mpr ⟨hresent, hresent'⟩
  · intro hissued
    rw [List.mem_append, not_or] at hissued
    rcases hentry' hissued.2 with hsame | hnone
    · rw [hsame]
      exact hentry hissued.1
    · exact .inr hnone

theorem emit (h : Leaves key taken t u) {e : Event} (he : e ≠ .resent key) :
    Leaves key taken t (u.emit e) := by
  refine h.trans ⟨[e], rfl, ?_, fun _ => .inl rfl⟩
  rw [List.mem_singleton]
  exact he.symm

theorem of_log (hpending : u.srv.pendingNotifies = t.srv.pendingNotifies)
    (hlog : LogExt Event.plain t u) : Leaves key taken t u := by
  obtain ⟨l, hl, hplain⟩ := hlog
  exact ⟨l, hl, fun hmem => hplain _ hmem, fun _ => .inl (by rw [hpending])⟩

theorem frame (h : Frame Event.plain t u) : Leaves key taken t u := of_log h.pending h.log

theorem reply {dedup : Option ExchangeKey} (h : Reply dedup t u) : Leaves key taken t u :=
  of_log h.pending h.log

theorem untrack {k : ExchangeKey} (hk : k = key → taken) (t : Turn) :
    Leaves key taken t (t.untrackNotify k) := by
  by_cases hkey : k = key
  · subst hkey
    exact ⟨[], (List.append_nil _).symm, by simp, fun _ =>
      .inr ⟨hk rfl, ExtTreeMap.getElem?_erase_self⟩⟩
  · exact of_eq (getElem?_erase_of_ne hkey) rfl

end Leaves

namespace Turn

variable {taken : Prop} (key : ExchangeKey) (w : World) (now : Int) (t : Turn) (sess : Session)
  (msg : Message)

theorem leaves_notifyOne (resource payload : Bytes) (obs : Observer) :
    Leaves key taken t (notifyOne w now resource payload t obs) := by
  have hdrawn : Leaves key taken t (t.nextSeq obs).2.nextMessageID.2 := .of_eq rfl rfl
  have hissued : Leaves key taken t ((t.nextSeq obs).2.issue obs.remote) := hdrawn.emit (by simp)
  have hsent : ∀ target data,
      Leaves key taken t (((t.nextSeq obs).2.issue obs.remote).send w target data).2 :=
    fun target data => hissued.trans (.frame calm_send.toFrame)
  generalize hu : notifyOne w now resource payload t obs = u
  cases notifyOne_outcome hu with
  | gone hfind => exact .frame upkeep_removeObserver.frame.plain
  | unencoded hm => exact hdrawn
  | dropped hfind hm herr =>
    exact ((hsent _ _).trans (.frame upkeep_removeObserver.frame.plain)).emit (by simp)
  | @tracked target data draw hfind hm herr =>
    by_cases hk : t.outgoingKey obs = key
    · -- the entry made now is the one of the key just issued
      have hcalm : Calm Event.plain ((t.nextSeq obs).2.issue obs.remote)
          (((t.nextSeq obs).2.issue obs.remote).send w target data).2 := calm_send
      obtain ⟨l, hl, hplain⟩ := hcalm.log
      refine ⟨.issued (t.outgoingKey obs) :: (l ++ [.notified (t.outgoingKey obs)]), ?_, ?_, ?_⟩
      · show (((t.nextSeq obs).2.issue obs.remote).send w target data).2.log ++
          [.notified (t.outgoingKey obs)] = _
        rw [hl]
        show (t.log ++ [.issued (t.outgoingKey obs)] ++ l) ++ _ = _
        simp
      · simp only [List.mem_cons, List.mem_append, reduceCtorEq, List.not_mem_nil, or_false,
          false_or]
        exact fun hmem => hplain _ hmem
      · intro hissued
        rw [hk] at hissued
        exact absurd List.mem_cons_self hissued
    · exact ((hsent target data).emit (by simp)).trans (.of_eq (getElem?_insert_of_ne hk) rfl)

theorem carries_leaves : Carries (Leaves key taken t) where
  frame h hf := h.trans (.frame hf.plain)
  notifyOne w now resource payload obs h :=
    h.trans (leaves_notifyOne key w now _ resource payload obs)

theorem leaves_handleRequest (cfg : Config) (dedup : Option ExchangeKey) :
    Leaves key taken t (t.handleRequest cfg w now sess msg dedup) := by
  refine (carries_leaves key t).handleRequest (.of_reply cfg w sess msg ?_ ?_ ?_) (.refl t) now
  · intro u hu
    exact hu.emit (by simp)
  · intro u payload hu
    exact hu.emit (by simp)
  · intro u v hu hr
    exact hu.trans (.reply hr)

theorem leaves_handleMessage (cfg : Config) (hkey : msg.type = typeACK ∨ msg.type = typeRST →
      (⟨sess.remote, msg.messageID⟩ : ExchangeKey) = key → taken) :
    Leaves key taken t (t.handleMessage cfg w now sess msg) := by
  unfold handleMessage
  extract_lets k
  split
  · rename_i hack
    exact (Leaves.untrack (hkey (.inl hack)) t).emit (by simp)
  split
  · rename_i hrst
    have htake : Leaves key taken t (t.takePendingNotify k).2 := by
      unfold takePendingNotify
      split
      · exact .refl t
      · exact .untrack (hkey (.inr hrst)) t
    split <;> (rename_i he; rw [he] at htake; exact htake.trans (.of_eq rfl rfl))
  split
  · split
    · exact .frame calm_sendACKMsg.toFrame
    · exact .refl t
  split
  · split
    · exact .frame calm_replyToDuplicate.toFrame
    have hs : Leaves key taken t (t.storeSeen k) := .of_eq rfl rfl
    exact hs.trans (leaves_handleRequest key w now _ sess msg cfg _)
  · exact leaves_handleRequest key w now t sess msg cfg _

end Turn

variable {key : ExchangeKey} {taken : Prop} {cfg : Config} {r : Record} {s : Server}

theorem leaves_deliver (hi : r.input.isRetransmitDue = false) :
    Leaves key taken r.start (deliver cfg r.time r.start r.input).2 := by
  refine (Turn.carries_leaves key r.start).deliver (.refl _) cfg r.time r.input ?_
    fun _ => .of_eq rfl rfl
  intro w walk hw
  rw [hw] at hi
  cases hi

theorem leaves_serve (hi : r.input.isRetransmitDue = false)
    (hmsg : ∀ msg, r.message cfg = some (key, msg) → msg.type = typeACK ∨ msg.type = typeRST →
      taken) : Leaves key taken r.start (r.turn cfg) := by
  refine serve_of_handleMessage (leaves_deliver hi) (fun _ hu => hu) ?_
  intro c u msg hu hm _
  refine hu.trans (Turn.leaves_handleMessage key c.w r.time u c.sess msg cfg fun htype hkey => ?_)
  exact hmsg msg (hkey ▸ hm) htype

/-! ### A tick -/

/-- Two turns of one tick: the sessions are the same, the log has grown, and the
notification `key` was not touched in between. -/
structure Spares (key : ExchangeKey) (t u : Turn) : Prop where
  peers : u.srv.peers = t.srv.peers
  conns : u.srv.conns = t.srv.conns
  state : u.srv.state = t.srv.state
  entry : u.srv.pendingNotifies[key]? = t.srv.pendingNotifies[key]?
  log : LogExt (· ≠ .resent key) t u

namespace Spares

variable {key : ExchangeKey} {t u v : Turn}

theorem refl (t : Turn) : Spares key t t := ⟨rfl, rfl, rfl, rfl, .of_eq rfl⟩

theorem trans (h : Spares key t u) (g : Spares key u v) : Spares key t v :=
  ⟨g.peers.trans h.peers, g.conns.trans h.conns, g.state.trans h.state, g.entry.trans h.entry,
    h.log.trans g.log⟩

theorem emit (h : Spares key t u) {e : Event} (he : e ≠ .resent key) : Spares key t (u.emit e) :=
  ⟨h.peers, h.conns, h.state, h.entry, h.log.emit he⟩

theorem setEntry {k : ExchangeKey} (hk : k ≠ key) (t : Turn) (pn : PendingNotify) :
    Spares key t { t with srv := { t.srv with
      pendingNotifies := t.srv.pendingNotifies.insert k pn } } :=
  ⟨rfl, rfl, rfl, getElem?_insert_of_ne hk, .of_eq rfl⟩

theorem untrack {k : ExchangeKey} (hk : k ≠ key) (t : Turn) : Spares key t (t.untrackNotify k) :=
  ⟨rfl, rfl, rfl, getElem?_erase_of_ne hk, .of_eq rfl⟩

theorem send (w : World) (t : Turn) (sess : Session) (data : Bytes) :
    Spares key t (t.send w sess data).2 := by
  unfold Turn.send
  split
  · exact refl t
  · exact (refl t).emit (by simp)

theorem foldl {α : Type*} {f : Turn → α → Turn} (l : List α) (t : Turn)
    (hf : ∀ t, ∀ a ∈ l, Spares key t (f t a)) : Spares key t (l.foldl f t) := by
  induction l generalizing t with
  | nil => exact refl t
  | cons a l ih =>
    exact (hf t a List.mem_cons_self).trans
      (ih (f t a) fun t b hb => hf t b (List.mem_cons_of_mem _ hb))

theorem findSessionByRemote (h : Spares key t u) (w : World) (remote : Bytes) :
    u.findSessionByRemote w remote = t.findSessionByRemote w remote := by
  unfold Turn.findSessionByRemote
  rw [h.peers, h.conns]

end Spares

namespace Turn

variable {key : ExchangeKey} (w : World) (now : Int)

theorem spares_retransmitOne (t : Turn) {k : ExchangeKey} (hk : k ≠ key) :
    Spares key t (t.retransmitOne w now k) := by
  unfold retransmitOne retransmitTake
  cases hpn : t.srv.pendingNotifies[k]? with
  | none => exact .refl t
  | some pn =>
    have htake := Spares.setEntry hk t (pn.advance now)
    dsimp only
    unfold retransmitSend
    split
    · exact htake.trans (.untrack hk _)
    rename_i sess _
    have hsend := htake.trans (.send w _ sess pn.data)
    split
    · rename_i v hv
      rw [hv] at hsend
      exact hsend.trans (.untrack hk v)
    rename_i v hv
    rw [hv] at hsend
    exact hsend.emit (by simpa using hk)

theorem untrackNotify_self (t : Turn) (key : ExchangeKey) :
    (t.untrackNotify key).srv.pendingNotifies[key]? = none :=
  ExtTreeMap.getElem?_erase_self

/-- The notification's own turn in a tick: it is sent again and its entry advanced, or it
is dropped unsent, because its session is gone or closed or does not write. -/
theorem retransmitOne_self {t : Turn} {pn : PendingNotify}
    (hpn : t.srv.pendingNotifies[key]? = some pn) :
    ∃ own, (t.retransmitOne w now key).log = t.log ++ own ∧
      ((t.retransmitOne w now key).srv.pendingNotifies[key]? = some (pn.advance now) ∧
          own.count (.resent key) = 1 ∨
        (t.retransmitOne w now key).srv.pendingNotifies[key]? = none ∧ own.count (.resent key) = 0 ∧
          ∀ sess, t.findSessionByRemote w key.remote = some sess → t.srv.state sess.id = .active →
            .sent sess.remote pn.data false ∈ own) := by
  unfold retransmitOne retransmitTake
  rw [hpn]
  dsimp only
  generalize hu : ({ t with srv := { t.srv with
    pendingNotifies := t.srv.pendingNotifies.insert key (pn.advance now) } }) = u
  have hlog : t.log = u.log := by rw [← hu]
  have hstate : t.srv.state = u.srv.state := by rw [← hu]
  have hfind : t.findSessionByRemote w key.remote = u.findSessionByRemote w key.remote := by
    rw [← hu]
    rfl
  have hentry : u.srv.pendingNotifies[key]? = some (pn.advance now) := by
    rw [← hu]
    exact ExtTreeMap.getElem?_insert_self
  rw [hlog, hstate, hfind]
  unfold retransmitSend
  cases u.findSessionByRemote w key.remote with
  | none => exact ⟨[], (List.append_nil _).symm, .inr ⟨untrackNotify_self u key, rfl, by simp⟩⟩
  | some sess =>
    dsimp only
    unfold send
    cases hopen : u.srv.state sess.id with
    | closed =>
      refine ⟨[], (List.append_nil _).symm, .inr ⟨untrackNotify_self u key, rfl, ?_⟩⟩
      rintro _ ⟨⟩ hactive
      rw [hopen] at hactive
      cases hactive
    | active =>
      cases hok : w.write u.log.length with
      | false =>
        refine ⟨[.sent sess.remote pn.data false], rfl, .inr ⟨untrackNotify_self _ key, by simp, ?_⟩⟩
        rintro _ ⟨⟩ -
        exact List.mem_singleton_self _
      | true =>
        refine ⟨[.sent sess.remote pn.data true, .resent key], ?_, .inl ⟨hentry, by simp⟩⟩
        simp [emit]

/-! ### The scan of a tick -/

/-- The keys on which a tick decides for `action`. -/
def deciding (now : Int) (action : RetransmitAction) (l : List (ExchangeKey × PendingNotify)) :
    List ExchangeKey :=
  (l.filter fun e => e.2.decide now = action).map Prod.fst

theorem deciding_cons (action : RetransmitAction) (e : ExchangeKey × PendingNotify)
    (l : List (ExchangeKey × PendingNotify)) : deciding now action (e :: l) =
      if e.2.decide now = action then e.1 :: deciding now action l else deciding now action l := by
  by_cases he : e.2.decide now = action <;> simp [deciding, he]

/-- What the scan collects, and what it takes out of the table. -/
theorem scan_spec (l : List (ExchangeKey × PendingNotify)) (d : Due) (t : Turn) :
    (l.foldl (scanEntry now) (d, t)).1.keys =
        d.keys ++ deciding now .send l ∧
      (l.foldl (scanEntry now) (d, t)).1.abandoned = d.abandoned ++
        (l.filter fun e => e.2.decide now = .giveUp).map (fun e => (e.1.remote, e.2.token)) ∧
      ∃ pending, (l.foldl (scanEntry now) (d, t)).2 =
          { t with srv := { t.srv with pendingNotifies := pending } } ∧
        ∀ k : ExchangeKey, pending[k]? =
          if k ∈ deciding now .giveUp l then none else t.srv.pendingNotifies[k]? := by
  induction l generalizing d t with
  | nil => exact ⟨by simp [deciding], by simp, t.srv.pendingNotifies, rfl, fun k => by simp [deciding]⟩
  | cons e l ih =>
    rw [List.foldl_cons]
    cases he : e.2.decide now with
    | wait =>
      have hscan : scanEntry now (d, t) e = (d, t) := by rw [scanEntry, he]
      rw [hscan]
      simpa [he, deciding_cons] using ih d t
    | send =>
      have hscan : scanEntry now (d, t) e = ({ d with keys := d.keys ++ [e.1] }, t) := by
        rw [scanEntry, he]
      rw [hscan]
      simpa [he, deciding_cons, List.append_assoc] using ih { d with keys := d.keys ++ [e.1] } t
    | giveUp =>
      have hscan : scanEntry now (d, t) e =
          ({ d with abandoned := d.abandoned ++ [(e.1.remote, e.2.token)] },
            t.untrackNotify e.1) := by
        rw [scanEntry, he]
      obtain ⟨hkeys, habandoned, pending, hturn, hpending⟩ :=
        ih { d with abandoned := d.abandoned ++ [(e.1.remote, e.2.token)] } (t.untrackNotify e.1)
      rw [hscan]
      refine ⟨by simpa [he, deciding_cons] using hkeys,
        by simpa [he, List.append_assoc] using habandoned, pending, hturn, fun k => ?_⟩
      rw [hpending k, deciding_cons, if_pos he]
      simp only [List.mem_cons]
      by_cases hk : k = e.1
      · have hgone : (t.untrackNotify e.1).srv.pendingNotifies[k]? = none := by
          rw [hk]
          exact ExtTreeMap.getElem?_erase_self
        simp only [hk, true_or, if_true] at hgone ⊢
        simp only [hgone, ite_self]
      · simp only [hk, false_or, untrackNotify, getElem?_erase_of_ne (Ne.symm hk)]

variable (walk : WalkOrder (ExchangeKey × PendingNotify))

theorem mem_deciding {m : ExtTreeMap ExchangeKey PendingNotify} {action : RetransmitAction}
    {k : ExchangeKey} : k ∈ deciding now action (walk.order m.toList) ↔
      ∃ pn : PendingNotify, m[k]? = some pn ∧ pn.decide now = action := by
  simp only [deciding, List.mem_map, List.mem_filter, decide_eq_true_eq, Prod.exists,
    WalkOrder.mem_entries]
  constructor
  · rintro ⟨k', pn, ⟨hpn, hdecide⟩, rfl⟩
    exact ⟨pn, hpn, hdecide⟩
  · rintro ⟨pn, hpn, hdecide⟩
    exact ⟨k, pn, ⟨hpn, hdecide⟩, rfl⟩

theorem nodup_deciding {m : ExtTreeMap ExchangeKey PendingNotify} {action : RetransmitAction} :
    (deciding now action (walk.order m.toList)).Nodup := by
  have hkeys : ((walk.order m.toList).map Prod.fst).Nodup := by
    rw [((walk.perm m.toList).map Prod.fst).nodup_iff, ExtTreeMap.map_fst_toList_eq_keys]
    exact ExtTreeMap.nodup_keys
  exact hkeys.sublist (List.filter_sublist.map Prod.fst)

/-! ### The relations a tick cancels -/

/-- Cancelling relations changes the registry only, and only takes relations out. -/
theorem cancel_spec (l : List (Bytes × Bytes)) (t : Turn) :
    ∃ observers, l.foldl cancelRelation t = { t with srv := { t.srv with observers := observers } } ∧
      ∀ resource k obs, (observers.subsOf resource)[k]? = some obs →
        (t.srv.observers.subsOf resource)[k]? = some obs ∧
          ∀ e ∈ l, k ≠ observerKey e.1 e.2 := by
  induction l generalizing t with
  | nil => exact ⟨t.srv.observers, rfl, fun _ _ _ h => ⟨h, nofun⟩⟩
  | cons e l ih =>
    obtain ⟨observers, hturn, hrest⟩ := ih (t.cancelRelation e)
    refine ⟨observers, hturn, ?_⟩
    intro resource k obs hobs
    obtain ⟨hafter, hne⟩ := hrest resource k obs hobs
    obtain ⟨hbefore, hself⟩ := ObserverRegistry.of_getElem?_removeByToken hafter
    refine ⟨hbefore, ?_⟩
    intro e' he'
    rcases List.mem_cons.mp he' with rfl | he'
    · exact hself
    · exact hne e' he'

/-! ### The tick as a whole -/

theorem retransmitDue_eq (t : Turn) :
    ∃ pending scanned abandoned, t.retransmitDue w walk now = abandoned.foldl cancelRelation
        ((deciding now .send (walk.order t.srv.pendingNotifies.toList)).foldl (retransmitOne w now)
          scanned) ∧
      scanned = { t with srv := { t.srv with pendingNotifies := pending } } ∧
      abandoned = ((walk.order t.srv.pendingNotifies.toList).filter fun e =>
        e.2.decide now = .giveUp).map (fun e => (e.1.remote, e.2.token)) ∧
      ∀ k : ExchangeKey, pending[k]? =
        if k ∈ deciding now .giveUp (walk.order t.srv.pendingNotifies.toList) then none
        else t.srv.pendingNotifies[k]? := by
  obtain ⟨hkeys, habandoned, pending, hturn, hpending⟩ :=
    scan_spec now (walk.order t.srv.pendingNotifies.toList) ⟨[], []⟩ t
  refine ⟨pending, _, _, ?_, rfl, rfl, hpending⟩
  unfold retransmitDue retransmitScan
  dsimp only
  rw [hkeys, habandoned, hturn]
  rfl

/-- A tick on which the notification is not due. -/
theorem retransmitDue_other {t : Turn}
    (hdecide : ∀ pn, t.srv.pendingNotifies[key]? = some pn → pn.decide now ≠ .send) :
    LogExt (· ≠ .resent key) t (t.retransmitDue w walk now) ∧
      ((∀ pn, t.srv.pendingNotifies[key]? = some pn → pn.decide now = .wait) →
        (t.retransmitDue w walk now).srv.pendingNotifies[key]? = t.srv.pendingNotifies[key]?) ∧
      ∀ pn, t.srv.pendingNotifies[key]? = some pn → pn.decide now = .giveUp →
        (t.retransmitDue w walk now).srv.pendingNotifies[key]? = none ∧
        ∀ resource, (t.retransmitDue w walk now).srv.observers.find resource key.remote pn.token =
          none := by
  obtain ⟨pending, v, abandoned, heq, hscan, habandoned, hpending⟩ := retransmitDue_eq w now walk t
  have hspares : Spares key v ((deciding now .send
      (walk.order t.srv.pendingNotifies.toList)).foldl (retransmitOne w now) v) := by
    refine Spares.foldl _ v ?_
    rintro u k hk
    refine spares_retransmitOne w now u ?_
    rintro rfl
    obtain ⟨pn, hpn, hsend⟩ := (mem_deciding now walk).mp hk
    exact hdecide pn hpn hsend
  obtain ⟨observers, hcancel, hrelations⟩ := cancel_spec abandoned _
  rw [← heq] at hcancel
  rw [hcancel]
  have hscanned : v.srv.pendingNotifies[key]? = pending[key]? := by rw [hscan]
  have hentry := hspares.entry.trans hscanned
  have hstart : LogExt (· ≠ .resent key) t v := .of_eq (by rw [hscan])
  refine ⟨hstart.trans hspares.log, ?_, ?_⟩
  · intro hwait
    refine hentry.trans ((hpending key).trans (if_neg ?_))
    intro hmem
    obtain ⟨pn, hpn, hgive⟩ := (mem_deciding now walk).mp hmem
    rw [hwait pn hpn] at hgive
    cases hgive
  · intro pn hpn hgive
    refine ⟨hentry.trans ((hpending key).trans
      (if_pos ((mem_deciding now walk).mpr ⟨pn, hpn, hgive⟩))), ?_⟩
    intro resource
    refine Option.eq_none_iff_forall_ne_some.mpr ?_
    intro obs hobs
    refine (hrelations resource _ obs hobs).2 (key.remote, pn.token) ?_ rfl
    rw [habandoned, List.mem_map]
    refine ⟨(key, pn), ?_, rfl⟩
    rw [List.mem_filter, WalkOrder.mem_entries]
    exact ⟨hpn, by simpa using hgive⟩

/-- A tick on which it is due: the keys before it, its own turn, and the keys after it. -/
theorem retransmitDue_self {t : Turn} {pn : PendingNotify}
    (hpn : t.srv.pendingNotifies[key]? = some pn) (hsend : pn.decide now = .send) :
    ∃ u z, Spares key t u ∧ Spares key (u.retransmitOne w now key) z ∧
      (t.retransmitDue w walk now).srv.pendingNotifies = z.srv.pendingNotifies ∧
      (t.retransmitDue w walk now).log = z.log := by
  obtain ⟨pending, v, abandoned, heq, hscan, -, hpending⟩ := retransmitDue_eq w now walk t
  obtain ⟨observers, hcancel, -⟩ := cancel_spec abandoned
    ((deciding now .send (walk.order t.srv.pendingNotifies.toList)).foldl (retransmitOne w now) v)
  rw [← heq] at hcancel
  rw [hcancel]
  have hmem : key ∈ deciding now .send (walk.order t.srv.pendingNotifies.toList) :=
    (mem_deciding now walk).mpr ⟨pn, hpn, hsend⟩
  have hnodup : (deciding now .send (walk.order t.srv.pendingNotifies.toList)).Nodup :=
    nodup_deciding now walk
  obtain ⟨before, rest, hsplit⟩ := List.append_of_mem hmem
  rw [hsplit] at hnodup ⊢
  rw [List.foldl_append]
  have hbefore : key ∉ before := fun h =>
    (List.nodup_append.mp hnodup).2.2 key h key List.mem_cons_self rfl
  have hrest : key ∉ rest := (List.nodup_cons.mp (List.nodup_append.mp hnodup).2.1).1
  have hentry : pending[key]? = t.srv.pendingNotifies[key]? := by
    refine (hpending key).trans (if_neg ?_)
    intro hgive
    obtain ⟨pn', hpn', hgive⟩ := (mem_deciding now walk).mp hgive
    rw [hpn] at hpn'
    cases hpn'
    rw [hsend] at hgive
    cases hgive
  have hscanned : Spares key t v := by
    rw [hscan]
    exact ⟨rfl, rfl, rfl, hentry, .of_eq rfl⟩
  have hfirst : Spares key v (before.foldl (retransmitOne w now) v) :=
    Spares.foldl before v fun u k hk => spares_retransmitOne w now u fun h => hbefore (h ▸ hk)
  exact ⟨_, _, hscanned.trans hfirst, Spares.foldl rest _ fun u k hk =>
    spares_retransmitOne w now u fun h => hrest (h ▸ hk), rfl, rfl⟩

end Turn

/-! ### The schedule of one entry -/

theorem initialRetransmitTimeout_range (draw : Int) :
    2 * second ≤ initialRetransmitTimeout draw ∧ initialRetransmitTimeout draw < 3 * second := by
  have hspread : ackTimeoutSpread = second := by decide
  have hpos : 0 < second := by decide
  unfold initialRetransmitTimeout
  dsimp only
  generalize (if draw < 0 then 0 else draw) = d
  have hlow := Int.emod_nonneg d hpos.ne'
  have hhigh := Int.emod_lt_of_pos d hpos
  rw [hspread, ackTimeout]
  omega

/-- The entry after `n` retransmissions, for a notification tracked at `t0` with the first
timeout `T`. -/
structure OnSchedule (t0 T : Int) (token : Bytes) (n : Nat) (pn : PendingNotify) : Prop where
  attempts : pn.attempts = n
  timeout : pn.timeout = 2 ^ n * T
  deadline : t0 + (2 ^ (n + 1) - 1) * T ≤ pn.deadline
  token : pn.token = token

namespace OnSchedule

variable {t0 T : Int} {token : Bytes} {n : Nat} {pn : PendingNotify}

theorem tracked (t0 T : Int) (token data : Bytes) :
    OnSchedule t0 T token 0 ⟨data, token, 0, T, t0 + T⟩ :=
  ⟨rfl, by simp, by simp, rfl⟩

theorem advance (h : OnSchedule t0 T token n pn) (hT : 0 ≤ T) (now : Int) :
    OnSchedule t0 T token (n + 1) (pn.advance now) := by
  have hdouble : 2 ^ (n + 1) * T = 2 ^ n * T * 2 := by ring
  have hpos : 0 ≤ 2 ^ n * T := by positivity
  have hsum : (2 ^ (n + 1 + 1) - 1) * T = (2 ^ (n + 1) - 1) * T + 2 ^ n * T * 2 := by ring
  have hdeadline := h.deadline
  refine ⟨?_, ?_, ?_, h.token⟩
  · rw [PendingNotify.advance, h.attempts]
  · rw [PendingNotify.advance, h.timeout, hdouble]
  · rw [PendingNotify.advance, h.timeout]
    dsimp only
    split <;> omega

end OnSchedule

/-! ### What one input does to the notification -/

/-- Nothing that the schedule does not foresee happens to the notification: no ACK or RST
for it comes in, its message ID is not issued again, and at a tick its session is there,
open and sends without error. -/
structure Undisturbed (cfg : Config) (key : ExchangeKey) (r : Record) : Prop where
  unacknowledged : ∀ msg, r.message cfg = some (key, msg) →
    msg.type ≠ typeACK ∧ msg.type ≠ typeRST
  notIssued : .issued key ∉ r.log cfg
  sending : ∀ w walk, r.input = .retransmitDue w walk →
    ∃ sess, r.start.findSessionByRemote w key.remote = some sess ∧
      r.before.state sess.id = .active ∧
      ∀ data ok, .sent sess.remote data ok ∈ r.log cfg → ok = true

/-- What an input does to a notification whose message ID is not issued anew.  It is `gone`
when it is acknowledged or reset, and when a tick does not get it sent. -/
inductive Progress (cfg : Config) (key : ExchangeKey) (r : Record) : Prop
  | idle (hcount : (r.log cfg).count (.resent key) = 0)
      (hentry : (r.after cfg).pendingNotifies[key]? = r.before.pendingNotifies[key]?)
      (hwait : r.input.isRetransmitDue = true → ∀ pn, r.before.pendingNotifies[key]? = some pn →
        r.time < pn.deadline)
  | resent (htick : r.input.isRetransmitDue = true) (pn : PendingNotify)
      (hpn : r.before.pendingNotifies[key]? = some pn) (hdue : pn.deadline ≤ r.time)
      (hleft : pn.attempts < maxRetransmit) (hcount : (r.log cfg).count (.resent key) = 1)
      (hentry : (r.after cfg).pendingNotifies[key]? = some (pn.advance r.time))
  | gone (hcount : (r.log cfg).count (.resent key) = 0)
      (hentry : (r.after cfg).pendingNotifies[key]? = none) (hdisturbed : ¬ Undisturbed cfg key r)
  | gaveUp (htick : r.input.isRetransmitDue = true) (pn : PendingNotify)
      (hpn : r.before.pendingNotifies[key]? = some pn) (hdue : pn.deadline ≤ r.time)
      (hspent : maxRetransmit ≤ pn.attempts) (hcount : (r.log cfg).count (.resent key) = 0)
      (hentry : (r.after cfg).pendingNotifies[key]? = none)
      (hrelations : ∀ resource, (r.after cfg).observers.find resource key.remote pn.token = none)

theorem PendingNotify.decide_cases (pn : PendingNotify) (now : Int) :
    pn.decide now = .wait ∧ now < pn.deadline ∨
      pn.decide now = .send ∧ pn.deadline ≤ now ∧ pn.attempts < maxRetransmit ∨
      pn.decide now = .giveUp ∧ pn.deadline ≤ now ∧ maxRetransmit ≤ pn.attempts := by
  unfold PendingNotify.decide
  by_cases hearly : now < pn.deadline
  · exact .inl ⟨if_pos hearly, hearly⟩
  rw [if_neg hearly]
  rw [not_lt] at hearly
  by_cases hspent : maxRetransmit ≤ pn.attempts
  · exact .inr (.inr ⟨if_pos hspent, hearly, hspent⟩)
  · exact .inr (.inl ⟨if_neg hspent, hearly, not_le.mp hspent⟩)

section Ticks

variable {cfg : Config} {key : ExchangeKey} {r : Record} {w : World}
  {walk : WalkOrder (ExchangeKey × PendingNotify)}

/-- A tick on which the notification is due: its own turn decides, and the other keys add
nothing. -/
theorem progress_due (hi : r.input = .retransmitDue w walk)
    (hturn : r.turn cfg = r.start.retransmitDue w walk r.time) {pn : PendingNotify}
    (hpn : r.before.pendingNotifies[key]? = some pn) (hsend : pn.decide r.time = .send)
    (hdue : pn.deadline ≤ r.time) (hleft : pn.attempts < maxRetransmit) : Progress cfg key r := by
  obtain ⟨u, z, hfirst, hthen, hpending, hlog⟩ :=
    Turn.retransmitDue_self w r.time walk (t := r.start) hpn hsend
  rw [← hturn] at hpending hlog
  obtain ⟨own, hown, hcases⟩ := Turn.retransmitOne_self w r.time (hfirst.entry.trans hpn)
  obtain ⟨l, hl, hresent⟩ := hfirst.log
  obtain ⟨m, hm, hresent'⟩ := hthen.log
  have hall : r.log cfg = l ++ own ++ m := by
    rw [Record.log, hlog, hm, hown, hl]
    rfl
  have hcount : (r.log cfg).count (.resent key) = own.count (.resent key) := by
    rw [hall, List.count_append, List.count_append,
      List.count_eq_zero_of_not_mem fun hmem => hresent _ hmem rfl,
      List.count_eq_zero_of_not_mem fun hmem => hresent' _ hmem rfl]
    omega
  have hafter : (r.after cfg).pendingNotifies[key]? =
      (u.retransmitOne w r.time key).srv.pendingNotifies[key]? := by
    rw [Record.after, hpending]
    exact hthen.entry
  rcases hcases with ⟨hsome, hone⟩ | ⟨hnone, hzero, hfails⟩
  · exact .resent (by rw [hi]; rfl) pn hpn hdue hleft (hcount.trans hone) (hafter.trans hsome)
  refine .gone (hcount.trans hzero) (hafter.trans hnone) fun h => ?_
  obtain ⟨sess, hsess, hopen, hwrite⟩ := h.sending w walk hi
  rw [← hfirst.findSessionByRemote] at hsess
  have hactive : u.srv.state sess.id = .active := by
    rw [hfirst.state]
    exact hopen
  refine Bool.false_ne_true (hwrite pn.data false ?_)
  rw [hall]
  exact List.mem_append_left _ (List.mem_append_right _ (hfails sess hsess hactive))

theorem progress_tick (hi : r.input = .retransmitDue w walk) : Progress cfg key r := by
  have htick : r.input.isRetransmitDue = true := by rw [hi]; rfl
  have hturn : r.turn cfg = r.start.retransmitDue w walk r.time := by
    rw [Record.turn, hi]
    rfl
  have hother := @Turn.retransmitDue_other key w r.time walk r.start
  rw [← hturn] at hother
  have hcount : LogExt (· ≠ .resent key) r.start (r.turn cfg) →
      (r.log cfg).count (.resent key) = 0 := by
    rintro ⟨l, hl, hresent⟩
    rw [Record.log, hl]
    exact List.count_eq_zero_of_not_mem fun hmem => hresent _ hmem rfl
  cases hpn : r.before.pendingNotifies[key]? with
  | none =>
    have hnone : ∀ pn, r.start.srv.pendingNotifies[key]? ≠ some pn :=
      Option.eq_none_iff_forall_ne_some.mp hpn
    obtain ⟨hlog, hentry, -⟩ := hother fun pn h => absurd h (hnone pn)
    exact .idle (hcount hlog) (hentry fun pn h => absurd h (hnone pn))
      fun _ pn h => absurd h (hnone pn)
  | some pn =>
    have honly : ∀ pn', r.start.srv.pendingNotifies[key]? = some pn' → pn' = pn := by
      intro pn' hpn'
      exact Option.some.inj (hpn'.symm.trans hpn)
    rcases pn.decide_cases r.time with
      ⟨hwait, hearly⟩ | ⟨hsend, hdue, hleft⟩ | ⟨hgive, hdue, hspent⟩
    · obtain ⟨hlog, hentry, -⟩ := hother fun pn' hpn' => by
        rw [honly pn' hpn', hwait]
        decide
      refine .idle (hcount hlog) (hentry fun pn' hpn' => by rw [honly pn' hpn', hwait]) ?_
      intro _ pn' hpn'
      rw [honly pn' hpn']
      exact hearly
    · exact progress_due hi hturn hpn hsend hdue hleft
    · obtain ⟨hlog, -, hgone⟩ := hother fun pn' hpn' => by
        rw [honly pn' hpn', hgive]
        decide
      obtain ⟨hentry, hrelations⟩ := hgone pn hpn hgive
      exact .gaveUp htick pn hpn hdue hspent (hcount hlog) hentry hrelations

end Ticks

theorem progress (hissued : .issued key ∉ r.log cfg) : Progress cfg key r := by
  by_cases htick : r.input.isRetransmitDue = true
  · cases hi : r.input with
    | retransmitDue w walk => exact progress_tick hi
    | _ => rw [hi] at htick; cases htick
  have hleaves : Leaves key (¬ Undisturbed cfg key r) r.start (r.turn cfg) := by
    refine leaves_serve (Bool.eq_false_of_not_eq_true htick) ?_
    intro msg hmsg htype h
    obtain ⟨hack, hrst⟩ := h.unacknowledged msg hmsg
    exact htype.elim hack hrst
  obtain ⟨l, hl, hresent, hentry⟩ := hleaves
  have hlog : r.log cfg = l := hl
  rw [hlog] at hissued
  have hcount : (r.log cfg).count (.resent key) = 0 := by
    rw [hlog]
    exact List.count_eq_zero_of_not_mem hresent
  rcases hentry hissued with hsame | ⟨hdisturbed, hnone⟩
  · exact .idle hcount hsame fun h => absurd h htick
  · exact .gone hcount hnone hdisturbed

/-! ### Whole runs -/

/-- The times at which the notification is sent again in a run. -/
def resendTimes (cfg : Config) (key : ExchangeKey) : Server → List TimedInput → List Int
  | _, [] => []
  | s, i :: ins =>
    let r : Record := ⟨s, i.1, i.2⟩
    List.replicate ((r.log cfg).count (.resent key)) i.1 ++ resendTimes cfg key (r.after cfg) ins

theorem resendTimes_concat (cfg : Config) (key : ExchangeKey) (s : Server) (ins : List TimedInput)
    (i : TimedInput) : resendTimes cfg key s (ins ++ [i]) = resendTimes cfg key s ins ++
      List.replicate (((recordAt cfg s ins i).log cfg).count (.resent key)) i.1 := by
  induction ins generalizing s with
  | nil => simp [resendTimes, recordAt, stateAfter]
  | cons j ins ih =>
    simp only [List.cons_append, resendTimes, List.append_assoc]
    rw [ih]
    rfl

/-- Every input of the run leaves the notification to its schedule. -/
def UndisturbedRun (cfg : Config) (key : ExchangeKey) (s : Server) (ins : List TimedInput) : Prop :=
  ∀ pre i post, ins = pre ++ i :: post → Undisturbed cfg key (recordAt cfg s pre i)

theorem UndisturbedRun.left {ins more : List TimedInput}
    (h : UndisturbedRun cfg key s (ins ++ more)) : UndisturbedRun cfg key s ins := by
  rintro pre i post rfl
  exact h pre i (post ++ more) (by simp)

/-- The notification after a run: how often it was sent again, when, and what its entry
says now, if it still has one. -/
structure Kept (t0 T : Int) (token : Bytes) (key : ExchangeKey) (times : List Int) (s : Server) :
    Prop where
  few : times.length ≤ maxRetransmit
  late : ∀ k time, times[k]? = some time → t0 + (2 ^ (k + 1) - 1) * T ≤ time
  entry : ∀ pn, s.pendingNotifies[key]? = some pn → OnSchedule t0 T token times.length pn

theorem Kept.step {t0 T : Int} {token : Bytes} {times : List Int}
    (h : Kept t0 T token key times r.before) (hT : 0 ≤ T) (hr : Progress cfg key r) :
    Kept t0 T token key (times ++ List.replicate ((r.log cfg).count (.resent key)) r.time)
      (r.after cfg) := by
  cases hr with
  | idle hcount hentry hwait =>
    rw [hcount, List.replicate_zero, List.append_nil]
    exact ⟨h.few, h.late, fun pn hpn => h.entry pn (hentry.symm.trans hpn)⟩
  | gone hcount hentry _ | gaveUp _ pn hpn hdue hspent hcount hentry _ =>
    rw [hcount, List.replicate_zero, List.append_nil]
    refine ⟨h.few, h.late, fun pn' hpn' => ?_⟩
    rw [hentry] at hpn'
    cases hpn'
  | resent htick pn hpn hdue hleft hcount hentry =>
    have hsched := h.entry pn hpn
    rw [hcount, List.replicate_one]
    refine ⟨?_, ?_, ?_⟩
    · rw [List.length_append, ← hsched.attempts]
      exact hleft
    · intro k time htime
      rcases getElem?_concat_eq_some.mp htime with hold | ⟨rfl, rfl⟩
      · exact h.late k time hold
      · exact hsched.deadline.trans hdue
    · intro pn' hpn'
      rw [hentry] at hpn'
      cases hpn'
      rw [List.length_append]
      exact hsched.advance hT r.time

theorem kept_stateAfter {t0 T : Int} {token : Bytes} {ins : List TimedInput} (hT : 0 ≤ T)
    (hstart : ∀ pn, s.pendingNotifies[key]? = some pn → OnSchedule t0 T token 0 pn)
    (hrun : UndisturbedRun cfg key s ins) :
    Kept t0 T token key (resendTimes cfg key s ins) (stateAfter cfg s ins) := by
  induction ins using List.reverseRecOn with
  | nil => exact ⟨Nat.zero_le _, nofun, hstart⟩
  | append_singleton ins i ih =>
    rw [resendTimes_concat, stateAfter_concat]
    exact (ih hrun.left).step hT (progress (hrun ins i [] rfl).notIssued)

/-- **The retransmission schedule.**  Whatever the jitter, the first timeout `T` of a
notification tracked at `t0` lies in [2 s, 3 s).  In every run that leaves it to its
schedule it is sent again at most four times, the `k + 1`-st time not before
`t0 + (2 ^ (k + 1) - 1) * T`.  While it has an entry, a tick sends it again exactly when
the deadline has come and fewer than four attempts were made, nothing else does, and the
entry stays as it is until then.  After four attempts the tick at the deadline gives it
up.  That is never before `t0 + 31 * T`, hence not before `t0 + 62 s`, and after exactly
four retransmissions, and the relations of its token go with it. -/
theorem retransmission_schedule (cfg : Config) (t : Turn) (t0 draw : Int) (key : ExchangeKey)
    (token data : Bytes) (s : Server) (ins : List TimedInput)
    (hs : s.pendingNotifies[key]? =
      (t.trackNotify t0 draw key token data).srv.pendingNotifies[key]?)
    (hrun : UndisturbedRun cfg key s ins) :
    (2 * second ≤ initialRetransmitTimeout draw ∧ initialRetransmitTimeout draw < 3 * second) ∧
    (resendTimes cfg key s ins).length ≤ 4 ∧
    (∀ k time, (resendTimes cfg key s ins)[k]? = some time →
      t0 + (2 ^ (k + 1) - 1) * initialRetransmitTimeout draw ≤ time) ∧
    ∀ pre i post, ins = pre ++ i :: post → ∀ pn,
      (stateAfter cfg s pre).pendingNotifies[key]? = some pn →
      pn.attempts = (resendTimes cfg key s pre).length ∧
      (i.2.isRetransmitDue = true ∧ pn.deadline ≤ i.1 ∧ pn.attempts < 4 →
        ((recordAt cfg s pre i).log cfg).count (.resent key) = 1 ∧
        (stateAfter cfg s (pre ++ [i])).pendingNotifies[key]? = some (pn.advance i.1)) ∧
      (¬ (i.2.isRetransmitDue = true ∧ pn.deadline ≤ i.1) →
        ((recordAt cfg s pre i).log cfg).count (.resent key) = 0 ∧
        (stateAfter cfg s (pre ++ [i])).pendingNotifies[key]? = some pn) ∧
      (i.2.isRetransmitDue = true ∧ pn.deadline ≤ i.1 ∧ 4 ≤ pn.attempts →
        (stateAfter cfg s (pre ++ [i])).pendingNotifies[key]? = none) ∧
      ((stateAfter cfg s (pre ++ [i])).pendingNotifies[key]? = none →
        i.2.isRetransmitDue = true ∧ t0 + 31 * initialRetransmitTimeout draw ≤ i.1 ∧
        t0 + 62 * second ≤ i.1 ∧ (resendTimes cfg key s pre).length = 4 ∧
        ∀ resource, (stateAfter cfg s (pre ++ [i])).observers.find resource key.remote token =
          none) := by
  obtain ⟨hlow, hhigh⟩ := initialRetransmitTimeout_range draw
  have hT : 0 ≤ initialRetransmitTimeout draw := le_trans (by decide) hlow
  have hstart : ∀ pn, s.pendingNotifies[key]? = some pn →
      OnSchedule t0 (initialRetransmitTimeout draw) token 0 pn := by
    intro pn hpn
    rw [hs] at hpn
    rw [Turn.trackNotify, ExtTreeMap.getElem?_insert_self] at hpn
    cases hpn
    exact .tracked _ _ _ _
  have hkept := kept_stateAfter hT hstart hrun
  refine ⟨⟨hlow, hhigh⟩, hkept.few, hkept.late, ?_⟩
  rintro pre i post rfl pn hpn
  have hpre := kept_stateAfter hT hstart hrun.left
  have hsched := hpre.entry pn hpn
  have hundisturbed := hrun pre i post rfl
  have hprogress := progress hundisturbed.notIssued
  rw [stateAfter_concat]
  generalize hr : recordAt cfg s pre i = r at hprogress hundisturbed
  have htime : r.time = i.1 := by rw [← hr]; rfl
  have hinput : r.input = i.2 := by rw [← hr]; rfl
  have hbefore : r.before.pendingNotifies[key]? = some pn := by
    rw [← hr]
    exact hpn
  rw [← htime, ← hinput]
  refine ⟨hsched.attempts, ?_⟩
  cases hprogress with
  | idle hcount hentry hwait =>
    refine ⟨?_, fun _ => ⟨hcount, hentry.trans hbefore⟩, ?_, fun hnone => ?_⟩
    · rintro ⟨htick, hdue, -⟩
      exact absurd (hwait htick pn hbefore) (not_lt.mpr hdue)
    · rintro ⟨htick, hdue, -⟩
      exact absurd (hwait htick pn hbefore) (not_lt.mpr hdue)
    · rw [hentry, hbefore] at hnone
      cases hnone
  | resent htick pn' hpn' hdue hleft hcount hentry =>
    rw [hbefore] at hpn'
    cases hpn'
    refine ⟨fun _ => ⟨hcount, hentry⟩, fun hnot => absurd ⟨htick, hdue⟩ hnot, ?_, fun hnone => ?_⟩
    · rintro ⟨-, -, hspent⟩
      exact absurd hleft (not_lt.mpr hspent)
    · rw [hentry] at hnone
      cases hnone
  | gone _ _ hdisturbed => exact absurd hundisturbed hdisturbed
  | gaveUp htick pn' hpn' hdue hspent hcount hentry hrelations =>
    rw [hbefore] at hpn'
    cases hpn'
    have hfour : (resendTimes cfg key s pre).length = 4 :=
      le_antisymm hpre.few (hsched.attempts ▸ hspent)
    have hdeadline := hsched.deadline
    rw [hfour] at hdeadline
    rw [hsched.token] at hrelations
    refine ⟨?_, fun hnot => absurd ⟨htick, hdue⟩ hnot, fun _ => hentry,
      fun _ => ⟨htick, ?_, ?_, hfour, hrelations⟩⟩
    · rintro ⟨-, -, hleft⟩
      exact absurd hspent (not_le.mpr hleft)
    · omega
    · omega

/-! ### A notification that nobody acknowledges -/

theorem UndisturbedRun.nil : UndisturbedRun cfg key s [] := by
  intro pre i post h
  exact absurd h.symm (List.append_ne_nil_of_right_ne_nil pre (List.cons_ne_nil i post))

theorem UndisturbedRun.cons {i : TimedInput} {ins : List TimedInput}
    (h : Undisturbed cfg key ⟨s, i.1, i.2⟩)
    (hrest : UndisturbedRun cfg key ((⟨s, i.1, i.2⟩ : Record).after cfg) ins) :
    UndisturbedRun cfg key s (i :: ins) := by
  rintro (_ | ⟨j, pre⟩) k post heq
  · cases heq
    exact h
  · cases heq
    exact hrest pre k post rfl

def tickAt (seconds : Int) : TimedInput := (seconds * second, .retransmitDue steadyWorld .id)

theorem undisturbed_tickAt (n : Int) (sess : Session) (data : Bytes)
    (h : (⟨s, []⟩ : Turn).findSessionByRemote steadyWorld key.remote = some sess ∧
      s.state sess.id = .active ∧ ∀ e ∈ (⟨s, (tickAt n).1, (tickAt n).2⟩ : Record).log cfg,
        e = .sent sess.remote data true ∨ e = .resent key) :
    Undisturbed cfg key ⟨s, (tickAt n).1, (tickAt n).2⟩ := by
  obtain ⟨hsess, hopen, hlog⟩ := h
  refine ⟨nofun, ?_, ?_⟩
  · intro hissued
    rcases hlog _ hissued with h | h <;> cases h
  · rintro w' walk' heq
    cases heq
    refine ⟨sess, hsess, hopen, ?_⟩
    intro data' ok hsent
    rcases hlog _ hsent with h | h
    · cases h
      rfl
    · cases h

/-- The peer registered for the empty resource, and was notified once. -/
def notifiedServer : Server := stateAfter responderConfig freshServer
  [(0, .datagram [0x61] none [0x40, 1, 0, 7, 0x60] steadyWorld),
    (0, .notifyObservers [] [9] steadyWorld)]

/-- The session of the peer, and its notification on the wire. -/
def peerOne : Session := ⟨1, [0x61], none, false⟩

def dataOne : Bytes := [64, 69, 0, 1, 97, 1, 255, 9]

theorem retransmission_schedule_notifiedServer :
    resendTimes responderConfig keyOne notifiedServer (List.map tickAt [2, 6, 14, 30, 62]) =
        [2 * second, 6 * second, 14 * second, 30 * second] ∧
      ∀ resource, (stateAfter responderConfig notifiedServer
        (List.map tickAt [2, 6, 14, 30] ++ [tickAt 62])).observers.find resource [0x61] [] = none := by
  have hrun : UndisturbedRun responderConfig keyOne notifiedServer
      (List.map tickAt [2, 6, 14, 30] ++ tickAt 62 :: []) := by
    refine .cons ?_ (.cons ?_ (.cons ?_ (.cons ?_ (.cons ?_ .nil))))
    · exact undisturbed_tickAt 2 peerOne dataOne (by decide +kernel)
    · exact undisturbed_tickAt 6 peerOne dataOne (by decide +kernel)
    · exact undisturbed_tickAt 14 peerOne dataOne (by decide +kernel)
    · exact undisturbed_tickAt 30 peerOne dataOne (by decide +kernel)
    · exact undisturbed_tickAt 62 peerOne dataOne (by decide +kernel)
  have hschedule := retransmission_schedule responderConfig ⟨freshServer, []⟩ 0 0 keyOne []
    dataOne notifiedServer _ (by decide +kernel) hrun
  refine ⟨by decide +kernel, ?_⟩
  exact ((hschedule.2.2.2 _ _ _ rfl ⟨dataOne, [], 4, 32 * second, 62 * second⟩
    (by decide +kernel)).2.2.2.2 (by decide +kernel)).2.2.2.2

end SharkSocket.Coap
