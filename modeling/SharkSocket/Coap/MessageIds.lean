import SharkSocket.Coap.Effects

/-!
# Message IDs of pending notifications

All notifications draw their message ID from one counter, of which 16 bits go on the wire,
and a pending notification is kept under its remote and message ID.  A later notification
to the same remote can therefore be tracked under the same key.

* `IdsInOrder`: the `i`-th key issued since the start has message ID `i + 1` modulo `2^16`,
  and the counter is the number of keys issued.
* `Guarded`: while fewer than `2^16` IDs are drawn since the issue of every key that is
  pending or in the hands of a notifier, the key drawn next is none of these.
* `pending_never_displaced`: in such a run a notification leaves the table only for one of
  the reasons of `System.Settles`.

`displaced_after_wrap` is a run in which the counter comes round.
-/

namespace SharkSocket.Coap

open Lib
open SharkSocket.Runtime (SessionManager)
open SharkSocket.Shared (PeerQuota)
open Std (ExtTreeMap)

/-! ### Numbering -/

def Event.issuedKey? : Event → Option ExchangeKey
  | .issued key => some key
  | _ => none

/-- The keys issued since the start, in order. -/
def issuedKeys (log : List Event) : List ExchangeKey := log.filterMap Event.issuedKey?

/-- How many message IDs were drawn after the last one issued as `key`. -/
def drawsSince (log : List Event) (key : ExchangeKey) : Nat := (issuedKeys log).reverse.idxOf key

variable {t u : Turn} {key : ExchangeKey} {p : Permit}

theorem issuedKeys_of_logExt (h : LogExt (fun e => e.isIssued = false) t u) :
    issuedKeys u.log = issuedKeys t.log := by
  obtain ⟨l, hl, hnone⟩ := h
  have hnil : l.filterMap Event.issuedKey? = [] := by
    rw [List.filterMap_eq_nil_iff]
    intro e he
    have hunissued := hnone e he
    cases e <;> first | rfl | cases hunissued
  unfold issuedKeys
  rw [hl, List.filterMap_append, hnil, List.append_nil]

theorem issuedKeys_issue (t : Turn) (remote : Bytes) :
    issuedKeys (t.issue remote).log = issuedKeys t.log ++ [⟨remote, t.nextMessageID.1⟩] := by
  show List.filterMap _ (t.log ++ [_]) = _
  rw [List.filterMap_append]
  rfl

/-- The position of the last issue of a key. -/
theorem getElem?_last_issue {l : List ExchangeKey} (h : key ∈ l) :
    l.reverse.idxOf key < l.length ∧ l[l.length - 1 - l.reverse.idxOf key]? = some key := by
  have hlt : l.reverse.idxOf key < l.reverse.length :=
    List.idxOf_lt_length_iff.mpr (List.mem_reverse.mpr h)
  have hget : l.reverse[l.reverse.idxOf key]? = some key := by
    rw [List.getElem?_eq_getElem hlt, List.getElem_idxOf]
  rw [List.length_reverse] at hlt
  rw [List.getElem?_reverse hlt] at hget
  exact ⟨hlt, hget⟩

structure IdsInOrder (t : Turn) : Prop where
  last : t.srv.lastMsgID = UInt32.ofNat (issuedKeys t.log).length
  ids : ∀ (i : Nat) (key : ExchangeKey), (issuedKeys t.log)[i]? = some key →
    key.msgID = UInt16.ofNat (i + 1)

theorem IdsInOrder.nextMessageID {t : Turn} (h : IdsInOrder t) :
    t.nextMessageID.1 = UInt16.ofNat ((issuedKeys t.log).length + 1) := by
  show (t.srv.lastMsgID + 1).toUInt16 = _
  rw [h.last, ← UInt32.toUInt16_ofNat', UInt32.ofNat_add]
  rfl

variable {N n : Nat} {s : System}

/-- Numbers less than `2^16` apart give different message IDs. -/
theorem ofNat_ne {i : Nat} (hlt : i < n) (hnear : n < i + 65536) :
    UInt16.ofNat i ≠ UInt16.ofNat n := by
  intro heq
  have hmod : i % 65536 = n % 65536 := by
    have := congrArg UInt16.toNat heq
    rwa [UInt16.toNat_ofNat'] at this
  omega

/-- Up to the `N`-th draw no more than `2^16` message IDs were drawn from this one on. -/
def Recent (N : Nat) (t : Turn) (key : ExchangeKey) : Prop :=
  ∃ i : Nat, (issuedKeys t.log)[i]? = some key ∧ N ≤ i + 65536

theorem Recent.mem {t : Turn} (h : Recent N t key) : key ∈ issuedKeys t.log := by
  obtain ⟨i, hi, -⟩ := h
  exact List.mem_of_getElem? hi

/-- The key drawn next is no recent one. -/
theorem IdsInOrder.fresh {t : Turn} (h : IdsInOrder t) (hN : (issuedKeys t.log).length < N)
    (hr : Recent N t key) (remote : Bytes) : key ≠ ⟨remote, t.nextMessageID.1⟩ := by
  obtain ⟨i, hi, hnear⟩ := hr
  have hlt : i < (issuedKeys t.log).length := (List.getElem?_eq_some_iff.mp hi).1
  rintro rfl
  have hid := h.ids i _ hi
  rw [h.nextMessageID] at hid
  exact ofNat_ne (by omega) (by omega) hid.symm

/-- One effect draws at most one message ID. -/
theorem Effect.draws (he : Effect p t u) :
    (issuedKeys u.log = issuedKeys t.log ∧ u.srv.lastMsgID = t.srv.lastMsgID) ∨
    ∃ remote, issuedKeys u.log = issuedKeys t.log ++ [⟨remote, t.nextMessageID.1⟩] ∧
      u.srv.lastMsgID = t.srv.lastMsgID + 1 := by
  cases he with
  | quiet hq => exact .inl ⟨issuedKeys_of_logExt hq.log, hq.lastMsgID⟩
  | delete key => cases key <;> exact .inl ⟨rfl, rfl⟩
  | issue remote => exact .inr ⟨remote, issuedKeys_issue t remote, rfl⟩
  | notify remote now draw token data hq =>
    refine .inr ⟨remote, ?_, hq.lastMsgID⟩
    exact (issuedKeys_of_logExt hq.log).trans (issuedKeys_issue t remote)
  | _ => exact .inl ⟨rfl, rfl⟩

theorem Effect.length_issuedKeys (he : Effect p t u) :
    (issuedKeys t.log).length ≤ (issuedKeys u.log).length := by
  rcases he.draws with ⟨hsame, -⟩ | ⟨remote, hmore, -⟩
  · rw [hsame]
  rw [hmore, List.length_append]
  exact Nat.le_add_right _ _

theorem Recent.effect (h : Recent N t key) (he : Effect p t u) : Recent N u key := by
  obtain ⟨i, hi, hnear⟩ := h
  refine ⟨i, ?_, hnear⟩
  rcases he.draws with ⟨hsame, -⟩ | ⟨remote, hmore, -⟩
  · rw [hsame]
    exact hi
  rw [hmore]
  exact getElem?_concat_eq_some.mpr (.inl hi)

theorem IdsInOrder.effect (h : IdsInOrder t) (he : Effect p t u) : IdsInOrder u := by
  rcases he.draws with ⟨hsame, hlast⟩ | ⟨remote, hmore, hlast⟩
  · exact ⟨by rw [hlast, hsame]; exact h.last, by rw [hsame]; exact h.ids⟩
  refine ⟨?_, ?_⟩
  · rw [hlast, h.last, hmore, List.length_append, UInt32.ofNat_add]
    rfl
  · intro i key hi
    rw [hmore] at hi
    rcases getElem?_concat_eq_some.mp hi with hold | ⟨rfl, rfl⟩
    · exact h.ids i key hold
    · exact h.nextMessageID

/-- What one effect does to the pending notifications. -/
theorem Effect.pending (he : Effect p t u) : u.srv.pendingNotifies = t.srv.pendingNotifies ∨
    (∃ key, p.drop key ∧ u.srv.pendingNotifies = t.srv.pendingNotifies.erase key) ∨
    (∃ key pn now, p.advance key ∧ t.srv.pendingNotifies[key]? = some pn ∧
      u.srv.pendingNotifies = t.srv.pendingNotifies.insert key (pn.advance now)) ∨
    (∃ key pn, p.track key ∧ u.srv.pendingNotifies = t.srv.pendingNotifies.insert key pn) ∨
    ∃ remote pn, issuedKeys u.log = issuedKeys t.log ++ [⟨remote, t.nextMessageID.1⟩] ∧
      u.srv.pendingNotifies = t.srv.pendingNotifies.insert ⟨remote, t.nextMessageID.1⟩ pn := by
  cases he with
  | quiet hq => exact .inl hq.pending
  | delete key => cases key <;> exact .inl rfl
  | @notify remote v now draw token data hq =>
    refine .inr (.inr (.inr (.inr ⟨remote, ⟨data, token, 0, initialRetransmitTimeout draw,
      now + initialRetransmitTimeout draw⟩, ?_, ?_⟩)))
    · exact (issuedKeys_of_logExt hq.log).trans (issuedKeys_issue t remote)
    · show v.srv.pendingNotifies.insert _ _ = _
      rw [hq.pending]
      rfl
  | track now draw token data hk => exact .inr (.inr (.inr (.inl ⟨_, _, hk, rfl⟩)))
  | untrack hk => exact .inr (.inl ⟨_, hk, rfl⟩)
  | advance now hk hpn => exact .inr (.inr (.inl ⟨_, _, now, hk, hpn, rfl⟩))
  | _ => exact .inl rfl

/-! ### The table during a step -/

/-- The key of the notification a `NotifyObservers` call has in hand. -/
def Notifier.held (n : Notifier) : Option ExchangeKey :=
  match n.pc with
  | .next => none
  | .sending o => some o.key
  | .tracking o => some o.key

namespace System

def hands (s : System) : List ExchangeKey := s.notifiers.filterMap Notifier.held

/-- The key is that of a notification on its way into the table or in it. -/
def Live (s : System) (key : ExchangeKey) : Prop :=
  key ∈ s.hands ∨ key ∈ s.turn.srv.pendingNotifies

/-- What a step may do to the table: track a notification under a key that is free, drop
one for a reason, and count a retransmission. -/
inductive TableStep (cfg : Config) (s : System) (a : Action) :
    ExtTreeMap ExchangeKey PendingNotify → ExtTreeMap ExchangeKey PendingNotify → Prop
  | track {p : ExtTreeMap ExchangeKey PendingNotify} {key : ExchangeKey} (pn : PendingNotify) :
      key ∉ p → TableStep cfg s a p (p.insert key pn)
  | settle {p : ExtTreeMap ExchangeKey PendingNotify} {key : ExchangeKey} :
      s.Settles cfg key a → TableStep cfg s a p (p.erase key)
  | advance {p : ExtTreeMap ExchangeKey PendingNotify} {key : ExchangeKey} {pn : PendingNotify}
      (now : Int) : s.Takes key a → p[key]? = some pn →
      TableStep cfg s a p (p.insert key (pn.advance now))

/-- How many message IDs the step from `s` to `s'` draws. -/
def drawn (s s' : System) : Nat :=
  (issuedKeys s'.turn.log).length - (issuedKeys s.turn.log).length

/-- **The counter does not come round**: the step draws at most `2^16` message IDs, and
fewer than that were drawn since the issue of any notification that is live. -/
def FewDraws (cfg : Config) (s : System) (a : Action) : Prop :=
  ∀ s', s.step cfg a = some s' → s.drawn s' ≤ 65536 ∧
    ∀ key, s.Live key → drawsSince s.turn.log key + s.drawn s' < 65536

/-- The state inside a step after which `N` message IDs were drawn. -/
structure Guarded (cfg : Config) (s : System) (a : Action) (N : Nat) (u : Turn) : Prop where
  numbered : IdsInOrder u
  grown : (issuedKeys s.turn.log).length ≤ (issuedKeys u.log).length
  hands : ∀ key ∈ s.hands, Recent N u key ∧ key ∉ u.srv.pendingNotifies
  pending : ∀ key ∈ u.srv.pendingNotifies, Recent N u key
  chain : Relation.ReflTransGen (s.TableStep cfg a) s.turn.srv.pendingNotifies
    u.srv.pendingNotifies

variable {cfg : Config} {s s' : System} {a : Action} {N : Nat}

/-- The table is as it was, or has lost keys. -/
theorem Guarded.shrink (h : Guarded cfg s a N t) (he : Effect p t u)
    (hsub : ∀ key ∈ u.srv.pendingNotifies, key ∈ t.srv.pendingNotifies)
    (hchain : Relation.ReflTransGen (s.TableStep cfg a) t.srv.pendingNotifies
      u.srv.pendingNotifies) : Guarded cfg s a N u where
  numbered := h.numbered.effect he
  grown := h.grown.trans he.length_issuedKeys
  hands key hk := ⟨(h.hands key hk).1.effect he, fun hin => (h.hands key hk).2 (hsub key hin)⟩
  pending key hk := (h.pending key (hsub key hk)).effect he
  chain := h.chain.trans hchain

theorem Guarded.effect {P : Bytes → Prop} (h : Guarded cfg s a N t)
    (hstart : N ≤ (issuedKeys s.turn.log).length + 65536) (hnot : ∀ key, ¬ s.Tracks key a)
    (he : Effect (s.permit cfg P a) t u) (hN : (issuedKeys u.log).length ≤ N) :
    Guarded cfg s a N u := by
  rcases he.pending with hsame | ⟨key, hdrop, hp⟩ | ⟨key, pn, now, hadv, hpn, hp⟩ |
    ⟨key, pn, htrack, -⟩ | ⟨remote, pn, hmore, hp⟩
  · refine h.shrink he (fun key hk => by rwa [hsame] at hk) ?_
    rw [hsame]
  · refine h.shrink he (fun k hk => ?_) ?_
    · rw [hp] at hk
      exact ExtTreeMap.mem_of_mem_erase hk
    · rw [hp]
      exact .single (.settle hdrop)
  · refine h.shrink he (fun k hk => ?_) ?_
    · rw [hp, mem_insert_iff] at hk
      rcases hk with rfl | hk
      · exact mem_iff_getElem?.mpr ⟨_, hpn⟩
      · exact hk
    · rw [hp]
      exact .single (.advance now hadv hpn)
  · exact absurd htrack (hnot key)
  · -- a notification is issued and tracked: its key is none of the live ones
    have hlen : (issuedKeys u.log).length = (issuedKeys t.log).length + 1 := by
      rw [hmore, List.length_append, List.length_singleton]
    have hfresh : ∀ key, Recent N t key → key ≠ ⟨remote, t.nextMessageID.1⟩ :=
      fun key hr => h.numbered.fresh (by omega) hr remote
    have hfree : (⟨remote, t.nextMessageID.1⟩) ∉ t.srv.pendingNotifies :=
      fun hin => hfresh _ (h.pending _ hin) rfl
    have hnew : Recent N u ⟨remote, t.nextMessageID.1⟩ := by
      refine ⟨(issuedKeys t.log).length, ?_, hstart.trans (Nat.add_le_add_right h.grown _)⟩
      rw [hmore]
      exact getElem?_concat_eq_some.mpr (.inr ⟨rfl, rfl⟩)
    refine ⟨h.numbered.effect he, h.grown.trans he.length_issuedKeys, ?_, ?_, ?_⟩
    · intro key hk
      obtain ⟨hr, hout⟩ := h.hands key hk
      refine ⟨hr.effect he, ?_⟩
      rw [hp, mem_insert_iff]
      rintro (heq | hin)
      · exact hfresh key hr heq
      · exact hout hin
    · intro key hk
      rw [hp, mem_insert_iff] at hk
      rcases hk with rfl | hin
      · exact hnew
      · exact (h.pending key hin).effect he
    · rw [hp]
      exact h.chain.tail (.track pn hfree)

/-! ### Runs -/

structure Sound (s : System) : Prop where
  known : s.Known fun _ => True
  numbered : IdsInOrder s.turn
  issued : ∀ key, s.Live key → key ∈ issuedKeys s.turn.log
  nodup : s.hands.Nodup
  apart : ∀ key ∈ s.hands, key ∉ s.turn.srv.pendingNotifies

theorem sound_initial (manager : SessionManager) (quota : Option PeerQuota) :
    (initial manager quota).Sound where
  known := known_initial manager quota
  numbered := ⟨rfl, by intro i key h; simp [initial, issuedKeys] at h⟩
  issued := by
    rintro key (h | h)
    · simp [initial, hands] at h
    · simp [initial, Server.new] at h
  nodup := List.nodup_nil
  apart := by
    intro key h
    simp [initial, hands] at h

theorem from_any (a : Action) : a.From fun _ => True := by
  cases a with
  | input now i => cases i <;> trivial
  | _ => trivial

/-- Under `FewDraws` every live key is recent, up to the end of the step. -/
theorem Sound.recent (h : s.Sound) (hfew : s.FewDraws cfg a) (hs : s.step cfg a = some s')
    (hlive : s.Live key) : Recent (issuedKeys s'.turn.log).length s.turn key := by
  obtain ⟨hlt, hget⟩ := getElem?_last_issue (h.issued key hlive)
  refine ⟨_, hget, ?_⟩
  have hdraws := (hfew s' hs).2 key hlive
  unfold drawsSince drawn at hdraws
  omega

theorem Sound.guarded (h : s.Sound) (hfew : s.FewDraws cfg a) (hs : s.step cfg a = some s')
    (hnot : ∀ key, ¬ s.Tracks key a) : Guarded cfg s a (issuedKeys s'.turn.log).length s'.turn := by
  have hstart : (issuedKeys s'.turn.log).length ≤ (issuedKeys s.turn.log).length + 65536 := by
    have hdrawn := (hfew s' hs).1
    unfold drawn at hdrawn
    omega
  -- the bound on the draws is known at the end of the step only
  have hrun := (effects_step h.known (from_any a) hs).inv
    (I := fun u => (issuedKeys u.log).length ≤ (issuedKeys s'.turn.log).length →
      Guarded cfg s a (issuedKeys s'.turn.log).length u) ?_ ?_
  · exact hrun le_rfl
  · intro t u ht he hN
    exact (ht (he.length_issuedKeys.trans hN)).effect hstart hnot he hN
  · intro _
    refine ⟨h.numbered, le_rfl, ?_, ?_, .refl⟩
    · intro key hk
      exact ⟨h.recent hfew hs (.inl hk), h.apart key hk⟩
    · intro key hk
      exact h.recent hfew hs (.inr hk)

/-- After a step that tracks nothing, with the keys that are in hand afterwards. -/
theorem Sound.of_guarded (hk : s'.Known fun _ => True) (hg : Guarded cfg s a N s'.turn)
    (hnodup : s'.hands.Nodup)
    (hhands : ∀ key ∈ s'.hands, key ∈ s.hands ∨
      (key ∈ issuedKeys s'.turn.log ∧ key ∉ s'.turn.srv.pendingNotifies)) : s'.Sound where
  known := hk
  numbered := hg.numbered
  issued := by
    rintro key (hin | hin)
    · rcases hhands key hin with hold | hnew
      · exact (hg.hands key hold).1.mem
      · exact hnew.1
    · exact (hg.pending key hin).mem
  nodup := hnodup
  apart key hin := by
    rcases hhands key hin with hold | hnew
    · exact (hg.hands key hold).2
    · exact hnew.2

variable {n : Nat}

theorem hands_setNotifier {x : Notifier} (h : s.notifiers[n]? = some x) (t : Turn) (y : Notifier) :
    ∃ R, s.hands.Perm (x.held.toList ++ R) ∧
      (s.setNotifier t n y).hands.Perm (y.held.toList ++ R) := by
  obtain ⟨R, hR, hR'⟩ := exists_perm_filterMap_set Notifier.held h
  exact ⟨R, hR, hR' y⟩

variable {w : World}

theorem Sound.prepare (h : s.Sound) (hfew : s.FewDraws cfg (.prepare n w))
    (hs : s.step cfg (.prepare n w) = some s') : s'.Sound := by
  have hk := h.known.step (from_any _) hs
  have hg := h.guarded hfew hs (by rintro _ ⟨⟩)
  have hrecent : ∀ key, s.Live key → Recent (issuedKeys s'.turn.log).length s.turn key :=
    fun _ hlive => h.recent hfew hs hlive
  cases step_cases hs with
  | @prepare _ _ resource payload obs todo hn =>
    have hobs : obs.token.length ≤ 8 :=
      h.known.todo _ (List.mem_of_getElem? hn) obs List.mem_cons_self
    rcases Turn.notifyPrepare_short w s.turn resource payload hobs with he | ⟨target, data, he⟩
    · rw [he] at hk hg ⊢
      obtain ⟨R, hR, hR'⟩ := hands_setNotifier hn (s.turn.removeObserver resource obs)
        ⟨resource, payload, todo, .next⟩
      refine Sound.of_guarded hk hg (hR'.nodup_iff.mpr (hR.nodup_iff.mp h.nodup)) ?_
      intro key hin
      exact .inl (hR.mem_iff.mpr (hR'.mem_iff.mp hin))
    rw [he] at hk hg hrecent ⊢
    -- the new key is none of those in hand or in the table
    obtain ⟨R, hR, hR'⟩ := hands_setNotifier hn ((s.turn.nextSeq obs).2.issue obs.remote)
      ⟨resource, payload, todo, .sending ⟨resource, obs, target, s.turn.outgoingKey obs, data⟩⟩
    have hkeys : issuedKeys ((s.turn.nextSeq obs).2.issue obs.remote).log =
        issuedKeys s.turn.log ++ [⟨obs.remote, s.turn.nextMessageID.1⟩] :=
      issuedKeys_issue (s.turn.nextSeq obs).2 obs.remote
    have hfresh : ∀ key, s.Live key → key ≠ ⟨obs.remote, s.turn.nextMessageID.1⟩ := by
      intro key hlive
      refine h.numbered.fresh ?_ (hrecent key hlive) obs.remote
      show _ < (issuedKeys ((s.turn.nextSeq obs).2.issue obs.remote).log).length
      rw [hkeys, List.length_append]
      exact Nat.lt_succ_self _
    refine Sound.of_guarded hk hg ?_ ?_
    · refine hR'.nodup_iff.mpr (List.nodup_cons.mpr ⟨?_, hR.nodup_iff.mp h.nodup⟩)
      intro hin
      exact hfresh _ (.inl (hR.mem_iff.mpr hin)) rfl
    · intro key hin
      rcases List.mem_cons.mp (hR'.mem_iff.mp hin) with rfl | hin
      · refine .inr ⟨?_, fun hp => hfresh _ (.inr hp) rfl⟩
        show _ ∈ issuedKeys ((s.turn.nextSeq obs).2.issue obs.remote).log
        rw [hkeys]
        exact List.mem_append_right _ (List.mem_singleton_self _)
      · exact .inl (hR.mem_iff.mpr hin)

theorem Sound.send (h : s.Sound) (hfew : s.FewDraws cfg (.send n w))
    (hs : s.step cfg (.send n w) = some s') : s'.Sound := by
  have hk := h.known.step (from_any _) hs
  have hg := h.guarded hfew hs (by rintro _ ⟨⟩)
  cases step_cases hs with
  | @send _ _ resource payload todo o hn =>
    rcases he : s.turn.notifySend w o with ⟨_ | _, t⟩
    · rw [he] at hk hg
      obtain ⟨R, hR, hR'⟩ := hands_setNotifier hn t ⟨resource, payload, todo, .next⟩
      have hcons : (o.key :: R).Nodup := hR.nodup_iff.mp h.nodup
      refine Sound.of_guarded hk hg (hR'.nodup_iff.mpr (List.nodup_cons.mp hcons).2) ?_
      intro key hin
      exact .inl (hR.mem_iff.mpr (List.mem_cons_of_mem _ (hR'.mem_iff.mp hin)))
    rw [he] at hk hg
    obtain ⟨R, hR, hR'⟩ := hands_setNotifier hn t ⟨resource, payload, todo, .tracking o⟩
    refine Sound.of_guarded hk hg (hR'.nodup_iff.mpr (hR.nodup_iff.mp h.nodup)) ?_
    intro key hin
    exact .inl (hR.mem_iff.mpr (hR'.mem_iff.mp hin))

/-- The one step that tracks: its key was in hand, so it is not in the table. -/
theorem Sound.track {now : Int} (h : s.Sound) (hs : s.step cfg (.track n now w) = some s') :
    s'.Sound ∧ Relation.ReflTransGen (s.TableStep cfg (.track n now w))
      s.turn.srv.pendingNotifies s'.turn.srv.pendingNotifies := by
  have hk := h.known.step (from_any _) hs
  cases step_cases hs with
  | @track _ _ _ resource payload todo o hn =>
    obtain ⟨R, hR, hR'⟩ :=
      hands_setNotifier hn (s.turn.notifyTrack w now o) ⟨resource, payload, todo, .next⟩
    have hcons : (o.key :: R).Nodup := hR.nodup_iff.mp h.nodup
    have hheld : o.key ∈ s.hands := hR.mem_iff.mpr List.mem_cons_self
    have hback : ∀ key ∈ R, key ∈ s.hands :=
      fun key hin => hR.mem_iff.mpr (List.mem_cons_of_mem _ hin)
    refine ⟨⟨hk, ⟨h.numbered.last, h.numbered.ids⟩, ?_, ?_, ?_⟩, ?_⟩
    · rintro key (hin | hin)
      · exact h.issued key (.inl (hback key (hR'.mem_iff.mp hin)))
      · rcases mem_insert_iff.mp hin with rfl | hin
        · exact h.issued o.key (.inl hheld)
        · exact h.issued key (.inr hin)
    · exact hR'.nodup_iff.mpr (List.nodup_cons.mp hcons).2
    · intro key hin hp
      have hkey : key ∈ R := hR'.mem_iff.mp hin
      rcases mem_insert_iff.mp hp with rfl | hp
      · exact (List.nodup_cons.mp hcons).1 hkey
      · exact h.apart key (hback key hkey) hp
    · exact .single (.track _ (h.apart o.key hheld))

theorem Sound.step (h : s.Sound) (hfew : s.FewDraws cfg a) (hs : s.step cfg a = some s') :
    s'.Sound ∧ Relation.ReflTransGen (s.TableStep cfg a) s.turn.srv.pendingNotifies
      s'.turn.srv.pendingNotifies := by
  have hsame : (∀ key, ¬ s.Tracks key a) → s'.hands = s.hands → s'.Sound ∧
      Relation.ReflTransGen (s.TableStep cfg a) s.turn.srv.pendingNotifies
        s'.turn.srv.pendingNotifies := by
    intro hnot hhands
    have hg := h.guarded hfew hs hnot
    refine ⟨Sound.of_guarded (h.known.step (from_any a) hs) hg (hhands ▸ h.nodup) ?_, hg.chain⟩
    intro key hin
    exact .inl (hhands ▸ hin)
  cases step_cases hs with
  | prepare hn => exact ⟨h.prepare hfew hs, (h.guarded hfew hs (by rintro _ ⟨⟩)).chain⟩
  | send hn => exact ⟨h.send hfew hs, (h.guarded hfew hs (by rintro _ ⟨⟩)).chain⟩
  | track hn => exact h.track hs
  | start resource payload w =>
    refine hsame (by rintro _ ⟨⟩) ?_
    simp [hands, List.filterMap_append, Notifier.held]
  | _ => exact hsame (by rintro _ ⟨⟩) rfl

theorem sound_of_reaches (h : (system cfg).Reaches (FewDraws cfg) s) : s.Sound := by
  refine h.inv ?_ ?_
  · rintro _ ⟨manager, quota, rfl⟩
    exact sound_initial manager quota
  · intro s a s' hs hfew hstep
    exact (hs.step hfew hstep).1

/-- What is not settled stays, with its data and token. -/
theorem entry_of_chain {p q : ExtTreeMap ExchangeKey PendingNotify} {pn : PendingNotify}
    (h : Relation.ReflTransGen (s.TableStep cfg a) p q) (hnot : ¬ s.Settles cfg key a)
    (hpn : p[key]? = some pn) :
    ∃ pn' : PendingNotify, q[key]? = some pn' ∧ pn'.data = pn.data ∧ pn'.token = pn.token := by
  induction h with
  | refl => exact ⟨pn, hpn, rfl, rfl⟩
  | tail _ hstep ih =>
    obtain ⟨pn', hpn', hdata, htoken⟩ := ih
    cases hstep with
    | @track key' new hfree =>
      refine ⟨pn', ?_, hdata, htoken⟩
      rw [getElem?_insert_of_ne ?_]
      · exact hpn'
      · rintro rfl
        exact hfree (mem_iff_getElem?.mpr ⟨pn', hpn'⟩)
    | @settle key' hsettles =>
      refine ⟨pn', ?_, hdata, htoken⟩
      rw [getElem?_erase_of_ne ?_]
      · exact hpn'
      · rintro rfl
        exact hnot hsettles
    | @advance key' old now htakes hold =>
      by_cases heq : key' = key
      · subst heq
        rw [hpn'] at hold
        cases hold
        exact ⟨_, ExtTreeMap.getElem?_insert_self, hdata, htoken⟩
      rw [getElem?_insert_of_ne heq]
      exact ⟨pn', hpn', hdata, htoken⟩

end System

/-- **A pending notification is never displaced**, as long as the counter of message IDs
does not come round: each step tracks notifications only under free keys, and one that is
pending stays in the table, with its data and token, unless an ACK or RST of its message ID
arrives from its remote, it is given up after four retransmissions, or its retransmission
fails or finds no session. -/
theorem pending_never_displaced (cfg : Config) {s s' : System} {a : Action}
    (h : (system cfg).Reaches (System.FewDraws cfg) s) (hfew : s.FewDraws cfg a)
    (hstep : (system cfg).step s a = some s') :
    Relation.ReflTransGen (s.TableStep cfg a) s.turn.srv.pendingNotifies
        s'.turn.srv.pendingNotifies ∧
      ∀ key pn, s.turn.srv.pendingNotifies[key]? = some pn → ¬ s.Settles cfg key a →
        ∃ pn' : PendingNotify, s'.turn.srv.pendingNotifies[key]? = some pn' ∧ pn'.data = pn.data ∧
          pn'.token = pn.token := by
  have hchain := ((System.sound_of_reaches h).step hfew hstep).2
  refine ⟨hchain, ?_⟩
  intro key pn hpn hnot
  exact System.entry_of_chain hchain hnot hpn

/-- Fewer than `2^16` message IDs were ever drawn. -/
def System.FewInAll (cfg : Config) (s : System) (a : Action) : Prop :=
  (issuedKeys s.turn.log).length < 65536 ∧
    ((s.step cfg a).all fun s' => decide ((issuedKeys s'.turn.log).length < 65536)) = true

instance (cfg : Config) (s : System) (a : Action) : Decidable (s.FewInAll cfg a) :=
  inferInstanceAs (Decidable (_ ∧ _))

theorem System.FewInAll.fewDraws {cfg : Config} {a : Action} (h : s.FewInAll cfg a) :
    s.FewDraws cfg a := by
  intro s' hs
  have hend : (issuedKeys s'.turn.log).length < 65536 := by
    have hall := h.2
    rw [hs] at hall
    simpa using hall
  have hbefore := h.1
  unfold System.drawn
  refine ⟨by omega, ?_⟩
  intro key _
  have hsince : drawsSince s.turn.log key ≤ (issuedKeys s.turn.log).length := by
    rw [← List.length_reverse]
    exact List.idxOf_le_length
  omega

/-- `NotifyObservers` for the empty resource, with an empty value. -/
def notifyEmpty : Action := .input 0 (.notifyObservers [] [] steadyWorld)

def trackedRun : List Action := notifyUntilSent ++ [.track 0 0 steadyWorld]

def pendingOne : PendingNotify :=
  ⟨[64, 69, 0, 1, 97, 1, 255, 9], [], 0, 2 * second, 2 * second⟩

theorem pending_never_displaced_notifyEmpty :
    ∃ s s', (system responderConfig).Reaches (System.FewDraws responderConfig) s ∧
      (system responderConfig).step s notifyEmpty = some s' ∧
      s.turn.srv.pendingNotifies[keyOne]? = some pendingOne ∧
      ∃ pn', s'.turn.srv.pendingNotifies[keyOne]? = some pn' ∧ pn'.data = pendingOne.data := by
  have hrun : ((system responderConfig).runIf (System.FewInAll responderConfig)
      (System.initial (.new 0) none) trackedRun).map (fun s =>
        (s.turn.srv.pendingNotifies[keyOne]?, decide (s.FewInAll responderConfig notifyEmpty))) =
      some (some pendingOne, true) := by decide +kernel
  obtain ⟨s, hs, hend⟩ := Option.map_eq_some_iff.mp hrun
  obtain ⟨hpn, hfew⟩ := Prod.mk.inj hend
  have h0 : (system responderConfig).init (System.initial (.new 0) none) := ⟨_, _, rfl⟩
  have hr : (system responderConfig).Reaches (System.FewDraws responderConfig) s :=
    ⟨_, _, h0, (Machine.path_of_runIf hs).mono fun _ _ h => h.fewDraws⟩
  have hstep : (system responderConfig).step s notifyEmpty = some
      { s with turn := s.turn.serve responderConfig 0 (.notifyObservers [] [] steadyWorld) } := rfl
  have hnot : ¬ s.Settles responderConfig keyOne notifyEmpty := by
    rintro ⟨hreceived⟩
    cases hreceived
  obtain ⟨pn', hpn', hdata, -⟩ := (pending_never_displaced responderConfig hr
    (of_decide_eq_true hfew).fewDraws hstep).2 keyOne pendingOne hpn hnot
  exact ⟨s, _, hr, hstep, hpn, pn', hpn', hdata⟩

/-! ### The counter comes round -/

/-- The server between two of many notifications: one observer, whose session is open, and
`pendingOne` still in the table after `n` draws. -/
structure Waits (n : Nat) (t : Turn) : Prop where
  peer : t.srv.peers[([0x61] : Bytes)]? = some ⟨1, [0x61], none, false⟩
  active : t.srv.state 1 = .active
  observers : t.srv.observers.notify .id [] = [⟨0, [], [0x61], []⟩]
  last : t.srv.lastMsgID = UInt32.ofNat n
  pending : t.srv.pendingNotifies[keyOne]? = some pendingOne

/-- One more notification draws one more ID and is tracked under it. -/
theorem Waits.notify {t : Turn} (h : Waits n t) :
    ∃ u seq data, t.notifyObservers steadyWorld 0 [] [] = u ∧
      (Turn.notification (UInt16.ofNat (n + 1)) [] seq []).marshal = .ok data ∧
      u.srv.peers = t.srv.peers ∧ u.srv.state = t.srv.state ∧
      u.srv.observers.notify .id [] = t.srv.observers.notify .id [] ∧
      u.srv.lastMsgID = UInt32.ofNat (n + 1) ∧
      u.srv.pendingNotifies = t.srv.pendingNotifies.insert ⟨[0x61], UInt16.ofNat (n + 1)⟩
        ⟨data, [], 0, 2 * second, 2 * second⟩ := by
  have hlast : t.srv.lastMsgID + 1 = UInt32.ofNat (n + 1) := by
    rw [h.last, UInt32.ofNat_add]
    rfl
  have hid : ((t.nextSeq ⟨0, [], [0x61], []⟩).2.nextMessageID).1 = UInt16.ofNat (n + 1) := by
    show (t.srv.lastMsgID + 1).toUInt16 = _
    rw [hlast, UInt32.toUInt16_ofNat']
  have hfind : t.findSessionByRemote steadyWorld [0x61] = some ⟨1, [0x61], none, false⟩ := by
    unfold Turn.findSessionByRemote
    rw [h.peer]
  obtain ⟨data, hdata⟩ := exists_marshal
    (m := Turn.notification (UInt16.ofNat (n + 1)) [] (t.nextSeq ⟨0, [], [0x61], []⟩).1 [])
    UInt8.zero_le (Nat.zero_le _) (shortValues_observe _)
  refine ⟨_, _, data, rfl, hdata, ?_⟩
  have hnotify : t.notifyObservers steadyWorld 0 [] [] =
      Turn.notifyOne steadyWorld 0 [] [] t ⟨0, [], [0x61], []⟩ := by
    unfold Turn.notifyObservers
    rw [show steadyWorld.observerWalk = .id from rfl, h.observers]
    rfl
  rw [hnotify]
  unfold Turn.notifyOne Turn.notifyPrepare
  rw [hfind]
  dsimp only
  rw [hid, hdata]
  unfold Turn.notifySend Turn.send
  dsimp only
  have hactive : (((t.nextSeq ⟨0, [], [0x61], []⟩).2.nextMessageID).2.emit
      (.issued ⟨[0x61], UInt16.ofNat (n + 1)⟩)).srv.state 1 = .active := h.active
  rw [hactive]
  exact ⟨rfl, rfl, rfl, hlast, rfl⟩

/-- Until the counter comes round, the entry is not touched. -/
theorem Waits.next (h : Waits n s.turn) (hfirst : 1 ≤ n) (hn : n < 65536) :
    ∃ s', (system responderConfig).step s notifyEmpty = some s' ∧ Waits (n + 1) s'.turn := by
  obtain ⟨u, seq, data, rfl, -, hpeers, hstate, hobs, hlast, hpending⟩ := h.notify
  refine ⟨{ s with turn := s.turn.notifyObservers steadyWorld 0 [] [] }, rfl, ?_⟩
  refine ⟨by rw [hpeers]; exact h.peer, by rw [hstate]; exact h.active,
    by rw [hobs]; exact h.observers, hlast, ?_⟩
  rw [hpending, getElem?_insert_of_ne ?_]
  · exact h.pending
  · intro heq
    have hid : UInt16.ofNat (n + 1) = 1 := congrArg ExchangeKey.msgID heq
    exact ofNat_ne (i := 1) (by omega) (by omega) hid.symm

theorem Waits.run : ∀ (k n : Nat), Waits n s.turn → 1 ≤ n → n + k ≤ 65536 →
    ∃ s', (system responderConfig).run s (List.replicate k notifyEmpty) = some s' ∧
      Waits (n + k) s'.turn := by
  intro k
  induction k generalizing s with
  | zero =>
    intro n h _ _
    exact ⟨s, rfl, h⟩
  | succ k ih =>
    intro n h hfirst hn
    obtain ⟨s1, hstep, h1⟩ := h.next hfirst (by omega)
    obtain ⟨s', hrun, h'⟩ := ih (n + 1) h1 (by omega) (by omega)
    refine ⟨s', ?_, ?_⟩
    · rw [List.replicate_succ, Machine.run_cons, hstep]
      exact hrun
    · rw [Nat.add_comm k 1, ← Nat.add_assoc]
      exact h'

/-- **A pending notification is displaced**: after `2^16` draws the next notification to
the same remote is tracked under the same message ID, and the entry of the first is gone. -/
theorem displaced_after_wrap :
    ∃ s s' pn', (system responderConfig).Reachable s ∧
      (system responderConfig).step s notifyEmpty = some s' ∧
      s.turn.srv.pendingNotifies[keyOne]? = some pendingOne ∧
      s'.turn.srv.pendingNotifies[keyOne]? = some pn' ∧ pn'.data ≠ pendingOne.data := by
  have hrun : ((system responderConfig).run (System.initial (.new 0) none) trackedRun).map
      (fun s => (s.turn.srv.peers[([0x61] : Bytes)]?, s.turn.srv.state 1,
        s.turn.srv.observers.notify .id [], s.turn.srv.lastMsgID,
        s.turn.srv.pendingNotifies[keyOne]?)) =
      some (some ⟨1, [0x61], none, false⟩, .active, [⟨0, [], [0x61], []⟩], UInt32.ofNat 1,
        some pendingOne) := by decide +kernel
  obtain ⟨s1, hr, hend⟩ := Machine.exists_reachable hrun ⟨_, _, rfl⟩
  simp only [Prod.mk.injEq] at hend
  obtain ⟨hpeer, hactive, hobs, hlast, hpending⟩ := hend
  have hwaits : Waits 1 s1.turn := ⟨hpeer, hactive, hobs, hlast, hpending⟩
  obtain ⟨s, hs, h⟩ := hwaits.run 65535 1 le_rfl (by decide)
  have hreach : (system responderConfig).Reachable s :=
    hr.path (Machine.path_true_iff_run.mpr hs)
  -- the next message ID is 1 again
  obtain ⟨u, seq, data, rfl, hdata, -, -, -, -, hafter⟩ := h.notify
  refine ⟨s, { s with turn := s.turn.notifyObservers steadyWorld 0 [] [] },
    ⟨data, [], 0, 2 * second, 2 * second⟩, hreach, rfl, h.pending, ?_, ?_⟩
  · rw [hafter]
    exact ExtTreeMap.getElem?_insert_self
  · intro heq
    have hparse : parse data = .ok _ := parse_of_marshal (shortValues_observe seq) hdata
    have hpayload : (parse pendingOne.data).map Message.payload = .ok [9] := by decide +kernel
    rw [← heq, hparse] at hpayload
    cases hpayload

end SharkSocket.Coap
