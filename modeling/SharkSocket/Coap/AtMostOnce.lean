import SharkSocket.Coap.Dedup

/-!
# At most once

What the dedup table does for whole runs of the server.  One input is described
by `served`: it clears the table, or it hands no confirmable request to
`handleCoAPMessage`, or that request is a duplicate, or it is new.  From that,

* `runs_iff_requestsWhole`: a request is run exactly when its key is not in the
  table and it carries no Block1 option;
* `entry_stateAfter`, `handlerRuns_runLog`: as long as the table is not cleared
  an entry stays as it is, and the application runs once for it at most;
* `duplicates_between_clears`: what a peer that repeats its requests sees.
-/

namespace SharkSocket.Coap

open Lib (mem_iff_getElem?)
open Std (ExtTreeMap)

def Input.isClear : Input → Bool
  | .clearSeen => true
  | _ => false

/-! ### One input -/

section

variable (cfg : Config)

theorem frame_deliver (now : Int) (t : Turn) (i : Input) {c : Call}
    (h : (deliver cfg now t i).1 = some c) : Frame Event.lifecycle t (deliver cfg now t i).2 := by
  cases i with
  | datagram remote ip data w =>
    have hg : Frame Event.lifecycle t (t.getOrCreateUDPSession w now remote ip).2 :=
      (Turn.upkeep_getOrCreateUDPSession trivial).frame
    simp only [deliver] at h ⊢
    split at h
    · cases h
    rename_i u he
    rw [he] at hg
    exact hg.trans Turn.calm_touch.toFrame
  | dtlsRead id data w =>
    simp only [deliver] at h ⊢
    split at h
    · cases h
    split at h
    · cases h
    · exact Turn.calm_touch.toFrame
  | dtlsEnd id =>
    simp only [deliver] at h
    split at h <;> cases h
  | _ => cases h

theorem grows_deliver (now : Int) (t : Turn) (i : Input) (h : i.isClear = false) :
    Grows none t (deliver cfg now t i).2 := by
  refine (Turn.carries_grows t).deliver (.refl t) cfg now i ?_ ?_
  · intro w walk _
    exact Turn.grows_retransmitDue w now t walk
  · rintro rfl
    cases h

namespace Record

variable (r : Record)

/-- The input hands a confirmable request with key `k` to `handleCoAPMessage`. -/
def Requests (k : ExchangeKey) : Prop :=
  ∃ msg, r.message cfg = some (k, msg) ∧ ConRequest msg

/-- The same, for a request that does not carry Block1. -/
def RequestsWhole (k : ExchangeKey) : Prop :=
  ∃ msg, r.message cfg = some (k, msg) ∧ ConRequest msg ∧ hasBlock1 msg.options = false

/-- The plugin chain or the application ran for a confirmable request with
key `k`. -/
def Runs (k : ExchangeKey) : Prop :=
  .plugins typeCON k ∈ r.log cfg ∨ ∃ payload, .handler typeCON k payload ∈ r.log cfg

/-- The four things an input can do, as far as the dedup table goes. -/
inductive Served (r : Record) : Prop
  | clear (hi : r.input.isClear = true) (hs : (r.after cfg).seen = ∅) (hl : r.log cfg = [])
      (hm : r.message cfg = none)
  | other (hi : r.input.isClear = false) (hg : Grows none r.start (r.turn cfg))
      (hm : ∀ k, ¬ r.Requests cfg k)
  | duplicate (hi : r.input.isClear = false) (msg : Message) (t : Turn) (sess : Session) (w : World)
      (entry : SeenEntry) (hc : ConRequest msg)
      (hm : r.message cfg = some (⟨sess.remote, msg.messageID⟩, msg))
      (ht : Frame Event.lifecycle r.start t)
      (he : r.before.seen[(⟨sess.remote, msg.messageID⟩ : ExchangeKey)]? = some entry)
      (hu : r.turn cfg = t.replyToDuplicate w sess msg entry)
  | fresh (hi : r.input.isClear = false) (msg : Message) (t : Turn) (sess : Session) (w : World)
      (hc : ConRequest msg) (hm : r.message cfg = some (⟨sess.remote, msg.messageID⟩, msg))
      (ht : Frame Event.lifecycle r.start t)
      (he : (⟨sess.remote, msg.messageID⟩ : ExchangeKey) ∉ r.before.seen)
      (hu : r.turn cfg = (t.storeSeen ⟨sess.remote, msg.messageID⟩).handleRequest cfg w r.time sess
        msg (some ⟨sess.remote, msg.messageID⟩))

theorem served : r.Served cfg := by
  cases hi : r.input.isClear with
  | true =>
    obtain ⟨s, now, i⟩ := r
    cases i with
    | clearSeen => exact .clear hi rfl rfl rfl
    | _ => cases hi
  | false =>
    have hg := grows_deliver cfg r.time r.start r.input hi
    have hf := fun c => frame_deliver cfg r.time r.start r.input (c := c)
    rcases hd : deliver cfg r.time r.start r.input with ⟨_ | c, t⟩
    · have hu : r.turn cfg = t := by rw [turn, Turn.serve, hd]
      rw [hd] at hg
      refine .other hi (by rw [hu]; exact hg) ?_
      rintro k ⟨msg, hm, -⟩
      rw [message, Turn.received, hd] at hm
      cases hm
    have hu : r.turn cfg = t.handleCoAPMessage cfg c.w r.time c.sess c.data := by
      rw [turn, Turn.serve, hd]
    rw [hd] at hg hf
    have ht : Frame Event.lifecycle r.start t := hf c rfl
    rw [Turn.handleCoAPMessage] at hu
    cases hp : parse c.data with
    | error e =>
      have hmsg : r.message cfg = none := by simp only [message, Turn.received, hd, hp]
      rw [hp] at hu
      refine .other hi (by rw [hu]; exact hg) ?_
      rintro k ⟨msg, hm, -⟩
      rw [hmsg] at hm
      cases hm
    | ok msg =>
      have hmsg : r.message cfg = some (⟨c.sess.remote, msg.messageID⟩, msg) := by
        simp only [message, Turn.received, hd, hp]
      rw [hp] at hu
      dsimp only at hu
      by_cases hc : ConRequest msg
      · rw [Turn.handleMessage_request c.w r.time t c.sess cfg hc] at hu
        have hseen : t.srv.seen = r.before.seen := ht.seen
        rw [hseen] at hu
        cases hs : r.before.seen[(⟨c.sess.remote, msg.messageID⟩ : ExchangeKey)]? with
        | some entry =>
          rw [hs] at hu
          exact .duplicate hi msg t c.sess c.w entry hc hmsg ht hs hu
        | none =>
          rw [hs] at hu
          refine .fresh hi msg t c.sess c.w hc hmsg ht ?_ hu
          rw [ExtTreeMap.mem_iff_isSome_getElem?, hs]
          exact Bool.false_ne_true
      · refine .other hi ?_ ?_
        · rw [hu]
          exact hg.trans (Turn.grows_handleMessage_other c.w r.time t c.sess msg cfg hc)
        · rintro k ⟨msg', hm, hc'⟩
          rw [hmsg] at hm
          cases hm
          exact hc hc'

/-! ### What follows for one input -/

variable {cfg}

variable {r : Record} {k : ExchangeKey}

theorem requests_iff {key : ExchangeKey} {msg : Message} (hm : r.message cfg = some (key, msg))
    (hc : ConRequest msg) (k : ExchangeKey) : r.Requests cfg k ↔ k = key := by
  constructor
  · rintro ⟨msg', hm', -⟩
    rw [hm] at hm'
    cases hm'
    rfl
  · rintro rfl
    exact ⟨msg, hm, hc⟩

variable (cfg)

theorem mem_after (r : Record) (hi : r.input.isClear = false) (k : ExchangeKey) :
    k ∈ (r.after cfg).seen ↔ k ∈ r.before.seen ∨ r.Requests cfg k := by
  cases r.served cfg with
  | clear hi' => rw [hi'] at hi; cases hi
  | other _ hg hm => rw [after, hg.mem_iff k]; exact (or_iff_left (hm k)).symm
  | duplicate _ msg t sess w entry hc hm ht he hu =>
    rw [after, hu, Turn.calm_replyToDuplicate.seen, ht.seen,
      requests_iff hm hc]
    refine (or_iff_left_of_imp ?_).symm
    rintro rfl
    exact mem_iff_getElem?.mpr ⟨_, he⟩
  | fresh _ msg t sess w hc hm ht he hu =>
    rw [after, hu, requests_iff hm hc]
    by_cases hk : k = ⟨sess.remote, msg.messageID⟩
    · simp only [hk, or_true, iff_true]
      exact Turn.handleRequest_kept _ _ _ _ _ _ _ _ (ExtTreeMap.mem_insert_self)
    rw [ExtTreeMap.mem_iff_isSome_getElem?, Turn.handleRequest_seen _ _ _ _ _ _ _ _
      (fun h => hk (Option.some.inj h).symm), Turn.seen_storeSeen t (Ne.symm hk), ht.seen,
      ← ExtTreeMap.mem_iff_isSome_getElem?]
    exact (or_iff_left hk).symm

/-- An entry, once made, stays as it is. -/
theorem entry_after (r : Record) (hi : r.input.isClear = false) (hk : k ∈ r.before.seen) :
    (r.after cfg).seen[k]? = r.before.seen[k]? := by
  cases r.served cfg with
  | clear hi' => rw [hi'] at hi; cases hi
  | other _ hg _ => exact hg.seen k (by simp)
  | duplicate _ msg t sess w entry hc hm ht he hu =>
    rw [after, hu, Turn.calm_replyToDuplicate.seen, ht.seen]
    rfl
  | fresh _ msg t sess w hc hm ht he hu =>
    have hne : (⟨sess.remote, msg.messageID⟩) ≠ k := fun h => he (h ▸ hk)
    rw [after, hu, Turn.handleRequest_seen _ _ _ _ _ _ _ _ (fun h => hne (Option.some.inj h)),
      Turn.seen_storeSeen t hne, ht.seen]
    rfl

theorem seen_after_of_not_requests (r : Record) (hi : r.input.isClear = false)
    (h : ∀ k, ¬ r.Requests cfg k) : (r.after cfg).seen = r.before.seen := by
  cases r.served cfg with
  | clear hi' => rw [hi'] at hi; cases hi
  | other _ hg _ =>
    refine ExtTreeMap.ext_getElem? ?_
    intro k
    exact hg.seen k (by simp)
  | duplicate _ msg t sess w entry hc hm | fresh _ msg t sess w hc hm =>
      exact absurd ⟨msg, hm, hc⟩ (h _)

theorem replies_of_mem (r : Record) (hr : r.Requests cfg k) {entry : SeenEntry}
    (hk : r.before.seen[k]? = some entry) {remote data : Bytes} {ok : Bool}
    (he : .sent remote data ok ∈ r.log cfg) : remote = k.remote ∧ Repeats entry k.msgID data := by
  cases r.served cfg with
  | clear _ _ _ hm =>
    obtain ⟨msg, hm', -⟩ := hr
    rw [hm] at hm'
    cases hm'
  | other _ _ hm => exact absurd hr (hm k)
  | duplicate _ msg t sess w entry' hc hm ht he' hu =>
    rw [requests_iff hm hc] at hr
    subst hr
    rw [hk] at he'
    cases he'
    obtain ⟨l, hl, hp⟩ := Turn.replies_replyToDuplicate w t sess msg entry
    obtain ⟨m, hm', hlife⟩ := ht.log
    rw [log, hu, hl, hm', start, List.mem_append] at he
    rcases he with he | he
    · exact (hlife _ he).elim
    obtain ⟨d, b, heq, hrep⟩ := hp _ he
    cases heq
    exact ⟨rfl, hrep⟩
  | fresh _ msg t sess w hc hm ht he' hu =>
    rw [requests_iff hm hc] at hr
    subst hr
    exact absurd (mem_iff_getElem?.mpr ⟨_, hk⟩) he'

variable {cfg}

theorem not_mem_of_frame {t : Turn} (ht : Frame Event.lifecycle r.start t) {e : Event}
    (hc : e.conRun) : e ∉ t.log := by
  rw [(ht.plain.grows none).mem_log_iff hc]
  exact List.not_mem_nil

theorem not_runs (h : ∀ e : Event, e.conRun → e ∉ r.log cfg) (k : ExchangeKey) :
    ¬ r.Runs cfg k := by
  rintro (he | ⟨payload, he⟩)
  · exact h (.plugins typeCON k) rfl he
  · exact h (.handler typeCON k payload) rfl he

variable (cfg)

/-- **A confirmable request is run exactly when its key is not in the table and
it carries no Block1 option.** -/
theorem runs_iff_requestsWhole (r : Record) (k : ExchangeKey) :
    r.Runs cfg k ↔ r.RequestsWhole cfg k ∧ k ∉ r.before.seen := by
  cases r.served cfg with
  | clear _ _ hl hm =>
    refine iff_of_false (not_runs (by simp [hl]) k) ?_
    rintro ⟨⟨msg, hm', -⟩, -⟩
    rw [hm] at hm'
    cases hm'
  | other _ hg hm =>
    refine iff_of_false (not_runs (fun e hc => ?_) k) ?_
    · rw [log, hg.mem_log_iff hc]
      exact List.not_mem_nil
    · rintro ⟨⟨msg, hm', hc, -⟩, -⟩
      exact hm k ⟨msg, hm', hc⟩
  | duplicate _ msg t sess w entry hc hm ht he hu =>
    refine iff_of_false (not_runs (fun e hce => ?_) k) ?_
    · rw [log, hu, (Turn.calm_replyToDuplicate.toFrame.grows none).mem_log_iff hce]
      exact not_mem_of_frame ht hce
    · rintro ⟨⟨msg', hm', -⟩, hn⟩
      rw [hm] at hm'
      cases hm'
      exact hn (mem_iff_getElem?.mpr ⟨_, he⟩)
  | fresh _ msg t sess w hc hm ht he hu =>
    have hstart : ∀ e : Event, e.conRun → e ∉ (t.storeSeen ⟨sess.remote, msg.messageID⟩).log :=
      fun e hce => not_mem_of_frame ht hce
    cases hb : hasBlock1 msg.options with
    | true =>
      rw [Turn.handleRequest, if_pos hb] at hu
      refine iff_of_false (not_runs (fun e hce => ?_) k) ?_
      · rw [log, hu, (Turn.reply_replyBlock1Unsupported _ _ _ _ _).grows.mem_log_iff hce]
        exact hstart e hce
      · rintro ⟨⟨msg', hm', -, hb'⟩, -⟩
        rw [hm] at hm'
        cases hm'
        rw [hb] at hb'
        cases hb'
    | false =>
      have hran := Turn.handleRequest_spec w r.time (t.storeSeen ⟨sess.remote, msg.messageID⟩) sess
        msg (some ⟨sess.remote, msg.messageID⟩) cfg hb
      rw [← hu, hc.1] at hran
      constructor
      · intro hrun
        have hk : k = ⟨sess.remote, msg.messageID⟩ := by
          rcases hrun with h | ⟨payload, h⟩
          · rcases hran.key_of_mem (by exact rfl) h with h | h | ⟨p, h⟩
            · exact absurd h (hstart _ rfl)
            · cases h; rfl
            · cases h
          rcases hran.key_of_mem (by exact rfl) h with h | h | ⟨p, h⟩
          · exact absurd h (hstart _ rfl)
          · cases h
          · cases h; rfl
        subst hk
        exact ⟨⟨msg, hm, hc, hb⟩, he⟩
      · rintro ⟨⟨msg', hm', -⟩, -⟩
        rw [hm] at hm'
        cases hm'
        exact Or.inl hran.plugins_mem

theorem RequestsWhole.requests (h : r.RequestsWhole cfg k) : r.Requests cfg k := by
  obtain ⟨msg, hm, hc, -⟩ := h
  exact ⟨msg, hm, hc⟩

theorem Runs.requests (h : r.Runs cfg k) : r.Requests cfg k :=
  ((r.runs_iff_requestsWhole cfg k).mp h).1.requests cfg

/-- The application runs at most once for a request, and not at all for one
whose key is in the table. -/
theorem handlerRuns_le (r : Record) (k : ExchangeKey) : handlerRuns k (r.log cfg) ≤ 1 ∧
      (handlerRuns k (r.log cfg) ≠ 0 → r.Requests cfg k ∧ k ∉ r.before.seen) := by
  have hzero : handlerRuns k r.start.log = 0 := rfl
  cases r.served cfg with
  | clear _ _ hl _ => simp [hl, handlerRuns]
  | other _ hg _ => simp [log, hg.handlerRuns_eq k, hzero]
  | duplicate _ msg t sess w entry hc hm ht he hu =>
    have hg : Grows none t (t.replyToDuplicate w sess msg entry) :=
      Turn.calm_replyToDuplicate.toFrame.grows none
    simp [log, hu, hg.handlerRuns_eq k, (ht.plain.grows none).handlerRuns_eq k, hzero]
  | fresh _ msg t sess w hc hm ht he hu =>
    have h0 : handlerRuns k (t.storeSeen ⟨sess.remote, msg.messageID⟩).log = 0 :=
      (ht.plain.grows none).handlerRuns_eq k
    cases hb : hasBlock1 msg.options with
    | true =>
      rw [Turn.handleRequest, if_pos hb] at hu
      simp [log, hu, (Turn.reply_replyBlock1Unsupported _ _ _ _ _).grows.handlerRuns_eq k, h0]
    | false =>
      have hran := Turn.handleRequest_spec w r.time (t.storeSeen ⟨sess.remote, msg.messageID⟩) sess
        msg (some ⟨sess.remote, msg.messageID⟩) cfg hb
      rw [← hu] at hran
      have hle := hran.handlerRuns_le k
      rw [h0] at hle
      rw [log]
      by_cases hk : (⟨sess.remote, msg.messageID⟩) = k
      · subst hk
        rw [if_pos rfl] at hle
        exact ⟨hle, fun _ => ⟨⟨msg, hm, hc⟩, he⟩⟩
      rw [if_neg hk] at hle
      exact ⟨by omega, fun h => absurd (Nat.le_zero.mp hle) h⟩

end Record

/-! ### Runs -/

variable {cfg}

/-- The events of a whole run. -/
def runLog (cfg : Config) : Server → List TimedInput → List Event
  | _, [] => []
  | s, i :: ins =>
    let r : Record := ⟨s, i.1, i.2⟩
    r.log cfg ++ runLog cfg (r.after cfg) ins

/-- Until the table is cleared, an entry stays as it is. -/
theorem entry_stateAfter : ∀ (ins : List TimedInput) (s : Server) (k : ExchangeKey),
    (∀ i ∈ ins, i.2.isClear = false) → k ∈ s.seen →
      (stateAfter cfg s ins).seen[k]? = s.seen[k]? := by
  intro ins
  induction ins with
  | nil => intro s k _ _; rfl
  | cons i ins ih =>
    intro s k hc hk
    have hi : (⟨s, i.1, i.2⟩ : Record).input.isClear = false := hc i List.mem_cons_self
    have ha := Record.entry_after cfg ⟨s, i.1, i.2⟩ hi hk
    have hm : k ∈ ((⟨s, i.1, i.2⟩ : Record).after cfg).seen :=
      (Record.mem_after cfg ⟨s, i.1, i.2⟩ hi k).mpr (Or.inl hk)
    exact (ih _ k (fun j hj => hc j (List.mem_cons_of_mem i hj)) hm).trans ha

theorem handlerRuns_runLog : ∀ (ins : List TimedInput) (s : Server) (k : ExchangeKey),
    (∀ i ∈ ins, i.2.isClear = false) →
      handlerRuns k (runLog cfg s ins) ≤ 1 ∧ (k ∈ s.seen → handlerRuns k (runLog cfg s ins) = 0) := by
  intro ins
  induction ins with
  | nil => intro s k _; exact ⟨Nat.zero_le 1, fun _ => rfl⟩
  | cons i ins ih =>
    intro s k hc
    have hi : (⟨s, i.1, i.2⟩ : Record).input.isClear = false := hc i List.mem_cons_self
    obtain ⟨h1, h2⟩ := Record.handlerRuns_le cfg ⟨s, i.1, i.2⟩ k
    obtain ⟨g1, g2⟩ := ih ((⟨s, i.1, i.2⟩ : Record).after cfg) k
      (fun j hj => hc j (List.mem_cons_of_mem i hj))
    rw [Record.mem_after cfg ⟨s, i.1, i.2⟩ hi k] at g2
    have hsum : handlerRuns k (runLog cfg s (i :: ins)) =
        handlerRuns k ((⟨s, i.1, i.2⟩ : Record).log cfg) +
          handlerRuns k (runLog cfg ((⟨s, i.1, i.2⟩ : Record).after cfg) ins) :=
      List.countP_append
    rw [hsum]
    by_cases h0 : handlerRuns k ((⟨s, i.1, i.2⟩ : Record).log cfg) = 0
    · exact ⟨by omega, fun hk => by rw [h0, g2 (Or.inl hk)]⟩
    obtain ⟨hr, hn⟩ := h2 h0
    exact ⟨by rw [g2 (Or.inr hr)]; omega, fun hk => absurd hk hn⟩

variable (cfg)

/-- **Duplicates between two clears of the table.**  The application runs for at
most one confirmable request of each key; an input that brings no confirmable
request leaves the table as it is; and every reply to a later request with the
key of an earlier one repeats what the earlier one left in the table, or is an
empty ACK if it left no response. -/
theorem duplicates_between_clears (s : Server) (ins : List TimedInput)
    (hc : ∀ i ∈ ins, i.2.isClear = false) :
    (∀ k, handlerRuns k (runLog cfg s ins) ≤ 1) ∧
    (∀ pre i post, ins = pre ++ i :: post → (∀ k, ¬ (recordAt cfg s pre i).Requests cfg k) →
      ((recordAt cfg s pre i).after cfg).seen = (recordAt cfg s pre i).before.seen) ∧
    (∀ k pre i mid j post, ins = pre ++ i :: mid ++ j :: post →
      (recordAt cfg s pre i).Requests cfg k →
      (recordAt cfg s (pre ++ i :: mid) j).Requests cfg k →
      ∃ entry, ((recordAt cfg s pre i).after cfg).seen[k]? = some entry ∧
        ∀ remote data ok, .sent remote data ok ∈ (recordAt cfg s (pre ++ i :: mid) j).log cfg →
          remote = k.remote ∧ Repeats entry k.msgID data) := by
  refine ⟨fun k => (handlerRuns_runLog ins s k hc).1, ?_, ?_⟩
  · rintro pre i post rfl hn
    exact Record.seen_after_of_not_requests cfg _ (hc i (by simp)) hn
  · rintro k pre i mid j post rfl hi hj
    have hclear : (recordAt cfg s pre i).input.isClear = false := hc i (by simp)
    have hmem : k ∈ ((recordAt cfg s pre i).after cfg).seen :=
      (Record.mem_after cfg _ hclear k).mpr (Or.inr hi)
    obtain ⟨entry, he⟩ := mem_iff_getElem?.mp hmem
    refine ⟨entry, he, ?_⟩
    intro remote data ok hsent
    -- nothing between the two requests touches the entry
    have hbefore : (recordAt cfg s (pre ++ i :: mid) j).before =
        stateAfter cfg ((recordAt cfg s pre i).after cfg) mid := by
      rw [← stateAfter_concat, ← stateAfter_append, List.append_assoc]
      rfl
    refine Record.replies_of_mem cfg _ hj ?_ hsent
    rw [hbefore, entry_stateAfter mid _ k (fun c hm => hc c (by simp [hm])) hmem, he]

end

/-! ### A short run -/

/-- A confirmable GET, and a ping, with message ID 7. -/
def getSeven : Input := .datagram [0x61] none [0x40, 1, 0, 7] steadyWorld

def pingSeven : Input := .datagram [0x61] none [0x40, 0, 0, 7] steadyWorld

def keySeven : ExchangeKey := ⟨[0x61], 7⟩

theorem duplicates_between_clears_getSeven :
    (∀ i ∈ [((0 : Int), getSeven), (1, getSeven)], i.2.isClear = false) ∧
      ∀ k, handlerRuns k (runLog responderConfig freshServer [(0, getSeven), (1, getSeven)]) ≤ 1 :=
  have hc : ∀ i ∈ [((0 : Int), getSeven), (1, getSeven)], i.2.isClear = false := by
    intro i hi
    simp only [List.mem_cons, List.not_mem_nil, or_false] at hi
    rcases hi with rfl | rfl <;> rfl
  ⟨hc, (duplicates_between_clears responderConfig freshServer _ hc).1⟩

/-- **A ping is not a duplicate.**  An empty confirmable message with the ID of
an answered request is answered with an RST, which is neither the recorded
response nor an empty ACK. -/
theorem ping_after_getSeven :
    ((recordAt responderConfig freshServer [(0, getSeven)] (1, pingSeven)).message
        responderConfig).map (fun m => (m.1, m.2.type)) = some (keySeven, typeCON) ∧
      ∃ entry, ((recordAt responderConfig freshServer [] (0, getSeven)).after
          responderConfig).seen[keySeven]? = some entry ∧
        ∃ data, .sent keySeven.remote data true ∈
          (recordAt responderConfig freshServer [(0, getSeven)] (1, pingSeven)).log responderConfig ∧
          ¬ Repeats entry keySeven.msgID data := by
  refine ⟨by decide +kernel, ⟨some [0x60, 69, 0, 7, 0xFF, 1]⟩, by decide +kernel,
    [0x70, 0, 0, 7], by decide +kernel, ?_⟩
  intro h
  have h' : ([0x70, 0, 0, 7] : Bytes) = [0x60, 69, 0, 7, 0xFF, 1] := h
  exact absurd h' (by decide)

end SharkSocket.Coap
