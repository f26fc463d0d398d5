import SharkSocket.Coap.Schedule

/-!
# The time between two transmissions

A tick that sends a notification again moves its deadline on by twice the timeout, counted
from the old deadline.  Only if the new deadline lies in the past is it counted from the
tick.  So the next transmission can follow soon after a tick that comes just before the new
deadline.  A `Prompt` tick is one that does not, and between prompt ticks there are at least
two seconds (`retransmissions_spaced`).
-/

namespace SharkSocket.Coap

open Lib
open Std (ExtTreeMap)

variable {key : ExchangeKey}

/-- A tick at `now` leaves two seconds until the next deadline: it comes that long before
the deadline that follows from the old one, or after it. -/
def PendingNotify.Prompt (pn : PendingNotify) (now : Int) : Prop :=
  now + ackTimeout ≤ pn.deadline + pn.timeout * 2 ∨ pn.deadline + pn.timeout * 2 < now

theorem PendingNotify.Prompt.deadline {pn : PendingNotify} {now : Int} (h : pn.Prompt now)
    (htimeout : ackTimeout ≤ pn.timeout) : now + ackTimeout ≤ (pn.advance now).deadline := by
  have hpos : 0 < ackTimeout := by decide
  rw [advance]
  dsimp only
  rcases h with hbefore | hpast
  · rw [if_neg (by omega)]
    exact hbefore
  · omega

/-- The deadline keeps the next transmission two seconds away from the last one. -/
def Spaced (key : ExchangeKey) (last : Int) (s : Server) : Prop :=
  ∀ pn, s.pendingNotifies[key]? = some pn →
    ackTimeout ≤ pn.timeout ∧ last + ackTimeout ≤ pn.deadline

theorem Spaced.advance {last now : Int} {s s' : Server} {pn : PendingNotify} (h : Spaced key last s)
    (hpn : s.pendingNotifies[key]? = some pn) (hprompt : pn.Prompt now)
    (hentry : s'.pendingNotifies[key]? = some (pn.advance now)) : Spaced key now s' := by
  intro pn' hpn'
  obtain rfl := Option.some.inj (hentry.symm.trans hpn')
  have htimeout := (h pn hpn).1
  refine ⟨?_, hprompt.deadline htimeout⟩
  have hpos : 0 < ackTimeout := by decide
  rw [PendingNotify.advance]
  dsimp only
  omega

/-- The input does not issue the key, and a tick on which the notification is due is
prompt. -/
def Record.Prompt (cfg : Config) (key : ExchangeKey) (r : Record) : Prop :=
  .issued key ∉ r.log cfg ∧ (r.input.isRetransmitDue = true →
    ∀ pn, r.before.pendingNotifies[key]? = some pn → pn.deadline ≤ r.time → pn.Prompt r.time)

/-- **Two transmissions of a notification are at least two seconds apart**, the first one
at `t0` included, for every jitter and at whatever times the ticks come, if every tick that
finds the notification due is prompt. -/
theorem retransmissions_spaced (cfg : Config) (t : Turn) (t0 draw : Int) (key : ExchangeKey)
    (token data : Bytes) (s : Server) (ins : List TimedInput)
    (hs : s.pendingNotifies[key]? =
      (t.trackNotify t0 draw key token data).srv.pendingNotifies[key]?)
    (hissued : ∀ pre i post, ins = pre ++ i :: post →
      .issued key ∉ (recordAt cfg s pre i).log cfg)
    (hprompt : ∀ pre i post, ins = pre ++ i :: post → i.2.isRetransmitDue = true →
      ∀ pn, (stateAfter cfg s pre).pendingNotifies[key]? = some pn → pn.deadline ≤ i.1 →
        pn.Prompt i.1) :
    List.IsChain (fun sent next => sent + 2 * second ≤ next) (t0 :: resendTimes cfg key s ins) := by
  have hstart : Spaced key t0 s := by
    have hlow := (initialRetransmitTimeout_range draw).1
    have hack : ackTimeout = 2 * second := rfl
    have htracked : s.pendingNotifies[key]? = some ⟨data, token, 0, initialRetransmitTimeout draw,
        t0 + initialRetransmitTimeout draw⟩ := hs.trans ExtTreeMap.getElem?_insert_self
    intro pn hpn
    obtain rfl := Option.some.inj (htracked.symm.trans hpn)
    dsimp only
    omega
  have hrun : ∀ pre i post, ins = pre ++ i :: post → (recordAt cfg s pre i).Prompt cfg key :=
    fun pre i post heq => ⟨hissued pre i post heq, hprompt pre i post heq⟩
  -- from the last transmission on, whatever came before it
  clear hs hissued hprompt
  induction ins generalizing s t0 with
  | nil => exact List.isChain_singleton t0
  | cons i ins ih =>
    obtain ⟨hissued, hprompt⟩ := hrun [] i ins rfl
    have hprogress : Progress cfg key ⟨s, i.1, i.2⟩ := progress hissued
    have hrest : ∀ pre j post, ins = pre ++ j :: post →
        (recordAt cfg ((⟨s, i.1, i.2⟩ : Record).after cfg) pre j).Prompt cfg key := by
      rintro pre j post rfl
      exact hrun (i :: pre) j post rfl
    rw [resendTimes]
    cases hprogress with
    | idle hcount hentry _ =>
      rw [hcount, List.replicate_zero]
      exact ih t0 _ (fun pn hpn => hstart pn (hentry.symm.trans hpn)) hrest
    | gone hcount hentry _ | gaveUp _ pn hpn hdue hspent hcount hentry _ =>
      rw [hcount, List.replicate_zero]
      refine ih t0 _ (fun pn hpn => ?_) hrest
      cases hentry.symm.trans hpn
    | resent htick pn hpn hdue _ hcount hentry =>
      have hgap : t0 + 2 * second ≤ i.1 := (hstart pn hpn).2.trans hdue
      rw [hcount, List.replicate_one, List.singleton_append, List.isChain_cons_cons]
      exact ⟨hgap, ih i.1 _ (hstart.advance hpn (hprompt htick pn hpn hdue) hentry) hrest⟩

/-- Ticks on time. -/
theorem retransmissions_spaced_notifiedServer :
    resendTimes responderConfig keyOne notifiedServer (List.map tickAt [2, 6]) =
        [2 * second, 6 * second] ∧
      List.IsChain (fun sent next => sent + 2 * second ≤ next)
        (0 :: resendTimes responderConfig keyOne notifiedServer (List.map tickAt [2, 6])) := by
  have hruns : ∀ pre i post, List.map tickAt [2, 6] = pre ++ i :: post →
      pre = [] ∧ i = tickAt 2 ∨ pre = [tickAt 2] ∧ i = tickAt 6 := by
    rintro (_ | ⟨a, _ | ⟨b, pre⟩⟩) i post heq
    · cases heq
      exact .inl ⟨rfl, rfl⟩
    · cases heq
      exact .inr ⟨rfl, rfl⟩
    · have hlen := congrArg List.length heq
      simp at hlen
  refine ⟨by decide +kernel, retransmissions_spaced responderConfig ⟨freshServer, []⟩ 0 0 keyOne []
    dataOne notifiedServer _ (by decide +kernel) ?_ ?_⟩
  · intro pre i post heq
    rcases hruns pre i post heq with ⟨rfl, rfl⟩ | ⟨rfl, rfl⟩ <;> decide +kernel
  · intro pre i post heq _ pn hpn _
    rcases hruns pre i post heq with ⟨rfl, rfl⟩ | ⟨rfl, rfl⟩
    · have hentry : (stateAfter responderConfig notifiedServer []).pendingNotifies[keyOne]? =
          some ⟨dataOne, [], 0, 2 * second, 2 * second⟩ := by decide +kernel
      obtain rfl := Option.some.inj (hentry.symm.trans hpn)
      exact .inl (by decide)
    · have hentry : (stateAfter responderConfig notifiedServer
          [tickAt 2]).pendingNotifies[keyOne]? =
          some ⟨dataOne, [], 1, 4 * second, 6 * second⟩ := by decide +kernel
      obtain rfl := Option.some.inj (hentry.symm.trans hpn)
      exact .inl (by decide)

/-- A tick one second before the deadline that follows, and a tick at that deadline. -/
theorem late_tick_bursts :
    resendTimes responderConfig keyOne notifiedServer (List.map tickAt [5, 6]) =
        [5 * second, 6 * second] ∧
      ¬ List.IsChain (fun sent next => sent + 2 * second ≤ next)
        (0 :: resendTimes responderConfig keyOne notifiedServer (List.map tickAt [5, 6])) := by
  have htimes : resendTimes responderConfig keyOne notifiedServer (List.map tickAt [5, 6]) =
      [5 * second, 6 * second] := by decide +kernel
  refine ⟨htimes, ?_⟩
  rw [htimes]
  decide

end SharkSocket.Coap
